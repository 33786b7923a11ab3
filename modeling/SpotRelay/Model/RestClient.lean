import SpotRelay.Model.Clients

/-!
# The REST client

`RestClient::do_request` (rest_client.cpp:39-146): up to three attempts over a connection
pool.  What the network and the server do in one attempt is given; the code only sees the
response or the exception, not how far the request got.
-/

set_option autoImplicit false

namespace SpotRelay.Model

/-- `MAX_RETRIES`: one initial attempt and two retries. -/
def maxRetries : ℕ := 3

/-- The error codes that `do_request` tells apart. -/
inductive ErrorCode
  | connectionReset
  | brokenPipe
  | eof
  | endOfStream
  | streamTruncated
  | other (code : ℕ)
deriving DecidableEq, Repr

/-- What the two `catch` branches catch. -/
inductive Fault
  | systemError (code : ErrorCode) (what : String)
  | exception (what : String)
deriving DecidableEq, Repr

/-- `e.what()`. -/
def Fault.what : Fault → String
  | .systemError _ what => what
  | .exception what => what

/-- `retriable`: a lost connection (rest_client.cpp:122-126). -/
def Fault.retriable : Fault → Bool
  | .systemError (.other _) _ => false
  | .systemError _ _ => true
  | .exception _ => false

/-- How far the request of an attempt got before the fault (ghost). -/
inductive Progress
  | unsent
  | written
  | processed
deriving DecidableEq, Repr

/-- What happens to one attempt. -/
inductive Attempt
  /-- The pool has no connection within 200 ms. -/
  | poolExhausted
  /-- The pooled connection has no stream. -/
  | invalidStream
  /-- Building, writing or reading raised an exception. -/
  | raised (fault : Fault) (progress : Progress)
  /-- A response was read; the flag says whether the server processed the request. -/
  | answered (statusCode : ℕ) (body : String) (processed : Bool)
deriving DecidableEq, Repr

/-- `http::write` succeeded. -/
def Attempt.written : Attempt → Bool
  | .raised _ .unsent => false
  | .raised _ _ => true
  | .answered _ _ _ => true
  | _ => false

/-- The server processed the request. -/
def Attempt.processed : Attempt → Bool
  | .raised _ .processed => true
  | .answered _ _ processed => processed
  | _ => false

/-- The attempt ended with a response. -/
def Attempt.isAnswered : Attempt → Bool
  | .answered _ _ _ => true
  | _ => false

/-- The attempt raised an error that is not classified as retriable. -/
def Attempt.nonRetriable : Attempt → Bool
  | .raised fault _ => !fault.retriable
  | _ => false

/-- `HttpResponse`; the headers are left out. -/
structure HttpResponse where
  statusCode : ℕ := 0
  body : String := ""
  error : String := ""
  success : Bool := false
deriving DecidableEq, Repr

/-- One pass of the loop: the response so far, and whether the function returns it
(rest_client.cpp:46-143). -/
def tryRequest (attempt : ℕ) (a : Attempt) : HttpResponse × Bool :=
  match a with
  | .poolExhausted =>
    ({ error := "Failed to acquire connection from pool" }, decide (maxRetries - 1 ≤ attempt))
  | .invalidStream =>
    ({ error := "Invalid stream in pooled connection" }, decide (maxRetries - 1 ≤ attempt))
  | .answered statusCode body _ =>
    ({ statusCode := statusCode
       body := body
       success := decide (statusCode = 200 ∨ statusCode = 201) }, true)
  -- both `catch` branches end in the next pass, with `continue` or by falling through
  | .raised fault _ => ({ error := fault.what }, false)

/-- The loop over the attempts, with the attempts it made. -/
def requestLoop (attempt : ℕ) (response : HttpResponse) :
    List Attempt → HttpResponse × List Attempt
  | [] => (response, [])
  | a :: rest =>
    let tried := tryRequest attempt a
    if tried.2 then (tried.1, [a])
    else
      let tail := requestLoop (attempt + 1) tried.1 rest
      (tail.1, a :: tail.2)

/-- `do_request`, of which `post` is one case; the verb is never looked at again. -/
def doRequest (network : ℕ → Attempt) : HttpResponse × List Attempt :=
  requestLoop 0 {} ((List.range maxRetries).map network)

/-! ## Orders over one POST -/

/-- The answer to a submission: the parsed body of a successful response. -/
def orderResponse (parse : String → Option OrderBody) (response : HttpResponse) :
    Option OrderBody :=
  if response.success then parse response.body else none

/-- `BithumbExchange::place_market_order` with its POST (bithumb.cpp:710-789). -/
def bithumbSubmit (parse : String → Option OrderBody) (network : ℕ → Attempt) (r : KoreanReply)
    (side : Side) (quantity : ℚ) : Placed × List Attempt :=
  let posted := doRequest network
  (bithumbPlaceMarketOrder { r with response := orderResponse parse posted.1 } side quantity,
    posted.2)

/-- `UpbitExchange::place_market_order` with its POST (upbit.cpp:671-735). -/
def upbitSubmit (parse : String → Option OrderBody) (network : ℕ → Attempt) (r : KoreanReply)
    (quantity : ℚ) : Placed × List Attempt :=
  if quantity ≤ 0 ∨ r.credentialsSet = false then (upbitPlaceMarketSell r quantity, [])
  else
    let posted := doRequest network
    (upbitPlaceMarketSell { r with response := orderResponse parse posted.1 } quantity, posted.2)

end SpotRelay.Model
