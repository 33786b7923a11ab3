import SpotRelay.Library.Retry
import SpotRelay.Model.RestClient

/-!
# A POST that is processed once

`do_request` makes another attempt after every exception, whatever it was and however far the
request got.  A POST is safe exactly when every attempt that another one can follow fails
with a lost connection before its request is written.

* **the attempts** of `do_request` are those up to the first answered one (`doRequest_made`), and
  each one but the last is followed by another (`doRequest_followed`).
* **what was processed was written**, so a connection lost before the write is safe to try again
  (`Attempt.processed_of_not_written`).
-/

set_option autoImplicit false

namespace SpotRelay.Analysis

open SpotRelay.Model SpotRelay.Library.Retry

/-- How often the server processed the request. -/
def processings (attempts : List Attempt) : ℕ := attempts.countP Attempt.processed

/-- The server processes the POST at most once, nothing is sent after a successful write or a
non-retriable error, and no market order of a Korean client is created twice. -/
structure PostedOnce (network : ℕ → Attempt) : Prop where
  processed : processings (doRequest network).2 ≤ 1
  noResendAfterWrite : (doRequest network).2.Pairwise fun a _ => a.written = false
  noResendAfterFinal : (doRequest network).2.Pairwise fun a _ => a.nonRetriable = false
  bithumb : ∀ parse r side quantity,
    processings (bithumbSubmit parse network r side quantity).2 ≤ 1
  upbit : ∀ parse r quantity, processings (upbitSubmit parse network r quantity).2 ≤ 1

/-- An attempt that may be repeated: it got no connection, or lost it before the request was
written. -/
def Repeatable (a : Attempt) : Prop := a.written = false ∧ a.nonRetriable = false

instance (a : Attempt) : Decidable (Repeatable a) := inferInstanceAs (Decidable (_ ∧ _))

/-- Among the attempts before the last, every one until the first answer may be repeated. -/
def FailsBeforeWrite (network : ℕ → Attempt) : Prop :=
  ∀ a ∈ ((List.range (maxRetries - 1)).map network).takeWhile fun a => !a.isAnswered, Repeatable a

/-- The loop makes its attempts until the first answer. -/
theorem requestLoop_made (response : HttpResponse) (tape : List Attempt) (attempt : ℕ)
    (hlength : attempt + tape.length ≤ maxRetries) :
    (requestLoop attempt response tape).2 = made Attempt.isAnswered tape := by
  induction tape generalizing attempt response with
  | nil => rfl
  | cons a rest ih =>
    rw [List.length_cons] at hlength
    have hrest := fun response => ih response (attempt + 1) (by omega)
    cases a with
    | answered statusCode body processed => simp [requestLoop, tryRequest, made, Attempt.isAnswered]
    | raised fault progress => simp [requestLoop, tryRequest, made, Attempt.isAnswered, hrest]
    | poolExhausted =>
      by_cases hlast : maxRetries - 1 ≤ attempt
      · have hnil : rest = [] := List.length_eq_zero_iff.mp (by omega)
        simp [requestLoop, tryRequest, made, Attempt.isAnswered, hlast, hnil]
      · simp [requestLoop, tryRequest, made, Attempt.isAnswered, hlast, hrest]
    | invalidStream =>
      by_cases hlast : maxRetries - 1 ≤ attempt
      · have hnil : rest = [] := List.length_eq_zero_iff.mp (by omega)
        simp [requestLoop, tryRequest, made, Attempt.isAnswered, hlast, hnil]
      · simp [requestLoop, tryRequest, made, Attempt.isAnswered, hlast, hrest]

/-- The client makes the attempts up to the first answered one. -/
theorem doRequest_made (network : ℕ → Attempt) :
    (doRequest network).2 = made Attempt.isAnswered ((List.range maxRetries).map network) :=
  requestLoop_made _ _ _ (by simp)

/-- The attempts that another one follows. -/
theorem doRequest_followed (network : ℕ → Attempt) :
    (doRequest network).2.dropLast =
      ((List.range (maxRetries - 1)).map network).takeWhile fun a => !a.isAnswered := by
  rw [doRequest_made, dropLast_made]
  rfl

/-- What was processed was written. -/
theorem Attempt.processed_of_not_written {a : Attempt} (h : a.written = false) :
    a.processed = false := by
  cases a with
  | poolExhausted => rfl
  | invalidStream => rfl
  | raised fault progress =>
    cases progress with
    | unsent => rfl
    | written => rfl
    | processed => cases h
  | answered statusCode body processed => cases h

/-- A POST is processed at most once, and is never repeated after a write or a non-retriable
error, exactly when the attempts before the last fail before the write with a retriable error,
if they are not answered. -/
theorem post_once_iff (network : ℕ → Attempt) : PostedOnce network ↔ FailsBeforeWrite network := by
  unfold FailsBeforeWrite
  rw [← doRequest_followed]
  constructor
  · intro h a ha
    have hwrite := (pairwise_left_iff (fun a : Attempt => a.written = false) _).mp
      h.noResendAfterWrite
    have hfinal := (pairwise_left_iff (fun a : Attempt => a.nonRetriable = false) _).mp
      h.noResendAfterFinal
    exact ⟨hwrite a ha, hfinal a ha⟩
  · intro h
    have hwrite : (doRequest network).2.Pairwise fun a _ => a.written = false := by
      refine (pairwise_left_iff (fun a : Attempt => a.written = false) _).mpr ?_
      exact fun a ha => (h a ha).1
    have honce : processings (doRequest network).2 ≤ 1 := by
      refine countP_le_one Attempt.processed (hwrite.imp ?_)
      exact fun ha => Attempt.processed_of_not_written ha
    refine ⟨honce, hwrite, ?_, ?_, ?_⟩
    · refine (pairwise_left_iff (fun a : Attempt => a.nonRetriable = false) _).mpr ?_
      exact fun a ha => (h a ha).2
    · intro parse r side quantity
      exact honce
    · intro parse r quantity
      unfold upbitSubmit
      split_ifs
      · exact Nat.zero_le 1
      · exact honce

/-- The server processes the POST, the connection closes before the response is read, and the
retry is processed and answered. -/
def lostResponse : ℕ → Attempt
  | 0 => .raised (.systemError .eof "End of file") .processed
  | _ => .answered 201 "" true

/-- A lost response makes the server process a POST twice. -/
theorem lostResponse_posted_twice : ¬ ∀ network : ℕ → Attempt, PostedOnce network := by
  intro h
  have honce := (h lostResponse).processed
  revert honce
  decide

end SpotRelay.Analysis
