import Mathlib.Algebra.Group.Nat.Defs
import SpotRelay.Library.FuelLoop

/-!
# Compressed frames

`UpbitExchange::decompress_gzip` and what `on_ws_message` makes of a frame (upbit.cpp:204-230,
305-319).  The decoder is zlib's, which is a parameter.
-/

set_option autoImplicit false

namespace SpotRelay.Model

open SpotRelay.Library

/-- What a call of `inflate` returns. -/
inductive InflateCode
  | ok
  | streamEnd
  | needDict
  | bufError
  | streamError
  | dataError
  | memError
deriving DecidableEq, Repr

/-- The stream after a call of `inflate`: `rest` is what `next_in` has left, `output` what was
written to `next_out`. -/
structure InflateCall (State : Type) where
  code : InflateCode
  state : State
  rest : List UInt8
  output : List UInt8

/-- The part of zlib that is called. -/
structure Zlib where
  State : Type
  /-- `none` where it is not `Z_OK`. -/
  inflateInit2 (windowBits : ℕ) : Option State
  /-- One call with the given input and room for the output. -/
  inflate (state : State) (input : List UInt8) (room : ℕ) : InflateCall State

/-- The size of `decompress_buf_`. -/
def decompressBufSize : ℕ := 65536

namespace UpbitExchange

variable (z : Zlib)

/-- `strm` with the output so far. -/
structure Decompression where
  state : z.State
  input : List UInt8
  output : List UInt8

/-- One round of the loop: the next one, or what the function returns. -/
def decompressStep (s : Decompression z) : Decompression z ⊕ (Bool × List UInt8) :=
  let call := z.inflate s.state s.input decompressBufSize
  if call.code = .streamError ∨ call.code = .dataError ∨ call.code = .memError then
    .inr (false, s.output)
  else
    let output := s.output ++ call.output
    if call.code = .streamEnd then .inr (true, output) else .inl ⟨call.state, call.rest, output⟩

/-- `avail_in` is an unsigned 32-bit number. -/
def seenInput (data : List UInt8) : List UInt8 := data.take (data.length % 2 ^ 32)

/-- `decompress_gzip` with at most `fuel` rounds: its result and `output`. -/
def decompressGzip (fuel : ℕ) (data output : List UInt8) : Option (Bool × List UInt8) :=
  match z.inflateInit2 (15 + 16) with
  | none => some (false, output)
  | some state => FuelLoop.run (decompressStep z) fuel ⟨state, seenInput data, []⟩

/-- `json_view` of `on_ws_message`; the inner `none` is the early return. -/
def jsonView (fuel : ℕ) (message : List UInt8) : Option (Option (List UInt8)) :=
  if message.head? = some 0x1f then
    (decompressGzip z fuel message []).map fun r => if r.1 then some r.2 else none
  else some (some message)

end UpbitExchange

end SpotRelay.Model
