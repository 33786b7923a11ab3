import SpotRelay.Model.UpbitGzip

/-!
# What zlib promises

The documented behaviour of `inflate` on a gzip stream.  A stream that is being decoded has an
outlook: whether its input holds the end of the stream, holds an error, or ends before either, and
the output that is still to come.  Every call keeps the outlook, and says in its return code how far
it came.
-/

set_option autoImplicit false

namespace SpotRelay.Interface

open SpotRelay.Model

/-- What `inflate` will find in its input. -/
inductive StreamKind
  /-- The end of the stream. -/
  | complete
  /-- An error, before the end. -/
  | corrupt
  /-- Neither. -/
  | unfinished
deriving DecidableEq, Repr

/-- The data start with a whole gzip stream. -/
def StartsWithStream (isStream : List UInt8 → Prop) (data : List UInt8) : Prop :=
  ∃ stream, isStream stream ∧ stream <+: data

/-- The data break off inside a gzip stream. -/
def Truncated (isStream : List UInt8 → Prop) (data : List UInt8) : Prop :=
  ¬ StartsWithStream isStream data ∧ ∃ stream, isStream stream ∧ data <+: stream

/-- The documented behaviour of `inflate` for a given notion of gzip streams. -/
structure InflateContract (z : Zlib) (isStream : List UInt8 → Prop) where
  /-- What `inflate` will find in some data. -/
  kind : List UInt8 → StreamKind
  kind_complete : ∀ data, kind data = .complete ↔ StartsWithStream isStream data
  /-- Nothing is wrong with a part of a stream. -/
  kind_truncated : ∀ data, Truncated isStream data → kind data = .unfinished
  /-- A stream between two calls. -/
  live : z.State → Prop
  /-- What a live stream will find in its input, and the output that is still to come. -/
  outlook : z.State → List UInt8 → StreamKind × List UInt8
  init : ∀ state, z.inflateInit2 31 = some state →
    live state ∧ ∀ input, (outlook state input).1 = kind input
  /-- A call that does not end the stream leaves the outlook as it is, for what it has not consumed
  and not put out. -/
  goesOn : ∀ state input room, live state → 0 < room →
    let call := z.inflate state input room
    call.code = .ok ∨ call.code = .bufError →
      live call.state ∧ (outlook call.state call.rest).1 = (outlook state input).1 ∧
        call.output ++ (outlook call.state call.rest).2 = (outlook state input).2 ∧
        call.rest <:+ input
  /-- `Z_OK`: more input was consumed or more output was produced. -/
  ok : ∀ state input room, live state → 0 < room →
    let call := z.inflate state input room
    call.code = .ok → call.rest.length < input.length ∨ call.output ≠ []
  /-- `Z_BUF_ERROR`: no progress was possible. -/
  bufError : ∀ state input room, live state → 0 < room →
    (z.inflate state input room).code = .bufError → outlook state input = (.unfinished, [])
  /-- `Z_STREAM_END`: the end was reached and all output has been produced. -/
  streamEnd : ∀ state input room, live state → 0 < room →
    let call := z.inflate state input room
    call.code = .streamEnd → outlook state input = (.complete, call.output)
  /-- `Z_DATA_ERROR`: the input is corrupted. -/
  dataError : ∀ state input room, live state → 0 < room →
    (z.inflate state input room).code = .dataError → (outlook state input).1 = .corrupt
  /-- `Z_STREAM_ERROR` is for an inconsistent stream. -/
  streamError : ∀ state input room, live state → 0 < room →
    (z.inflate state input room).code ≠ .streamError
  /-- `Z_NEED_DICT` is for streams with a preset dictionary, which gzip does not have. -/
  needDict : ∀ state input room, live state → 0 < room →
    (z.inflate state input room).code ≠ .needDict

end SpotRelay.Interface
