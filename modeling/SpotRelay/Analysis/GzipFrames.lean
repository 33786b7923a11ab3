import Mathlib.Data.List.Infix
import SpotRelay.Interface.InflateContract

/-!
# Frames that break off

The loop around `inflate` stops at the end of the stream and at three of the errors.  A frame that
breaks off inside its stream meets none of them: `inflate` has nothing more to do, says so with
`Z_BUF_ERROR`, and is called again.

* **one pass** of the loop stands where the decoder stands in what it was shown (`decoding_start`,
  `Decoding`).
* **with enough memory** the result is that of the data: a complete stream is decompressed, a
  corrupt one refused, and an unfinished one keeps the loop for ever (`decompressGzip_of_memory`),
  which keeps the message handler too (`jsonView_eq_none_iff`).
-/

set_option autoImplicit false

namespace SpotRelay.Analysis

open SpotRelay.Model SpotRelay.Model.UpbitExchange SpotRelay.Interface SpotRelay.Library

open Relation (ReflTransGen)

/-! ## One round -/

section Loop

variable {z : Zlib} {isStream : List UInt8 → Prop} (c : InflateContract z isStream)

/-- The stream between two rounds: what `inflate` will find, and the whole output in the end. -/
structure Decoding (kind : StreamKind) (total : List UInt8) (s : Decompression z) : Prop where
  live : c.live s.state
  kind : (c.outlook s.state s.input).1 = kind
  total : s.output ++ (c.outlook s.state s.input).2 = total

/-- The input that is left and the output that is still to come. -/
def workLeft (s : Decompression z) : ℕ := s.input.length + (c.outlook s.state s.input).2.length

/-- The next call of `inflate` lacks memory. -/
def LacksMemory (s : Decompression z) : Prop :=
  (z.inflate s.state s.input decompressBufSize).code = .memError

variable {c} {kind : StreamKind} {total : List UInt8} {s : Decompression z}

/-- What a round does: it fails for want of memory or for an error in the input, it ends with the
whole output, or it goes on with less work left or at the end of an unfinished input. -/
theorem decompressStep_cases (hs : Decoding c kind total s) :
    (decompressStep z s = .inr (false, s.output) ∧ (LacksMemory s ∨ kind = .corrupt)) ∨
    (decompressStep z s = .inr (true, total) ∧ kind = .complete ∧ ¬ LacksMemory s) ∨
    ∃ s', decompressStep z s = .inl s' ∧ Decoding c kind total s' ∧
      (kind = .unfinished ∨ workLeft c s' < workLeft c s) := by
  have hroom : 0 < decompressBufSize := by decide
  have hgoesOn := c.goesOn s.state s.input decompressBufSize hs.live hroom
  have hok := c.ok s.state s.input decompressBufSize hs.live hroom
  have hend := c.streamEnd s.state s.input decompressBufSize hs.live hroom
  unfold LacksMemory decompressStep
  dsimp only at hgoesOn hok hend ⊢
  -- the next state, where the call does not end the stream
  have hnext : ∀ call : InflateCall z.State,
      c.live call.state ∧ (c.outlook call.state call.rest).1 = (c.outlook s.state s.input).1 ∧
        call.output ++ (c.outlook call.state call.rest).2 = (c.outlook s.state s.input).2 ∧
        call.rest <:+ s.input →
      Decoding c kind total ⟨call.state, call.rest, s.output ++ call.output⟩ := by
    rintro call ⟨hlive, hkind, hpending, -⟩
    refine ⟨hlive, hkind.trans hs.kind, ?_⟩
    rw [List.append_assoc, hpending]
    exact hs.total
  cases hcode : (z.inflate s.state s.input decompressBufSize).code with
  | ok =>
    obtain ⟨hlive, hkind, hpending, hsuffix⟩ := hgoesOn (Or.inl hcode)
    refine Or.inr (Or.inr ⟨_, by simp, hnext _ ⟨hlive, hkind, hpending, hsuffix⟩, Or.inr ?_⟩)
    have hlength := hsuffix.length_le
    have hsum := congrArg List.length hpending
    rw [List.length_append] at hsum
    simp only [workLeft]
    rcases hok hcode with hconsumed | hproduced
    · omega
    · have hsome := List.length_pos_iff.mpr hproduced
      omega
  | bufError =>
    have hstuck := c.bufError s.state s.input decompressBufSize hs.live hroom hcode
    refine Or.inr (Or.inr ⟨_, by simp, hnext _ (hgoesOn (Or.inr hcode)), Or.inl ?_⟩)
    rw [← hs.kind, hstuck]
  | streamEnd =>
    have hall := hend hcode
    refine Or.inr (Or.inl ⟨?_, ?_, by simp⟩)
    · rw [← hs.total, hall]
      simp
    · rw [← hs.kind, hall]
  | dataError =>
    have hcorrupt := c.dataError s.state s.input decompressBufSize hs.live hroom hcode
    exact Or.inl ⟨by simp, Or.inr (hs.kind.symm.trans hcorrupt)⟩
  | memError => exact Or.inl ⟨by simp, Or.inl rfl⟩
  | streamError =>
    exact absurd hcode (c.streamError s.state s.input decompressBufSize hs.live hroom)
  | needDict => exact absurd hcode (c.needDict s.state s.input decompressBufSize hs.live hroom)

/-! ## The loop -/

/-- One of the calls that are made lacks memory. -/
def RunsOutOfMemory (s : Decompression z) : Prop :=
  ∃ s', ReflTransGen (FuelLoop.Goes (decompressStep z)) s s' ∧ LacksMemory s'

/-- A decompression that has memory enough still has it after a step. -/
theorem not_runsOutOfMemory_of_goes {s' : Decompression z} (hgoes : decompressStep z s = .inl s')
    (h : ¬ RunsOutOfMemory s) : ¬ RunsOutOfMemory s' := by
  rintro ⟨last, hreached, hlacks⟩
  exact h ⟨last, .head hgoes hreached, hlacks⟩

/-- Without memory the loop returns false. -/
theorem run_of_runsOutOfMemory (h : RunsOutOfMemory s) :
    ∃ fuel output, FuelLoop.run (decompressStep z) fuel s = some (false, output) := by
  obtain ⟨last, hreached, hlacks⟩ := h
  have hstops : decompressStep z last = .inr (false, last.output) := by
    unfold LacksMemory at hlacks
    simp [decompressStep, hlacks]
  obtain ⟨fuel, hfuel⟩ := FuelLoop.exists_run_of_goes hreached hstops
  exact ⟨fuel, _, hfuel⟩

/-- On corrupt input it does so too. -/
theorem run_of_corrupt (hs : Decoding c .corrupt total s) :
    ∃ fuel output, FuelLoop.run (decompressStep z) fuel s = some (false, output) := by
  obtain ⟨fuel, ⟨ok, output⟩, hfuel, hfalse⟩ := FuelLoop.exists_run_of_measure (workLeft c)
    (Decoding c .corrupt total) (fun result : Bool × List UInt8 => result.1 = false) (fun s hs => by
      rcases decompressStep_cases hs with ⟨hstep, -⟩ | ⟨-, hkind, -⟩ | ⟨s', hstep, hs', hless⟩
      · exact Or.inr ⟨_, hstep, rfl⟩
      · cases hkind
      · exact Or.inl ⟨s', hstep, hs', hless.resolve_left (by simp)⟩) hs
  obtain rfl : ok = false := hfalse
  exact ⟨fuel, output, hfuel⟩

/-- On a complete stream it returns true with the whole output. -/
theorem run_of_complete (hs : Decoding c .complete total s) (hmemory : ¬ RunsOutOfMemory s) :
    ∃ fuel, FuelLoop.run (decompressStep z) fuel s = some (true, total) := by
  obtain ⟨fuel, result, hfuel, rfl⟩ := FuelLoop.exists_run_of_measure (workLeft c)
    (fun s => Decoding c .complete total s ∧ ¬ RunsOutOfMemory s) (· = (true, total))
    (fun s hs => by
      obtain ⟨hs, hmemory⟩ := hs
      rcases decompressStep_cases hs with ⟨-, hlacks | hkind⟩ | ⟨hstep, -⟩ | ⟨s', hstep, hs', hless⟩
      · exact absurd ⟨s, .refl, hlacks⟩ hmemory
      · cases hkind
      · exact Or.inr ⟨_, hstep, rfl⟩
      · refine Or.inl ⟨s', hstep, ⟨hs', not_runsOutOfMemory_of_goes hstep hmemory⟩, ?_⟩
        exact hless.resolve_left (by simp)) ⟨hs, hmemory⟩
  exact ⟨fuel, hfuel⟩

/-- On an unfinished input it never returns. -/
theorem run_of_unfinished (hs : Decoding c .unfinished total s) (hmemory : ¬ RunsOutOfMemory s)
    (fuel : ℕ) : FuelLoop.run (decompressStep z) fuel s = none := by
  refine FuelLoop.run_eq_none (fun s => Decoding c .unfinished total s ∧ ¬ RunsOutOfMemory s)
    ?_ fuel ⟨hs, hmemory⟩
  rintro s ⟨hs, hmemory⟩
  rcases decompressStep_cases hs with ⟨-, hlacks | hkind⟩ | ⟨-, hkind, -⟩ | ⟨s', hstep, hs', -⟩
  · exact absurd ⟨s, .refl, hlacks⟩ hmemory
  · cases hkind
  · cases hkind
  · exact ⟨s', hstep, hs', not_runsOutOfMemory_of_goes hstep hmemory⟩

end Loop

/-! ## Frames -/

variable {z : Zlib} {isStream : List UInt8 → Prop}

/-- `inflateInit2` succeeds, and no call of `inflate` that is made lacks memory. -/
def MemorySuffices (z : Zlib) (data : List UInt8) : Prop :=
  ∃ state, z.inflateInit2 31 = some state ∧
    ¬ RunsOutOfMemory (z := z) ⟨state, seenInput data, []⟩

/-- The function returns, and returns true exactly for data that start with a whole stream. -/
def Answers (z : Zlib) (isStream : List UInt8 → Prop) (data output : List UInt8) : Prop :=
  ∃ fuel ok out, decompressGzip z fuel data output = some (ok, out) ∧
    (ok = true ↔ StartsWithStream isStream data)

/-- The decoder comes to the end of the stream or to an error: with enough memory to the end of a
complete stream, in any case to an error in the input, and for want of memory in data that do not
start with a whole stream. -/
def ComesToAnEnd (c : InflateContract z isStream) (data : List UInt8) : Prop :=
  match c.kind (seenInput data) with
  | .complete => MemorySuffices z data
  | .corrupt => True
  | .unfinished => ¬ MemorySuffices z data ∧ ¬ StartsWithStream isStream data

/-- zlib is shown a beginning of the frame. -/
theorem seenInput_within (data : List UInt8) : seenInput data <+: data :=
  List.take_prefix _ _

/-- More data after a whole stream still starts with that stream. -/
theorem startsWithStream_mono {data more : List UInt8} (h : StartsWithStream isStream data)
    (hmore : data <+: more) : StartsWithStream isStream more := by
  obtain ⟨stream, hstream, hprefix⟩ := h
  exact ⟨stream, hstream, hprefix.trans hmore⟩

/-- Data of which a part is corrupt start with no whole stream. -/
theorem not_startsWithStream_of_corrupt (c : InflateContract z isStream) {data : List UInt8}
    (hcorrupt : c.kind (seenInput data) = .corrupt) : ¬ StartsWithStream isStream data := by
  rintro ⟨stream, hstream, hprefix⟩
  have hnone : ¬ StartsWithStream isStream (seenInput data) := by
    rw [← c.kind_complete, hcorrupt]
    exact fun h => StreamKind.noConfusion h
  rcases List.prefix_or_prefix_of_prefix hprefix (seenInput_within data) with hwhole | hpart
  · exact hnone ⟨stream, hstream, hwhole⟩
  · rw [c.kind_truncated _ ⟨hnone, stream, hstream, hpart⟩] at hcorrupt
    cases hcorrupt

/-- A freshly initialized decoder stands at the start of what it is shown. -/
theorem decoding_start (c : InflateContract z isStream) {state : z.State}
    (hinit : z.inflateInit2 31 = some state) (data : List UInt8) :
    Decoding c (c.kind (seenInput data)) (c.outlook state (seenInput data)).2
      ⟨state, seenInput data, []⟩ := by
  obtain ⟨hlive, hkind⟩ := c.init state hinit
  exact ⟨hlive, hkind _, rfl⟩

/-- Once zlib is initialized, decompression is the run of its loop. -/
theorem decompressGzip_of_init {state : z.State} (hinit : z.inflateInit2 31 = some state)
    (fuel : ℕ) (data output : List UInt8) :
    decompressGzip z fuel data output =
      FuelLoop.run (decompressStep z) fuel ⟨state, seenInput data, []⟩ := by
  have hbits : z.inflateInit2 (15 + 16) = some state := hinit
  rw [decompressGzip, hbits]

/-- Without memory the function returns false. -/
theorem decompressGzip_of_no_memory {data : List UInt8} (output : List UInt8)
    (hmemory : ¬ MemorySuffices z data) :
    ∃ fuel out, decompressGzip z fuel data output = some (false, out) := by
  cases hinit : z.inflateInit2 31 with
  | none =>
    have hbits : z.inflateInit2 (15 + 16) = none := hinit
    exact ⟨0, output, by rw [decompressGzip, hbits]⟩
  | some state =>
    have hruns : RunsOutOfMemory (z := z) ⟨state, seenInput data, []⟩ := by
      by_contra hno
      exact hmemory ⟨state, hinit, hno⟩
    simp only [decompressGzip_of_init hinit]
    exact run_of_runsOutOfMemory hruns

/-- One result decides. -/
theorem answers_iff_of_result {data output out : List UInt8} {fuel : ℕ} {ok : Bool}
    (h : decompressGzip z fuel data output = some (ok, out)) :
    Answers z isStream data output ↔ (ok = true ↔ StartsWithStream isStream data) := by
  refine ⟨?_, fun hright => ⟨fuel, ok, out, h, hright⟩⟩
  rintro ⟨fuel', ok', out', h', hright⟩
  have hsame : (ok', out') = (ok, out) := by
    cases hinit : z.inflateInit2 31 with
    | none =>
      have hbits : z.inflateInit2 (15 + 16) = none := hinit
      rw [decompressGzip, hbits] at h h'
      exact (Option.some.inj h').symm.trans (Option.some.inj h)
    | some state =>
      rw [decompressGzip_of_init hinit] at h h'
      exact FuelLoop.run_unique h' h
  obtain ⟨rfl, -⟩ := Prod.mk.inj hsame
  exact hright

/-- With enough memory, the result is that of the data. -/
theorem decompressGzip_of_memory (c : InflateContract z isStream) {data : List UInt8}
    (output : List UInt8) (hmemory : MemorySuffices z data) :
    match c.kind (seenInput data) with
    | .complete => ∃ fuel out, decompressGzip z fuel data output = some (true, out)
    | .corrupt => ∃ fuel out, decompressGzip z fuel data output = some (false, out)
    | .unfinished => ∀ fuel, decompressGzip z fuel data output = none := by
  obtain ⟨state, hinit, hruns⟩ := hmemory
  have hstart := decoding_start c hinit data
  simp only [decompressGzip_of_init hinit]
  cases hkind : c.kind (seenInput data) with
  | complete =>
    rw [hkind] at hstart
    obtain ⟨fuel, hfuel⟩ := run_of_complete hstart hruns
    exact ⟨fuel, _, hfuel⟩
  | corrupt =>
    rw [hkind] at hstart
    exact run_of_corrupt hstart
  | unfinished =>
    rw [hkind] at hstart
    exact run_of_unfinished hstart hruns

/-- A frame keeps `on_ws_message` for ever exactly if it has the first byte of gzip and is
unfinished, and there is memory. -/
theorem jsonView_eq_none_iff (c : InflateContract z isStream) (message : List UInt8) :
    (∀ fuel, jsonView z fuel message = none) ↔
      message.head? = some 0x1f ∧ c.kind (seenInput message) = .unfinished ∧
        MemorySuffices z message := by
  unfold jsonView
  by_cases hgzip : message.head? = some 0x1f
  · simp only [hgzip, if_true, Option.map_eq_none_iff, true_and]
    by_cases hmemory : MemorySuffices z message
    · have hresult := decompressGzip_of_memory c [] hmemory
      cases hkind : c.kind (seenInput message) with
      | unfinished =>
        rw [hkind] at hresult
        exact iff_of_true hresult ⟨rfl, hmemory⟩
      | complete =>
        rw [hkind] at hresult
        obtain ⟨fuel, out, hfuel⟩ := hresult
        refine iff_of_false (fun h => ?_) (by simp)
        rw [h fuel] at hfuel
        cases hfuel
      | corrupt =>
        rw [hkind] at hresult
        obtain ⟨fuel, out, hfuel⟩ := hresult
        refine iff_of_false (fun h => ?_) (by simp)
        rw [h fuel] at hfuel
        cases hfuel
    · obtain ⟨fuel, out, hfuel⟩ := decompressGzip_of_no_memory [] hmemory
      refine iff_of_false (fun h => ?_) fun h => hmemory h.2
      rw [h fuel] at hfuel
      cases hfuel
  · simp [hgzip]

/-- For every frame, the function returns with the right answer exactly if the decoder comes to the
end of the stream or to an error. -/
theorem decompressGzip_answers_iff (c : InflateContract z isStream) (data output : List UInt8) :
    Answers z isStream data output ↔ ComesToAnEnd c data := by
  have hwhole : c.kind (seenInput data) = .complete → StartsWithStream isStream data := fun hkind =>
    startsWithStream_mono ((c.kind_complete _).mp hkind) (seenInput_within data)
  have hnone : c.kind (seenInput data) = .corrupt → ¬ StartsWithStream isStream data :=
    not_startsWithStream_of_corrupt c
  unfold ComesToAnEnd
  by_cases hmemory : MemorySuffices z data
  · have hresult := decompressGzip_of_memory c output hmemory
    cases hkind : c.kind (seenInput data) with
    | complete =>
      rw [hkind] at hresult
      obtain ⟨fuel, out, hfuel⟩ := hresult
      rw [answers_iff_of_result hfuel]
      exact iff_of_true (iff_of_true rfl (hwhole hkind)) hmemory
    | corrupt =>
      rw [hkind] at hresult
      obtain ⟨fuel, out, hfuel⟩ := hresult
      rw [answers_iff_of_result hfuel]
      exact iff_of_true (iff_of_false (by simp) (hnone hkind)) trivial
    | unfinished =>
      rw [hkind] at hresult
      refine iff_of_false ?_ fun h => h.1 hmemory
      rintro ⟨fuel, ok, out, hfuel, -⟩
      rw [hresult fuel] at hfuel
      cases hfuel
  · obtain ⟨fuel, out, hfuel⟩ := decompressGzip_of_no_memory output hmemory
    rw [answers_iff_of_result hfuel]
    cases hkind : c.kind (seenInput data) with
    | complete => exact iff_of_false (fun h => by simpa using h.mpr (hwhole hkind)) hmemory
    | corrupt => exact iff_of_true (iff_of_false (by simp) (hnone hkind)) trivial
    | unfinished => simp [hmemory]

/-! ## A decoder of one stream -/

/-- The gzip stream of the empty text. -/
def emptyGzip : List UInt8 :=
  [0x1f, 0x8b, 8, 0, 0, 0, 0, 0, 0, 3, 3, 0, 0, 0, 0, 0, 0, 0, 0, 0]

/-- What `inflate` does with the rest of this stream, and with anything else. -/
def emptyGzipInflate (expected input : List UInt8) : InflateCall (List UInt8) :=
  if expected <+: input then ⟨.streamEnd, [], input.drop expected.length, []⟩
  else if input = [] then ⟨.bufError, expected, [], []⟩
  else if input <+: expected then ⟨.ok, expected.drop input.length, [], []⟩
  else ⟨.dataError, expected, input, []⟩

/-- The part of zlib that decodes this stream; its state is what is expected next. -/
def emptyGzipDecoder : Zlib where
  State := List UInt8
  inflateInit2 _ := some emptyGzip
  inflate expected input _ := emptyGzipInflate expected input

/-- What it will find. -/
def emptyGzipKind (expected input : List UInt8) : StreamKind :=
  if expected <+: input then .complete else if input <+: expected then .unfinished else .corrupt

/-- A frame starts with the empty gzip stream where its bytes do. -/
theorem startsWithStream_emptyGzip (data : List UInt8) :
    StartsWithStream (· = emptyGzip) data ↔ emptyGzip <+: data := by
  constructor
  · rintro ⟨stream, rfl, hprefix⟩
    exact hprefix
  · intro h
    exact ⟨emptyGzip, rfl, h⟩

/-- The sample decoder's four answers: finished, starved, half-way and corrupt. -/
theorem emptyGzipInflate_cases (expected input : List UInt8) :
    (emptyGzipInflate expected input = ⟨.streamEnd, [], input.drop expected.length, []⟩ ∧
      emptyGzipKind expected input = .complete) ∨
    (emptyGzipInflate expected input = ⟨.bufError, expected, [], []⟩ ∧ input = [] ∧
      emptyGzipKind expected input = .unfinished) ∨
    (emptyGzipInflate expected input = ⟨.ok, expected.drop input.length, [], []⟩ ∧ input ≠ [] ∧
      emptyGzipKind expected input = .unfinished ∧
      emptyGzipKind (expected.drop input.length) [] = .unfinished) ∨
    (emptyGzipInflate expected input = ⟨.dataError, expected, input, []⟩ ∧
      emptyGzipKind expected input = .corrupt) := by
  unfold emptyGzipInflate
  by_cases hwhole : expected <+: input
  · exact Or.inl ⟨if_pos hwhole, if_pos hwhole⟩
  · right
    rw [if_neg hwhole]
    have hkind : emptyGzipKind expected input =
        if input <+: expected then .unfinished else .corrupt := if_neg hwhole
    rw [hkind]
    by_cases hempty : input = []
    · left
      rw [hempty]
      exact ⟨rfl, rfl, if_pos List.nil_prefix⟩
    · right
      rw [if_neg hempty]
      by_cases hpart : input <+: expected
      · left
        rw [if_pos hpart]
        refine ⟨rfl, hempty, if_pos hpart, ?_⟩
        -- something is still expected
        have hrest : ¬ expected.drop input.length <+: [] := by
          intro hnil
          rw [List.prefix_nil, List.drop_eq_nil_iff] at hnil
          rw [hpart.eq_of_length_le hnil] at hwhole
          exact hwhole (List.prefix_refl _)
        rw [emptyGzipKind, if_neg hrest, if_pos List.nil_prefix]
      · right
        rw [if_neg hpart]
        exact ⟨rfl, if_neg hpart⟩

/-- It keeps what zlib promises. -/
def emptyGzipContract : InflateContract emptyGzipDecoder (· = emptyGzip) where
  kind := emptyGzipKind emptyGzip
  kind_complete data := by
    rw [startsWithStream_emptyGzip, emptyGzipKind]
    split_ifs <;> simp_all
  kind_truncated data h := by
    obtain ⟨hnone, stream, rfl, hpart⟩ := h
    rw [startsWithStream_emptyGzip] at hnone
    rw [emptyGzipKind, if_neg hnone, if_pos hpart]
  live _ := True
  outlook expected input := (emptyGzipKind expected input, [])
  init state h := by
    obtain rfl := Option.some.inj h
    exact ⟨trivial, fun _ => rfl⟩
  goesOn expected input _ _ _ := by
    intro call
    have hcases := emptyGzipInflate_cases expected input
    have hsame : emptyGzipInflate expected input = call := rfl
    rw [hsame] at hcases
    clear_value call
    rcases hcases with ⟨rfl, -⟩ | ⟨rfl, rfl, -⟩ | ⟨rfl, -, hkind, hrest⟩ | ⟨rfl, -⟩
    · simp
    · simp
    · simp [hkind, hrest]
    · simp
  ok expected input _ _ _ := by
    intro call
    have hcases := emptyGzipInflate_cases expected input
    have hsame : emptyGzipInflate expected input = call := rfl
    rw [hsame] at hcases
    clear_value call
    rcases hcases with ⟨rfl, -⟩ | ⟨rfl, -⟩ | ⟨rfl, hsome, -⟩ | ⟨rfl, -⟩
    · simp
    · simp
    · simpa using List.length_pos_iff.mpr hsome
    · simp
  bufError expected input _ _ _ := by
    show (emptyGzipInflate expected input).code = .bufError → _
    rcases emptyGzipInflate_cases expected input with ⟨hcall, -⟩ | ⟨hcall, -, hkind⟩ |
      ⟨hcall, -⟩ | ⟨hcall, -⟩
    · simp [hcall]
    · simp [hkind]
    · simp [hcall]
    · simp [hcall]
  streamEnd expected input _ _ _ := by
    intro call
    have hcases := emptyGzipInflate_cases expected input
    have hsame : emptyGzipInflate expected input = call := rfl
    rw [hsame] at hcases
    clear_value call
    rcases hcases with ⟨rfl, hkind⟩ | ⟨rfl, -⟩ | ⟨rfl, -⟩ | ⟨rfl, -⟩
    · simp [hkind]
    · simp
    · simp
    · simp
  dataError expected input _ _ _ := by
    show (emptyGzipInflate expected input).code = .dataError → _
    rcases emptyGzipInflate_cases expected input with ⟨hcall, -⟩ | ⟨hcall, -⟩ |
      ⟨hcall, -⟩ | ⟨hcall, hkind⟩
    · simp [hcall]
    · simp [hcall]
    · simp [hcall]
    · simp [hkind]
  streamError expected input _ _ _ := by
    show (emptyGzipInflate expected input).code ≠ .streamError
    rcases emptyGzipInflate_cases expected input with ⟨hcall, -⟩ | ⟨hcall, -⟩ |
      ⟨hcall, -⟩ | ⟨hcall, -⟩ <;> simp [hcall]
  needDict expected input _ _ _ := by
    show (emptyGzipInflate expected input).code ≠ .needDict
    rcases emptyGzipInflate_cases expected input with ⟨hcall, -⟩ | ⟨hcall, -⟩ |
      ⟨hcall, -⟩ | ⟨hcall, -⟩ <;> simp [hcall]

/-- Its calls never lack memory. -/
theorem memorySuffices_emptyGzipDecoder (data : List UInt8) :
    MemorySuffices emptyGzipDecoder data := by
  refine ⟨emptyGzip, rfl, ?_⟩
  rintro ⟨⟨expected, input, output⟩, -, hlacks⟩
  have hcode : (emptyGzipInflate expected input).code = .memError := hlacks
  rcases emptyGzipInflate_cases expected input with ⟨hcall, -⟩ | ⟨hcall, -⟩ | ⟨hcall, -⟩ |
    ⟨hcall, -⟩ <;> simp [hcall] at hcode

/-- The whole stream is answered, its first byte alone is not. -/
theorem decompressGzip_answers_emptyGzip :
    Answers emptyGzipDecoder (· = emptyGzip) emptyGzip [] ∧
      ¬ Answers emptyGzipDecoder (· = emptyGzip) [0x1f] [] := by
  constructor
  · have hkind : emptyGzipContract.kind (seenInput emptyGzip) = .complete := by decide +kernel
    refine (decompressGzip_answers_iff emptyGzipContract emptyGzip []).mpr ?_
    rw [ComesToAnEnd, hkind]
    exact memorySuffices_emptyGzipDecoder _
  · have hkind : emptyGzipContract.kind (seenInput [0x1f]) = .unfinished := by decide +kernel
    rw [decompressGzip_answers_iff emptyGzipContract, ComesToAnEnd, hkind]
    exact fun h => h.1 (memorySuffices_emptyGzipDecoder _)

/-- A frame of the first byte of a stream keeps the loop going for ever. -/
theorem decompressGzip_hangs :
    ¬ ∀ (z : Zlib) (isStream : List UInt8 → Prop), Nonempty (InflateContract z isStream) →
      ∀ data output : List UInt8, MemorySuffices z data → Answers z isStream data output := by
  intro h
  have hmemory := memorySuffices_emptyGzipDecoder [0x1f]
  obtain ⟨fuel, ok, out, hfuel, -⟩ := h emptyGzipDecoder (· = emptyGzip) ⟨emptyGzipContract⟩
    [0x1f] [] hmemory
  have hkind : emptyGzipContract.kind (seenInput [0x1f]) = .unfinished := by decide +kernel
  have hresult := decompressGzip_of_memory emptyGzipContract [] hmemory
  rw [hkind] at hresult
  rw [hresult fuel] at hfuel
  cases hfuel

end SpotRelay.Analysis
