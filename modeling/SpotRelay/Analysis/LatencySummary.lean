import Mathlib.Data.List.Induction
import SpotRelay.Model.LatencyProbe

/-!
# The rows of the latency summary

The exporter keeps a summary for each trace and writes and forgets it at a terminal stage.  So the
rows of a trace are those of its own events, however they are mixed with the events of others: one
for each stretch of them that ends at a terminal stage.

* **the rows** are one for each terminal event (`rows_of_terminal`), and the row at an event is that
  of the stretch up to it (`row_summaryOf`).
* **a column** is the span between two stages, or -1 where one of them is missing or they stand the
  other way (`spanNs_nonneg_or`).
-/

set_option autoImplicit false

namespace SpotRelay.Analysis

open SpotRelay.Model

/-! ## What a row says -/

section Stretches

variable {α : Type}

/-- The stretches of a list up to each element that ends one, with this element apart; `current` is
what the first of them begins with. -/
def stretches (ends : α → Bool) : List α → List α → List (List α × α)
  | _, [] => []
  | current, x :: xs =>
    if ends x then (current, x) :: stretches ends [] xs else stretches ends (current ++ [x]) xs

end Stretches

/-- The delay of the last event of a stage. -/
def lastNs (events : List LatencyEvent) (stage : LatencyStage) : Int64 :=
  match events.reverse.find? (·.stage = stage) with
  | some event => event.deltaNs.toInt64
  | none => -1

/-- The first symbol that is not empty. -/
def firstSymbol (events : List LatencyEvent) (last : LatencySymbol) : LatencySymbol :=
  match events.find? (·.symbol.text ≠ []) with
  | some event => event.symbol
  | none => last

/-- The time between two stages, or `-1` where one is missing or they are out of order. -/
def spanNs (a b : Int64) : Int64 := if a < 0 ∨ b < 0 ∨ b < a then -1 else b - a

/-- The row of a stretch of a trace. -/
def stretchRow (traceId : UInt64) (stretch : List LatencyEvent × LatencyEvent) : SummaryRow where
  traceId := traceId
  symbol := firstSymbol (stretch.1 ++ [stretch.2]) stretch.2.symbol
  terminalStage := stretch.2.stage
  totalNs := stretch.2.deltaNs.toInt64
  spans := summarySpans.map fun (start, finish) =>
    spanNs (lastNs (stretch.1 ++ [stretch.2]) start) (lastNs (stretch.1 ++ [stretch.2]) finish)

/-- The exporter's summaries after the events. -/
def summariesOf (events : List LatencyEvent) : LatencySummaries :=
  events.foldl LatencySummaries.summarize {}

/-! ## One summary -/

def summaryOf (events : List LatencyEvent) : TraceSummary := events.foldl TraceSummary.add {}

/-- The summary is kept event by event. -/
theorem summaryOf_concat (events : List LatencyEvent) (event : LatencyEvent) :
    summaryOf (events ++ [event]) = (summaryOf events).add event :=
  List.foldl_concat _ _ _ _

/-- A stage's last time is the newest event's where it is of that stage. -/
theorem lastNs_concat (events : List LatencyEvent) (event : LatencyEvent) (stage : LatencyStage) :
    lastNs (events ++ [event]) stage =
      if event.stage = stage then event.deltaNs.toInt64 else lastNs events stage := by
  unfold lastNs
  rw [List.reverse_concat, List.find?_cons]
  by_cases hstage : event.stage = stage
  · rw [if_pos hstage, decide_eq_true hstage]
  · rw [if_neg hstage, decide_eq_false hstage]

/-- The summary holds the last time of every stage. -/
theorem stageNs_summaryOf (events : List LatencyEvent) (stage : LatencyStage) :
    (summaryOf events).stageNs stage = lastNs events stage := by
  induction events using List.reverseRecOn with
  | nil => rfl
  | append_singleton events event ih =>
    rw [summaryOf_concat, lastNs_concat, ← ih]
    show Function.update (summaryOf events).stageNs event.stage event.deltaNs.toInt64 stage = _
    rw [Function.update_apply]
    by_cases hstage : event.stage = stage
    · rw [if_pos hstage, if_pos hstage.symm]
    · rw [if_neg hstage, if_neg (Ne.symm hstage)]

/-- The symbol is found before the last event, or that of the last event is taken. -/
theorem firstSymbol_concat (events : List LatencyEvent) (event : LatencyEvent)
    (before : LatencySymbol)
    (hbefore : (∀ e ∈ events, e.symbol.text = []) → before.text = []) :
    firstSymbol (events ++ [event]) event.symbol =
      if (firstSymbol events before).text = [] then event.symbol
      else firstSymbol events before := by
  unfold firstSymbol
  rw [List.find?_append]
  cases hfound : events.find? (·.symbol.text ≠ []) with
  | some found =>
    have htext : found.symbol.text ≠ [] := by simpa using List.find?_some hfound
    exact (if_neg htext).symm
  | none =>
    have hempty : before.text = [] := by
      apply hbefore
      intro e he
      simpa using List.find?_eq_none.mp hfound e he
    rw [Option.none_or]
    dsimp only
    rw [if_pos hempty]
    by_cases htext : event.symbol.text = [] <;> simp [htext]

/-- Until a symbol is found, the summary has the last one. -/
theorem symbol_summaryOf (events : List LatencyEvent) (event : LatencyEvent) :
    (summaryOf (events ++ [event])).symbol =
      firstSymbol (events ++ [event]) event.symbol := by
  induction events using List.reverseRecOn generalizing event with
  | nil => exact (firstSymbol_concat [] event default fun _ => by decide).symm
  | append_singleton events before ih =>
    rw [firstSymbol_concat (events ++ [before]) event before.symbol fun h => h before (by simp),
      ← ih before, summaryOf_concat]
    rfl

/-- The row written at an event is the row of the stretch up to it. -/
theorem row_summaryOf (traceId : UInt64) (events : List LatencyEvent) (event : LatencyEvent) :
    (summaryOf (events ++ [event])).row traceId event.stage =
      stretchRow traceId (events, event) := by
  unfold TraceSummary.row stretchRow
  congr 1
  · exact symbol_summaryOf events event
  · rw [stageNs_summaryOf, lastNs_concat, if_pos rfl]
  · apply List.map_congr_left
    rintro ⟨start, finish⟩ -
    show TraceSummary.span _ start finish = spanNs _ _
    unfold TraceSummary.span spanNs
    rw [stageNs_summaryOf, stageNs_summaryOf]

/-! ## All summaries -/

/-- The rows of a trace depend on what its summary begins with and on its own events. -/
theorem rows_foldl (traceId : UInt64) (events current : List LatencyEvent) (s : LatencySummaries)
    (hcurrent : (s.summaries traceId).getD {} = summaryOf current) :
    (events.foldl LatencySummaries.summarize s).rows.filter (·.traceId = traceId) =
      s.rows.filter (·.traceId = traceId) ++
        (stretches (fun event => isTerminalStage event.stage) current
          (events.filter (·.traceId = traceId))).map (stretchRow traceId) := by
  induction events generalizing current s with
  | nil => exact (List.append_nil _).symm
  | cons event events ih =>
    rw [List.foldl_cons]
    by_cases htrace : event.traceId = traceId
    · have hfilter : (event :: events).filter (·.traceId = traceId) =
          event :: events.filter (·.traceId = traceId) := by simp [htrace]
      rw [hfilter, stretches]
      cases hends : isTerminalStage event.stage with
      | true =>
        have hrows : (s.summarize event).rows =
            s.rows ++ [stretchRow traceId (current, event)] := by
          unfold LatencySummaries.summarize
          rw [if_pos hends, htrace, hcurrent, ← summaryOf_concat, row_summaryOf]
        have hnext : ((s.summarize event).summaries traceId).getD {} = summaryOf [] := by
          unfold LatencySummaries.summarize
          rw [if_pos hends, htrace]
          exact congrArg (Option.getD · {}) (Function.update_self traceId none s.summaries)
        have hrow : [stretchRow traceId (current, event)].filter (·.traceId = traceId) =
            [stretchRow traceId (current, event)] := by simp [stretchRow]
        rw [ih [] _ hnext, hrows, if_pos rfl, List.filter_append, hrow, List.append_assoc]
        rfl
      | false =>
        have hrows : (s.summarize event).rows = s.rows := by
          unfold LatencySummaries.summarize
          rw [hends]
          rfl
        have hnext : ((s.summarize event).summaries traceId).getD {} =
            summaryOf (current ++ [event]) := by
          unfold LatencySummaries.summarize
          rw [hends, htrace, hcurrent, ← summaryOf_concat]
          exact congrArg (Option.getD · {}) (Function.update_self traceId _ s.summaries)
        rw [ih _ _ hnext, hrows, if_neg (by rintro ⟨⟩)]
    · have hother : ∀ summary, Function.update s.summaries event.traceId summary traceId =
          s.summaries traceId :=
        fun _ => Function.update_of_ne (Ne.symm htrace) _ _
      have hfilter : (event :: events).filter (·.traceId = traceId) =
          events.filter (·.traceId = traceId) := by simp [htrace]
      have hnext : ((s.summarize event).summaries traceId).getD {} = summaryOf current := by
        rw [← hcurrent]
        unfold LatencySummaries.summarize
        dsimp only
        split_ifs <;> exact congrArg (Option.getD · {}) (hother _)
      have hrows : (s.summarize event).rows.filter (·.traceId = traceId) =
          s.rows.filter (·.traceId = traceId) := by
        unfold LatencySummaries.summarize
        dsimp only
        split_ifs
        · simp [List.filter_append, TraceSummary.row, htrace]
        · rfl
      rw [hfilter, ih current _ hnext, hrows]

/-- A row is written for each terminal event. -/
theorem rows_of_terminal (events : List LatencyEvent) (s : LatencySummaries) :
    (events.foldl LatencySummaries.summarize s).rows.map (fun r => (r.traceId, r.terminalStage)) =
      s.rows.map (fun r => (r.traceId, r.terminalStage)) ++
        (events.filter fun event => isTerminalStage event.stage).map
          fun event => (event.traceId, event.stage) := by
  induction events generalizing s with
  | nil => exact (List.append_nil _).symm
  | cons event events ih =>
    rw [List.foldl_cons, ih]
    cases hends : isTerminalStage event.stage with
    | true =>
      have hfilter : (event :: events).filter (fun e => isTerminalStage e.stage) =
          event :: events.filter fun e => isTerminalStage e.stage := by simp [hends]
      rw [hfilter, LatencySummaries.summarize, if_pos hends, List.map_append, List.append_assoc]
      rfl
    | false =>
      have hfilter : (event :: events).filter (fun e => isTerminalStage e.stage) =
          events.filter fun e => isTerminalStage e.stage := by simp [hends]
      rw [hfilter, LatencySummaries.summarize, hends]
      rfl

/-- A span is missing or not negative. -/
theorem spanNs_nonneg_or (a b : Int64) : spanNs a b = -1 ∨ 0 ≤ spanNs a b := by
  unfold spanNs
  split_ifs with hmissing
  · exact .inl rfl
  · right
    simp only [not_or, Int64.not_lt, Int64.le_iff_toInt_le] at hmissing ⊢
    obtain ⟨ha, hb, hab⟩ := hmissing
    have hzero : (0 : Int64).toInt = 0 := rfl
    have ha_lt := a.toInt_lt
    have hb_lt := b.toInt_lt
    rw [Int64.toInt_sub, Int.bmod_eq_of_le] <;> omega

/-- The rows are those of the terminal events in order; the rows of a trace are those of its own
events since its terminal event before, whatever comes between; and a time is `-1` or no less than
0. -/
theorem summary_rows (events : List LatencyEvent) :
    (summariesOf events).rows.map (fun r => (r.traceId, r.terminalStage)) =
      (events.filter fun event => isTerminalStage event.stage).map
        (fun event => (event.traceId, event.stage)) ∧
    (∀ traceId, (summariesOf events).rows.filter (·.traceId = traceId) =
      (stretches (fun event => isTerminalStage event.stage) []
        (events.filter (·.traceId = traceId))).map (stretchRow traceId)) ∧
    ∀ row ∈ (summariesOf events).rows, ∀ span ∈ row.spans, span = -1 ∨ 0 ≤ span := by
  have htrace : ∀ traceId, (summariesOf events).rows.filter (·.traceId = traceId) =
      (stretches (fun event => isTerminalStage event.stage) []
        (events.filter (·.traceId = traceId))).map (stretchRow traceId) :=
    fun traceId => rows_foldl traceId events [] {} rfl
  refine ⟨rows_of_terminal events {}, htrace, ?_⟩
  intro row hrow span hspan
  have hmem : row ∈ (summariesOf events).rows.filter (·.traceId = row.traceId) :=
    List.mem_filter.mpr ⟨hrow, decide_eq_true rfl⟩
  rw [htrace] at hmem
  obtain ⟨stretch, -, hstretch⟩ := List.mem_map.mp hmem
  rw [← hstretch] at hspan
  obtain ⟨⟨start, finish⟩, -, rfl⟩ := List.mem_map.mp hspan
  exact spanNs_nonneg_or _ _

end SpotRelay.Analysis
