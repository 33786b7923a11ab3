import SpotRelay.Analysis.TransferRoutes
import SpotRelay.Model.TransferRefresh

/-!
# What the refreshes leave in the tables

An answer that is not empty replaces all that its venue said before, and an empty one replaces
nothing.  So after any number of refreshes each table says of a venue what the venue's last answer
that was not empty says, however the answers of the five requests fell out.

* **one answer** replaces what is known of its venue where it is not empty (`answered_empty`,
  `lastAnswer_concat`).
* **the three tables** say after any history what their last answers say (`latestFees_refreshCalls`,
  `latestEnabled_refreshCalls`, `latestNets_refreshCalls`).
-/

set_option autoImplicit false

namespace SpotRelay.Analysis

open SpotRelay.Model

/-! ## One answer -/

section OneAnswer

variable {α : Type} {coin : List Char}

/-- Of the entries of a map, one at most bears on a coin. -/
theorem foldl_entries {entries : List ((_ : List Char) × α)} (hnodup : entries.NodupKeys)
    (latest : Option α) :
    entries.foldl (fun latest entry => if entry.1 = coin then some entry.2 else latest) latest =
      (entries.dlookup coin).or latest := by
  induction entries generalizing latest with
  | nil => rfl
  | cons entry entries ih =>
    obtain ⟨key, value⟩ := entry
    obtain ⟨hfresh, hrest⟩ := List.nodupKeys_cons.mp hnodup
    rw [List.foldl_cons, ih hrest]
    by_cases hkey : key = coin
    · subst hkey
      have hnone : entries.dlookup key = none := List.dlookup_eq_none.mpr hfresh
      rw [if_pos rfl, hnone, List.dlookup_cons_eq]
      rfl
    · rw [if_neg hkey, List.dlookup_cons_ne _ _ (Ne.symm hkey)]

/-- What an answer makes of the latest value: the answer decides unless it is empty. -/
def answered (answer : CoinMap α) (coin : List Char) (latest : Option α) : Option α :=
  if answer.entries = [] then latest else answer.lookup coin

variable {next : Option α → TransferCall → Option α} {clear : TransferCall}
  {set : List Char → α → TransferCall}

/-- Replaying a refresh of one table leaves the coin with what the answer says, or with what it had
where the answer is empty. -/
theorem foldl_replaceCalls (hclear : ∀ latest, next latest clear = none)
    (hset : ∀ latest base a, next latest (set base a) = if base = coin then some a else latest)
    (answer : CoinMap α) (latest : Option α) :
    (replaceCalls clear set answer).foldl next latest = answered answer coin latest := by
  unfold replaceCalls answered
  by_cases hempty : answer.entries = []
  · rw [if_pos hempty, if_pos hempty]
    rfl
  · rw [if_neg hempty, if_neg hempty, List.foldl_cons, hclear, List.foldl_map]
    simp only [hset]
    rw [foldl_entries answer.nodupKeys, Option.or_none]
    rfl

/-- The calls of another venue or of another table. -/
theorem foldl_replaceCalls_other {β : Type} {next : β → TransferCall → β}
    (hclear : ∀ latest, next latest clear = latest)
    (hset : ∀ latest base a, next latest (set base a) = latest) (answer : CoinMap α) (latest : β) :
    (replaceCalls clear set answer).foldl next latest = latest := by
  unfold replaceCalls
  split
  · rfl
  · rw [List.foldl_cons, hclear, List.foldl_map]
    simp only [hset]
    induction answer.entries with
    | nil => rfl
    | cons entry entries ih => exact ih

/-- The calls for a venue bear on that venue. -/
theorem foldl_venueCalls {ex : Exchange} {clear : Exchange → TransferCall}
    {set : Exchange → List Char → α → TransferCall}
    (hclear : ∀ latest other, next latest (clear other) = if other = ex then none else latest)
    (hset : ∀ latest other base a, next latest (set other base a) =
      if other = ex ∧ base = coin then some a else latest)
    (other : Exchange) (answer : CoinMap α) (latest : Option α) :
    (replaceCalls (clear other) (set other) answer).foldl next latest =
      if other = ex then answered answer coin latest else latest := by
  by_cases hex : other = ex
  · rw [if_pos hex]
    refine foldl_replaceCalls ?_ ?_ answer latest
    · intro latest
      rw [hclear, if_pos hex]
    · intro latest base a
      rw [hset]
      simp only [hex, true_and]
  · rw [if_neg hex]
    refine foldl_replaceCalls_other ?_ ?_ answer latest
    · intro latest
      rw [hclear, if_neg hex]
    · intro latest base a
      rw [hset, if_neg fun h => hex h.1]

/-- An empty answer changes nothing. -/
theorem answered_empty (latest : Option α) : answered ∅ coin latest = latest := if_pos rfl

end OneAnswer

/-! ## One refresh -/

section OneRefresh

variable {switches : VenueSwitches} {answers : RouteAnswers} {ex : Exchange} {coin : List Char}

/-- The fees that a refresh reads from a venue's answer. -/
def venueFees (switches : VenueSwitches) (ex : Exchange) (answers : RouteAnswers) :
    CoinMap (List NetworkFee) :=
  match ex with
  | .bithumb => answers.bithumbFees
  | .upbit => if switches.upbitEnabled then answers.upbitFees else ∅
  | _ => ∅

/-- The withdrawal flags that a refresh reads. -/
def venueStatuses (ex : Exchange) (answers : RouteAnswers) : CoinMap Bool :=
  match ex with
  | .bithumb => answers.bithumbStatuses
  | _ => ∅

/-- The deposit networks that a refresh reads. -/
def venueNetworks (switches : VenueSwitches) (ex : Exchange) (answers : RouteAnswers) :
    CoinMap (Finset String) :=
  match ex with
  | .bybit => answers.bybitNets
  | .okx => if switches.okxEnabled then answers.okxNets else ∅
  | _ => ∅

/-- What the calls of one refresh make of the latest list of fees. -/
theorem foldl_nextFees_calls (latest : Option (List NetworkFee)) :
    (answers.calls switches).foldl (nextFees ex coin) latest =
      answered (venueFees switches ex answers) coin latest := by
  have hfees : ∀ other answer latest, (feeCalls other answer).foldl (nextFees ex coin) latest =
      if other = ex then answered answer coin latest else latest :=
    foldl_venueCalls (fun _ _ => rfl) fun _ _ _ _ => rfl
  have hstatuses : ∀ other answer latest,
      (statusCalls other answer).foldl (nextFees ex coin) latest = latest :=
    fun _ => foldl_replaceCalls_other (fun _ => rfl) fun _ _ _ => rfl
  have hnetworks : ∀ other answer latest,
      (networkCalls other answer).foldl (nextFees ex coin) latest = latest :=
    fun _ => foldl_replaceCalls_other (fun _ => rfl) fun _ _ _ => rfl
  obtain ⟨_ | _, _ | _⟩ := switches <;> cases ex <;>
    simp [RouteAnswers.calls, venueFees, hfees, hstatuses, hnetworks, answered_empty]

/-- What they make of the latest withdrawal flag. -/
theorem foldl_nextEnabled_calls (latest : Option Bool) :
    (answers.calls switches).foldl (nextEnabled ex coin) latest =
      answered (venueStatuses ex answers) coin latest := by
  have hfees : ∀ other answer latest,
      (feeCalls other answer).foldl (nextEnabled ex coin) latest = latest :=
    fun _ => foldl_replaceCalls_other (fun _ => rfl) fun _ _ _ => rfl
  have hstatuses : ∀ other answer latest,
      (statusCalls other answer).foldl (nextEnabled ex coin) latest =
        if other = ex then answered answer coin latest else latest :=
    foldl_venueCalls (fun _ _ => rfl) fun _ _ _ _ => rfl
  have hnetworks : ∀ other answer latest,
      (networkCalls other answer).foldl (nextEnabled ex coin) latest = latest :=
    fun _ => foldl_replaceCalls_other (fun _ => rfl) fun _ _ _ => rfl
  obtain ⟨_ | _, _ | _⟩ := switches <;> cases ex <;>
    simp [RouteAnswers.calls, venueStatuses, hfees, hstatuses, hnetworks, answered_empty]

/-- What they make of the latest deposit networks. -/
theorem foldl_nextNets_calls (latest : Option (Finset String)) :
    (answers.calls switches).foldl (nextNets ex coin) latest =
      answered (venueNetworks switches ex answers) coin latest := by
  have hfees : ∀ other answer latest,
      (feeCalls other answer).foldl (nextNets ex coin) latest = latest :=
    fun _ => foldl_replaceCalls_other (fun _ => rfl) fun _ _ _ => rfl
  have hstatuses : ∀ other answer latest,
      (statusCalls other answer).foldl (nextNets ex coin) latest = latest :=
    fun _ => foldl_replaceCalls_other (fun _ => rfl) fun _ _ _ => rfl
  have hnetworks : ∀ other answer latest,
      (networkCalls other answer).foldl (nextNets ex coin) latest =
        if other = ex then answered answer coin latest else latest :=
    foldl_venueCalls (fun _ _ => rfl) fun _ _ _ _ => rfl
  obtain ⟨_ | _, _ | _⟩ := switches <;> cases ex <;>
    simp [RouteAnswers.calls, venueNetworks, hfees, hstatuses, hnetworks, answered_empty]

end OneRefresh

/-! ## All refreshes -/

section Refreshes

variable {α : Type}

/-- The last answer that was not empty. -/
def lastAnswer (answer : RouteAnswers → CoinMap α) (first : CoinMap α)
    (history : List RouteAnswers) : CoinMap α :=
  history.foldl (fun last answers => if (answer answers).entries = [] then last else answer answers)
    first

/-- The last answer is the newest one that is not empty. -/
theorem lastAnswer_concat (answer : RouteAnswers → CoinMap α) (first : CoinMap α)
    (history : List RouteAnswers) (answers : RouteAnswers) :
    lastAnswer answer first (history ++ [answers]) =
      if (answer answers).entries = [] then lastAnswer answer first history
      else answer answers := by
  rw [lastAnswer, List.foldl_append]
  rfl

/-- Replaying every refresh of the history leaves the coin with the last answer's entry. -/
theorem foldl_flatMap_calls {switches : VenueSwitches} {coin : List Char}
    {next : Option α → TransferCall → Option α} {answer : RouteAnswers → CoinMap α}
    (hnext : ∀ answers latest, (RouteAnswers.calls switches answers).foldl next latest =
      answered (answer answers) coin latest) (first : CoinMap α) (history : List RouteAnswers) :
    (history.flatMap (RouteAnswers.calls switches)).foldl next (first.lookup coin) =
      (lastAnswer answer first history).lookup coin := by
  induction history using List.reverseRecOn with
  | nil => rfl
  | append_singleton history answers ih =>
    rw [List.flatMap_append, List.flatMap_singleton, List.foldl_append, ih, hnext,
      lastAnswer_concat]
    unfold answered
    split <;> rfl

variable (switches : VenueSwitches) (startup : CoinMap (List NetworkFee))
  (history : List RouteAnswers)

/-- What a venue says of its fees: the start-up asks Bithumb once before the refreshes do. -/
def knownFees (ex : Exchange) : CoinMap (List NetworkFee) :=
  lastAnswer (venueFees switches ex) (if ex = .bithumb then startup else ∅) history

def knownStatuses (ex : Exchange) : CoinMap Bool := lastAnswer (venueStatuses ex) ∅ history

def knownNetworks (ex : Exchange) : CoinMap (Finset String) :=
  lastAnswer (venueNetworks switches ex) ∅ history

/-- All calls of the start-up and of the refreshes. -/
def refreshCalls : List TransferCall :=
  RouteProgram.startupCalls startup ++ history.flatMap (RouteAnswers.calls switches)

variable (ex : Exchange) (coin : List Char)

/-- The start-up calls change nothing where Bithumb's fees are not looked at. -/
theorem foldl_startupCalls_other {β : Type} {next : β → TransferCall → β} (latest : β)
    (hset : ∀ latest base fees,
      next latest (.setWithdrawNetworkFees .bithumb base fees) = latest) :
    (RouteProgram.startupCalls startup).foldl next latest = latest := by
  rw [RouteProgram.startupCalls, List.foldl_map]
  simp only [hset]
  induction startup.entries with
  | nil => rfl
  | cons entry entries ih => exact ih

/-- The fee a refresh history leaves is the known one. -/
theorem latestFees_refreshCalls : latestFees ex coin (refreshCalls switches startup history) =
    (knownFees switches startup history ex).lookup coin := by
  have hstart : (RouteProgram.startupCalls startup).foldl (nextFees ex coin) none =
      (if ex = .bithumb then startup else ∅).lookup coin := by
    by_cases hex : ex = .bithumb
    · subst hex
      rw [RouteProgram.startupCalls, List.foldl_map, if_pos rfl]
      simp only [nextFees, true_and]
      rw [foldl_entries startup.nodupKeys, Option.or_none]
      rfl
    · rw [if_neg hex, AList.lookup_empty]
      refine foldl_startupCalls_other startup none ?_
      intro latest base fees
      exact if_neg fun h => hex h.1.symm
  rw [latestFees, refreshCalls, List.foldl_append, hstart]
  exact foldl_flatMap_calls (fun answers latest => foldl_nextFees_calls latest) _ history

/-- The status a refresh history leaves is the known one. -/
theorem latestEnabled_refreshCalls : latestEnabled ex coin (refreshCalls switches startup history) =
    (knownStatuses history ex).lookup coin := by
  rw [latestEnabled, refreshCalls, List.foldl_append,
    foldl_startupCalls_other startup none fun _ _ _ => rfl]
  exact foldl_flatMap_calls (fun answers latest => foldl_nextEnabled_calls latest) ∅ history

/-- The networks a refresh history leaves are the known ones. -/
theorem latestNets_refreshCalls : latestNets ex coin (refreshCalls switches startup history) =
    (knownNetworks switches history ex).lookup coin := by
  rw [latestNets, refreshCalls, List.foldl_append,
    foldl_startupCalls_other startup none fun _ _ _ => rfl]
  exact foldl_flatMap_calls (fun answers latest => foldl_nextNets_calls latest) ∅ history

end Refreshes

end SpotRelay.Analysis
