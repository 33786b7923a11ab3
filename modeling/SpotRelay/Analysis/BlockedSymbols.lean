import SpotRelay.Analysis.SignalRoutes

/-!
# The list of blocked symbols

`get_transfer_blocked_symbols` tallies why each route of a symbol is closed and names one pair.
What the tallies and the sorting come to: a symbol is listed exactly if none of its routes is
available, once, under the first pair of its gravest reason.  And once a refresh is over, no symbol
on the list is signalled.

* **the tallies** of a symbol's routes name its first pair of the gravest reason
  (`entry_of_firstOfGravest`).
* **the list** holds those and nothing else (`mem_blocked_iff`), each symbol once (`nodup_blocked`).
-/

set_option autoImplicit false

namespace SpotRelay.Analysis

open SpotRelay.Model

/-! ## Why a route is closed -/

/-- The reasons, the gravest first. -/
inductive RouteBlock
  | withdrawOff
  | depositOff
  | noSharedNetwork
  | routeMissing
deriving DecidableEq

namespace RouteBlock

/-- The place of a reason. -/
def rank : RouteBlock → ℕ
  | withdrawOff => 0
  | depositOff => 1
  | noSharedNetwork => 2
  | routeMissing => 3

/-- The text where all pairs of a symbol are blocked for the reason. -/
def uniformText : RouteBlock → String
  | withdrawOff => "KR withdraw off"
  | depositOff => "Foreign deposit off"
  | noSharedNetwork => "no shared network"
  | routeMissing => "route data missing"

/-- The text where other reasons occur. -/
def mixedText : RouteBlock → String
  | withdrawOff => "no live route (KR withdraw off mixed)"
  | depositOff => "no live route (Foreign deposit off mixed)"
  | noSharedNetwork => "no live route (shared net none)"
  | routeMissing => "route data missing"

end RouteBlock

/-- Why a route is closed, `none` where it is available. -/
def routeBlock (c : PriceCache) (route : Route) : Option RouteBlock :=
  match c.getTransferRoute route with
  | none => some .routeMissing
  | some r =>
    if r.available then none
    else if !r.withdrawOpen then some .withdrawOff
    else if !r.depositOpen then some .depositOff
    else some .noSharedNetwork

/-- A route has no block exactly where it is available. -/
theorem routeBlock_eq_none_iff {c : PriceCache} {route : Route} :
    routeBlock c route = none ↔ c.isTransferRouteAvailable route = true := by
  unfold routeBlock PriceCache.isTransferRouteAvailable PriceCache.getTransferRoute
  cases c.transferSnapshot.routes.lookup route with
  | none => simp
  | some r =>
    simp only
    split_ifs with havailable <;> simp [havailable]

/-! ## The tallies -/

section Tallies

variable {c : PriceCache} {symbol : SymbolId} {pairs : List ExchangePairConfig}
  {t t' : BlockTallies} {block : RouteBlock} {info : TransferBlockInfo}

/-- Why the route of a symbol over a pair is closed. -/
def pairBlock (c : PriceCache) (symbol : SymbolId) (pair : ExchangePairConfig) :
    Option RouteBlock :=
  routeBlock c (pair.korean, pair.foreign, symbol.base)

/-- What is noted of a pair. -/
def pairInfo (symbol : SymbolId) (reason : String) (pair : ExchangePairConfig) :
    TransferBlockInfo :=
  ⟨symbol, pair.korean, pair.foreign, reason⟩

/-- The tally of a reason. -/
def tallyOf (t : BlockTallies) : RouteBlock → BlockTally
  | .withdrawOff => t.withdraw
  | .depositOff => t.deposit
  | .noSharedNetwork => t.noShared
  | .routeMissing => t.missing

def addBlock (t : BlockTallies) (info : TransferBlockInfo) : RouteBlock → BlockTallies
  | .withdrawOff => { t with withdraw := t.withdraw.add info }
  | .depositOff => { t with deposit := t.deposit.add info }
  | .noSharedNetwork => { t with noShared := t.noShared.add info }
  | .routeMissing => { t with missing := t.missing.add info }

/-- A block is counted under its own kind. -/
theorem tallyOf_addBlock (other : RouteBlock) : tallyOf (addBlock t info block) other =
    if other = block then (tallyOf t other).add info else tallyOf t other := by
  cases block <;> cases other <;> rfl

/-- One round of the loop. -/
theorem tallyPairs_cons (pair : ExchangePairConfig) :
    tallyPairs c symbol (pair :: pairs) t =
      match pairBlock c symbol pair with
      | none => none
      | some block =>
        tallyPairs c symbol pairs (addBlock t (pairInfo symbol block.uniformText pair) block) := by
  rw [tallyPairs, pairBlock, routeBlock]
  cases c.getTransferRoute (pair.korean, pair.foreign, symbol.base) with
  | none => rfl
  | some r =>
    simp only
    by_cases havailable : r.available = true
    · simp only [havailable, if_true]
    · by_cases hwithdraw : (!r.withdrawOpen) = true
      · simp only [havailable, hwithdraw, if_true, if_false, Bool.false_eq_true]
        rfl
      · by_cases hdeposit : (!r.depositOpen) = true
        · simp only [havailable, hwithdraw, hdeposit, if_true, if_false, Bool.false_eq_true]
          rfl
        · simp only [havailable, hwithdraw, hdeposit, if_false, Bool.false_eq_true]
          rfl

/-- The loop ends without tallies exactly if it meets an available route. -/
theorem tallyPairs_eq_none_iff (t : BlockTallies) : tallyPairs c symbol pairs t = none ↔
    ∃ pair ∈ pairs, pairBlock c symbol pair = none := by
  induction pairs generalizing t with
  | nil => simp [tallyPairs]
  | cons pair pairs ih =>
    rw [tallyPairs_cons, List.exists_mem_cons_iff]
    cases hpair : pairBlock c symbol pair with
    | none => simp
    | some block => simp [ih]

/-- A tally counts the pairs of its reason and keeps the first. -/
theorem tallyOf_tallyPairs (h : tallyPairs c symbol pairs t = some t') (block : RouteBlock) :
    (tallyOf t' block).count = (tallyOf t block).count +
        pairs.countP (fun pair => pairBlock c symbol pair = some block) ∧
      (tallyOf t' block).info = (tallyOf t block).info.or
        ((pairs.find? fun pair => pairBlock c symbol pair = some block).map
          (pairInfo symbol block.uniformText)) := by
  induction pairs generalizing t with
  | nil =>
    obtain rfl := Option.some.inj h
    exact ⟨rfl, (Option.or_none).symm⟩
  | cons pair pairs ih =>
    rw [tallyPairs_cons] at h
    cases hpair : pairBlock c symbol pair with
    | none =>
      rw [hpair] at h
      cases h
    | some own =>
      rw [hpair] at h
      obtain ⟨hcount, hinfo⟩ := ih h
      rw [tallyOf_addBlock] at hcount hinfo
      by_cases hown : block = own
      · subst hown
        rw [if_pos rfl] at hcount hinfo
        simp only [BlockTally.add] at hcount hinfo
        constructor
        · rw [hcount, List.countP_cons_of_pos (by simpa using hpair)]
          omega
        · rw [hinfo, List.find?_cons_of_pos (by simpa using hpair), Option.or_assoc]
          rfl
      · have hother : ¬ pairBlock c symbol pair = some block := by
          rw [hpair, Option.some.injEq]
          exact fun heq => hown heq.symm
        rw [if_neg hown] at hcount hinfo
        rw [List.countP_cons_of_neg (by simpa using hother),
          List.find?_cons_of_neg (by simpa using hother)]
        exact ⟨hcount, hinfo⟩

/-! ## The entry of a symbol -/

/-- The pair that comes first among those of the gravest reason. -/
def FirstOfGravest (c : PriceCache) (symbol : SymbolId) (pairs : List ExchangePairConfig)
    (pair : ExchangePairConfig) (block : RouteBlock) : Prop :=
  ∃ before after, pairs = before ++ pair :: after ∧ pairBlock c symbol pair = some block ∧
    (∀ other ∈ before, ∃ b, pairBlock c symbol other = some b ∧ block.rank < b.rank) ∧
    ∀ other ∈ after, ∃ b, pairBlock c symbol other = some b ∧ block.rank ≤ b.rank

/-- What is listed for the pair. -/
def listedInfo (c : PriceCache) (symbol : SymbolId) (pairs : List ExchangePairConfig)
    (pair : ExchangePairConfig) (block : RouteBlock) : TransferBlockInfo :=
  pairInfo symbol
    (if ∀ other ∈ pairs, pairBlock c symbol other = some block then block.uniformText
      else block.mixedText) pair

/-- Where all pairs are blocked, there is a gravest reason. -/
theorem exists_firstOfGravest (hpairs : pairs ≠ [])
    (hblocked : ∀ pair ∈ pairs, pairBlock c symbol pair ≠ none) :
    ∃ pair block, FirstOfGravest c symbol pairs pair block := by
  induction pairs with
  | nil => exact absurd rfl hpairs
  | cons pair pairs ih =>
    obtain ⟨block, hblock⟩ := Option.ne_none_iff_exists'.mp (hblocked pair List.mem_cons_self)
    by_cases hlast : pairs = []
    · subst hlast
      exact ⟨pair, block, [], [], rfl, hblock, by simp, by simp⟩
    · obtain ⟨later, grave, before, after, rfl, hlater, hbefore, hafter⟩ :=
        ih hlast fun pair hpair => hblocked pair (List.mem_cons_of_mem _ hpair)
      by_cases hfirst : block.rank ≤ grave.rank
      · refine ⟨pair, block, [], before ++ later :: after, rfl, hblock, by simp, ?_⟩
        intro other hother
        rcases List.mem_append.mp hother with hin | hin
        · obtain ⟨b, hb, hlt⟩ := hbefore other hin
          exact ⟨b, hb, by omega⟩
        · rcases List.mem_cons.mp hin with rfl | hin
          · exact ⟨grave, hlater, hfirst⟩
          · obtain ⟨b, hb, hle⟩ := hafter other hin
            exact ⟨b, hb, by omega⟩
      · refine ⟨later, grave, pair :: before, after, rfl, hlater, ?_, hafter⟩
        intro other hother
        rcases List.mem_cons.mp hother with rfl | hin
        · exact ⟨block, hblock, by omega⟩
        · exact hbefore other hin

/-- No pair is blocked for a graver reason. -/
theorem rank_le_of_firstOfGravest {pair : ExchangePairConfig}
    (h : FirstOfGravest c symbol pairs pair block) :
    ∀ other ∈ pairs, ∃ b, pairBlock c symbol other = some b ∧ block.rank ≤ b.rank := by
  obtain ⟨before, after, rfl, hpair, hbefore, hafter⟩ := h
  intro other hother
  rcases List.mem_append.mp hother with hin | hin
  · obtain ⟨b, hb, hlt⟩ := hbefore other hin
    exact ⟨b, hb, hlt.le⟩
  · rcases List.mem_cons.mp hin with rfl | hin
    · exact ⟨block, hpair, le_rfl⟩
    · exact hafter other hin

/-- The first pair with the gravest block is the one a search finds. -/
theorem find_firstOfGravest {pair : ExchangePairConfig}
    (h : FirstOfGravest c symbol pairs pair block) :
    (pairs.find? fun other => pairBlock c symbol other = some block) = some pair := by
  obtain ⟨before, after, rfl, hpair, hbefore, -⟩ := h
  have hnone : (before.find? fun other => pairBlock c symbol other = some block) = none := by
    rw [List.find?_eq_none]
    intro other hother
    obtain ⟨b, hb, hlt⟩ := hbefore other hother
    rw [hb, decide_eq_true_eq, Option.some.injEq]
    rintro rfl
    exact absurd hlt (lt_irrefl _)
  rw [List.find?_append, hnone, List.find?_cons_of_pos (by simpa using hpair)]
  rfl

/-- The tallies of a symbol whose pairs are all blocked for one reason: the tests of the graver ones
fail, since nothing was noted for them. -/
theorem blockInfo_uniform {n : ℕ} (hn : n ≠ 0) (hinfo : (tallyOf t block).info = some info)
    (hcount : (tallyOf t block).count = n)
    (hothers : ∀ other ≠ block, (tallyOf t other).info = none) : blockInfo n t = some info := by
  have hnoted : (tallyOf t block).info.isSome := by
    rw [hinfo]
    rfl
  have hfails : ∀ other ≠ block, ¬ (tallyOf t other).info.isSome := by
    intro other hne
    rw [hothers other hne]
    exact Bool.false_ne_true
  rw [blockInfo, if_neg hn]
  cases block with
  | withdrawOff =>
    have hall : t.withdraw.count = n ∧ t.withdraw.info.isSome := ⟨hcount, hnoted⟩
    rw [if_pos hall]
    exact hinfo
  | depositOff =>
    have hwithdraw : ¬ (t.withdraw.count = n ∧ t.withdraw.info.isSome) :=
      fun h => hfails .withdrawOff (by decide) h.2
    have hall : t.deposit.count = n ∧ t.deposit.info.isSome := ⟨hcount, hnoted⟩
    rw [if_neg hwithdraw, if_pos hall]
    exact hinfo
  | noSharedNetwork =>
    have hwithdraw : ¬ (t.withdraw.count = n ∧ t.withdraw.info.isSome) :=
      fun h => hfails .withdrawOff (by decide) h.2
    have hdeposit : ¬ (t.deposit.count = n ∧ t.deposit.info.isSome) :=
      fun h => hfails .depositOff (by decide) h.2
    have hall : t.noShared.count = n ∧ t.noShared.info.isSome := ⟨hcount, hnoted⟩
    rw [if_neg hwithdraw, if_neg hdeposit, if_pos hall]
    exact hinfo
  | routeMissing =>
    have hwithdraw : ¬ (t.withdraw.count = n ∧ t.withdraw.info.isSome) :=
      fun h => hfails .withdrawOff (by decide) h.2
    have hdeposit : ¬ (t.deposit.count = n ∧ t.deposit.info.isSome) :=
      fun h => hfails .depositOff (by decide) h.2
    have hnoShared : ¬ (t.noShared.count = n ∧ t.noShared.info.isSome) :=
      fun h => hfails .noSharedNetwork (by decide) h.2
    have hall : t.missing.count = n ∧ t.missing.info.isSome := ⟨hcount, hnoted⟩
    rw [if_neg hwithdraw, if_neg hdeposit, if_neg hnoShared, if_pos hall]
    exact hinfo

/-- The tallies where more than one reason occurs: no reason is that of all pairs, and the first of
the gravest is listed with the text for a mixture. -/
theorem blockInfo_mixed {n : ℕ} (hn : n ≠ 0) (hinfo : (tallyOf t block).info = some info)
    (hreason : info.reason = block.uniformText) (hcounts : ∀ other, (tallyOf t other).count ≠ n)
    (hgraver : ∀ other, other.rank < block.rank → (tallyOf t other).info = none) :
    blockInfo n t = some { info with reason := block.mixedText } := by
  have hwithdraw : ¬ (t.withdraw.count = n ∧ t.withdraw.info.isSome) :=
    fun h => hcounts .withdrawOff h.1
  have hdeposit : ¬ (t.deposit.count = n ∧ t.deposit.info.isSome) :=
    fun h => hcounts .depositOff h.1
  have hnoShared : ¬ (t.noShared.count = n ∧ t.noShared.info.isSome) :=
    fun h => hcounts .noSharedNetwork h.1
  have hmissing : ¬ (t.missing.count = n ∧ t.missing.info.isSome) :=
    fun h => hcounts .routeMissing h.1
  rw [blockInfo, if_neg hn, if_neg hwithdraw, if_neg hdeposit, if_neg hnoShared, if_neg hmissing]
  cases block with
  | withdrawOff =>
    have hnoted : t.withdraw.info = some info := hinfo
    rw [hnoted]
    rfl
  | depositOff =>
    have hnone : t.withdraw.info = none := hgraver .withdrawOff (by decide)
    have hnoted : t.deposit.info = some info := hinfo
    rw [hnone, hnoted]
    rfl
  | noSharedNetwork =>
    have hnoWithdraw : t.withdraw.info = none := hgraver .withdrawOff (by decide)
    have hnoDeposit : t.deposit.info = none := hgraver .depositOff (by decide)
    have hnoted : t.noShared.info = some info := hinfo
    rw [hnoWithdraw, hnoDeposit, hnoted]
    rfl
  | routeMissing =>
    have hnoWithdraw : t.withdraw.info = none := hgraver .withdrawOff (by decide)
    have hnoDeposit : t.deposit.info = none := hgraver .depositOff (by decide)
    have hnoNoShared : t.noShared.info = none := hgraver .noSharedNetwork (by decide)
    have hnoted : t.missing.info = some info := hinfo
    -- the text of this reason is the same in both cases
    have hsame : { info with reason := RouteBlock.routeMissing.mixedText } = info := by
      cases info
      cases hreason
      rfl
    rw [hnoWithdraw, hnoDeposit, hnoNoShared, hnoted, hsame]
    rfl

/-- The entry of a symbol names the first pair of the gravest reason. -/
theorem entry_of_firstOfGravest {pair : ExchangePairConfig}
    (h : FirstOfGravest c symbol pairs pair block) :
    (tallyPairs c symbol pairs {}).bind (blockInfo pairs.length) =
      some (listedInfo c symbol pairs pair block) := by
  have hranks := rank_le_of_firstOfGravest h
  have hmem : pair ∈ pairs := by
    obtain ⟨before, after, rfl, -⟩ := h
    exact List.mem_append_right _ List.mem_cons_self
  have hpair : pairBlock c symbol pair = some block := by
    obtain ⟨before, after, -, hpair, -⟩ := h
    exact hpair
  have hlength : pairs.length ≠ 0 := (List.length_pos_of_mem hmem).ne'
  cases ht : tallyPairs c symbol pairs {} with
  | none =>
    obtain ⟨other, hother, hopen⟩ := (tallyPairs_eq_none_iff {}).mp ht
    obtain ⟨b, hb, -⟩ := hranks other hother
    rw [hopen] at hb
    cases hb
  | some t =>
    have htallies : ∀ q, (tallyOf t q).count =
          pairs.countP (fun pair => pairBlock c symbol pair = some q) ∧
        (tallyOf t q).info = (pairs.find? fun pair => pairBlock c symbol pair = some q).map
          (pairInfo symbol q.uniformText) := by
      intro q
      have hempty : tallyOf {} q = {} := by cases q <;> rfl
      have hq := tallyOf_tallyPairs ht q
      rw [hempty] at hq
      exact ⟨hq.1.trans (Nat.zero_add _), hq.2.trans Option.none_or⟩
    have hinfo : (tallyOf t block).info = some (pairInfo symbol block.uniformText pair) := by
      rw [(htallies block).2, find_firstOfGravest h]
      rfl
    have hnone : ∀ q, (∀ other ∈ pairs, pairBlock c symbol other ≠ some q) →
        (tallyOf t q).info = none := by
      intro q hq
      rw [(htallies q).2, List.find?_eq_none.mpr (by simpa using hq)]
      rfl
    rw [Option.bind_some, listedInfo]
    by_cases hall : ∀ other ∈ pairs, pairBlock c symbol other = some block
    · rw [if_pos hall]
      refine blockInfo_uniform hlength hinfo ?_ ?_
      · rw [(htallies block).1, List.countP_eq_length]
        exact fun other hother => decide_eq_true (hall other hother)
      · intro q hq
        refine hnone q fun other hother hsome => hq ?_
        rw [hall other hother] at hsome
        exact (Option.some.inj hsome).symm
    · rw [if_neg hall]
      refine blockInfo_mixed hlength hinfo rfl ?_ ?_
      · intro q hq
        rw [(htallies q).1, List.countP_eq_length] at hq
        have hown := of_decide_eq_true (hq pair hmem)
        rw [hpair] at hown
        obtain rfl := Option.some.inj hown
        exact hall fun other hother => of_decide_eq_true (hq other hother)
      · intro q hq
        refine hnone q fun other hother hsome => ?_
        obtain ⟨b, hb, hle⟩ := hranks other hother
        rw [hsome] at hb
        obtain rfl := Option.some.inj hb
        omega

/-- A symbol has an entry exactly if there are pairs and all of them are blocked. -/
theorem entry_eq_some_iff :
    (tallyPairs c symbol pairs {}).bind (blockInfo pairs.length) = some info ↔
      ∃ pair block, FirstOfGravest c symbol pairs pair block ∧
        info = listedInfo c symbol pairs pair block := by
  constructor
  · intro h
    obtain ⟨t, ht, hinfo⟩ := Option.bind_eq_some_iff.mp h
    have hpairs : pairs ≠ [] := by
      rintro rfl
      cases hinfo
    have hblocked : ∀ pair ∈ pairs, pairBlock c symbol pair ≠ none := by
      intro pair hpair hopen
      rw [(tallyPairs_eq_none_iff {}).mpr ⟨pair, hpair, hopen⟩] at ht
      cases ht
    obtain ⟨pair, block, hfirst⟩ := exists_firstOfGravest hpairs hblocked
    rw [entry_of_firstOfGravest hfirst, Option.some.injEq] at h
    exact ⟨pair, block, hfirst, h.symm⟩
  · rintro ⟨pair, block, hfirst, rfl⟩
    exact entry_of_firstOfGravest hfirst

end Tallies

/-! ## The list -/

section Blocked

variable (sort : TextSort) (e : Engine)

/-- The list holds, for each blocked symbol, the first pair with its gravest block, and nothing
else. -/
theorem mem_blocked_iff {info : TransferBlockInfo} : info ∈ e.getTransferBlockedSymbols sort ↔
    ∃ symbol ∈ e.symbols.symbols, ∃ pair block,
      FirstOfGravest e.priceCache symbol e.exchangePairs pair block ∧
        info = listedInfo e.priceCache symbol e.exchangePairs pair block := by
  rw [Engine.getTransferBlockedSymbols, (sort.perm _).mem_iff, List.mem_filterMap]
  simp only [entry_eq_some_iff]

/-- No symbol is listed twice. -/
theorem nodup_blocked : ((e.getTransferBlockedSymbols sort).map (·.symbol)).Nodup := by
  rw [Engine.getTransferBlockedSymbols, ((sort.perm _).map _).nodup_iff, List.map_filterMap]
  refine e.symbols.nodup.filterMap ?_
  intro a b symbol ha hb
  obtain ⟨info, hinfo, hsymbol⟩ := Option.map_eq_some_iff.mp ha
  obtain ⟨info', hinfo', hsymbol'⟩ := Option.map_eq_some_iff.mp hb
  obtain ⟨pair, block, -, rfl⟩ := entry_eq_some_iff.mp hinfo
  obtain ⟨pair', block', -, rfl⟩ := entry_eq_some_iff.mp hinfo'
  exact hsymbol.trans hsymbol'.symm

/-- A symbol is listed exactly if it is monitored, there are pairs, and no pair has a route. -/
theorem listed_iff {symbol : SymbolId} :
    (∃ info ∈ e.getTransferBlockedSymbols sort, info.symbol = symbol) ↔
      symbol ∈ e.symbols.symbols ∧ e.exchangePairs ≠ [] ∧
        ∀ pair ∈ e.exchangePairs, e.priceCache.isTransferRouteAvailable
          (pair.korean, pair.foreign, symbol.base) = false := by
  have hclosed : ∀ pair : ExchangePairConfig, pairBlock e.priceCache symbol pair ≠ none ↔
      e.priceCache.isTransferRouteAvailable (pair.korean, pair.foreign, symbol.base) = false := by
    intro pair
    rw [pairBlock, Ne, routeBlock_eq_none_iff, Bool.not_eq_true]
  constructor
  · rintro ⟨info, hinfo, rfl⟩
    obtain ⟨symbol, hsymbol, pair, block, hfirst, rfl⟩ := (mem_blocked_iff sort e).mp hinfo
    refine ⟨hsymbol, ?_, ?_⟩
    · obtain ⟨before, after, hpairs, -⟩ := hfirst
      rw [hpairs]
      exact List.append_ne_nil_of_right_ne_nil before (List.cons_ne_nil pair after)
    · intro other hother
      obtain ⟨b, hb, -⟩ := rank_le_of_firstOfGravest hfirst other hother
      exact (hclosed other).mp fun hnone => Option.some_ne_none b (hb.symm.trans hnone)
  · rintro ⟨hsymbol, hpairs, hall⟩
    have hblocked : ∀ pair ∈ e.exchangePairs, pairBlock e.priceCache symbol pair ≠ none :=
      fun pair hpair => (hclosed pair).mpr (hall pair hpair)
    obtain ⟨pair, block, hfirst⟩ := exists_firstOfGravest hpairs hblocked
    exact ⟨_, (mem_blocked_iff sort e).mpr ⟨symbol, hsymbol, pair, block, hfirst, rfl⟩, rfl⟩

variable (std : StdSort) (maxPositions : MaxPositions)

/-- In every state of every run the list is sorted, names no symbol twice and names exactly the
monitored symbols of which no pair has a route, each with the first pair of its gravest reason; and
unless a refresh is under way, no step signals a symbol on the list. -/
theorem blocked_symbols_not_signalled (switches : VenueSwitches)
    (startup : CoinMap (List NetworkFee)) (events : List RouteEvent) :
    let p := (RouteProgram.start switches startup).run std maxPositions events
    let blocked := p.engine.getTransferBlockedSymbols sort
    blocked.Pairwise (fun a b => a.symbol.text ≤ b.symbol.text) ∧
    (blocked.map (·.symbol)).Nodup ∧
    (∀ symbol, symbol ∈ blocked.map (·.symbol) ↔
      symbol ∈ p.engine.symbols.symbols ∧ p.engine.exchangePairs ≠ [] ∧
        ∀ pair ∈ p.engine.exchangePairs, p.engine.priceCache.isTransferRouteAvailable
          (pair.korean, pair.foreign, symbol.base) = false) ∧
    (∀ info ∈ blocked, ∃ pair block,
      FirstOfGravest p.engine.priceCache info.symbol p.engine.exchangePairs pair block ∧
        info = listedInfo p.engine.priceCache info.symbol p.engine.exchangePairs pair block) ∧
    (p.refreshing = false → ∀ event, ∀ em ∈ (p.step std maxPositions event).2,
      em.signal.symbol ∉ blocked.map (·.symbol)) := by
  intro p blocked
  have hlisted : ∀ symbol, symbol ∈ blocked.map (·.symbol) ↔
      symbol ∈ p.engine.symbols.symbols ∧ p.engine.exchangePairs ≠ [] ∧
        ∀ pair ∈ p.engine.exchangePairs, p.engine.priceCache.isTransferRouteAvailable
          (pair.korean, pair.foreign, symbol.base) = false :=
    fun symbol => List.mem_map.trans (listed_iff sort p.engine)
  refine ⟨sort.sorted _, nodup_blocked sort p.engine, hlisted, ?_, ?_⟩
  · intro info hinfo
    obtain ⟨symbol, -, pair, block, hfirst, rfl⟩ := (mem_blocked_iff sort p.engine).mp hinfo
    exact ⟨pair, block, hfirst, rfl⟩
  · intro hidle event em hem hblocked
    obtain ⟨-, -, hclosed⟩ := (hlisted em.signal.symbol).mp hblocked
    obtain ⟨hlive, pair, hpair, hkorean, hforeign⟩ := route_of_signal std maxPositions switches
      startup events event em hem
    have havailable := hlive.resolve_right fun hbusy => by
      rw [hidle] at hbusy
      exact Bool.false_ne_true hbusy.1
    have hnot := hclosed pair hpair
    rw [hkorean, hforeign] at hnot
    exact Bool.false_ne_true (hnot.symm.trans havailable)

/-- Bithumb's answer leaves BBB out: AAA is open, and BBB has no entry of its own. -/
example : ((((RouteProgram.start bithumbAndBybit ∅).run .insertion .initial
    (refreshedRun ++ [.engineOp (.addSymbol (.of "BBB" "KRW"))])).engine.getTransferBlockedSymbols
      .insertion).map fun info => (info.symbol, info.reason)) =
    [(.of "BBB" "KRW", "route data missing")] := by decide +kernel

end Blocked

end SpotRelay.Analysis
