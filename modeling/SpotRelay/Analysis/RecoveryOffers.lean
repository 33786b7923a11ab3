import SpotRelay.Model.RecoveryScan

/-!
# What the start-up recovery offers

A coin is offered for each venue that lends it, with what Bithumb and the venue hold of it in
common; the saved position is offered as it is where the scan finds nothing of its symbol.

* **the candidates** are those that were found, with the saved entry where it is theirs
  (`mem_candidates_iff`), each once (`nodup_candidates`).
* **a live one** is offered with the amounts of its short (`LiveCandidate.offers`).
* **the order** in which they are offered is a total one (`InOrder.total`, `InOrder.trans`).
-/

set_option autoImplicit false

namespace SpotRelay.Analysis

open SpotRelay.Model SpotRelay.Library

/-! ## The largest short of a coin -/

section Shorts

variable {commonBases : List (List Char)} {byCoin : InsertionMap (List Char) ForeignShort}

/-- The shorts that the loop looks at. -/
structure LookedAt (commonBases : List (List Char)) (p : ForeignShort) : Prop where
  named : p.symbol.base ≠ []
  common : p.symbol.base ∈ commonBases
  amount : dust < p.foreignAmount

/-- The map has the largest short of each coin among those seen. -/
structure LargestShorts (commonBases : List (List Char)) (seen : List ForeignShort)
    (byCoin : InsertionMap (List Char) ForeignShort) : Prop where
  found : ∀ e ∈ byCoin.entries, e.2 ∈ seen ∧ e.2.symbol.base = e.1
  looked : ∀ e ∈ byCoin.entries, LookedAt commonBases e.2
  largest : ∀ p ∈ seen, LookedAt commonBases p →
    ∃ e ∈ byCoin.entries, e.1 = p.symbol.base ∧ p.foreignAmount ≤ e.2.foreignAmount

/-- A short that is not looked at is not kept. -/
theorem keepShort_of_not {p : ForeignShort} (h : ¬ LookedAt commonBases p) :
    keepShort commonBases byCoin p = byCoin := by
  unfold keepShort
  dsimp only
  split_ifs with hnamed hcommon hamount
  · rfl
  · rfl
  · exact absurd ⟨hnamed, hcommon, not_le.mp hamount⟩ h
  · rfl

/-- A short that is looked at is kept if it is the first or the largest of its coin. -/
theorem keepShort_of_looked {p : ForeignShort} (h : LookedAt commonBases p) :
    keepShort commonBases byCoin p =
      match byCoin.get? p.symbol.base with
      | none => byCoin.set p.symbol.base p
      | some kept =>
        if kept.foreignAmount < p.foreignAmount then byCoin.set p.symbol.base p else byCoin := by
  unfold keepShort
  dsimp only
  refine (if_neg h.named).trans ((if_neg (not_not.mpr h.common)).trans
    ((if_neg (not_le.mpr h.amount)).trans ?_))
  cases byCoin.get? p.symbol.base with
  | none => rfl
  | some kept => rfl

/-- The short takes the place of a smaller one of its coin. -/
theorem LargestShorts.set {seen : List ForeignShort} (hmap : LargestShorts commonBases seen byCoin)
    {p : ForeignShort} (h : LookedAt commonBases p)
    (hlargest : ∀ e ∈ byCoin.entries, e.1 = p.symbol.base → e.2.foreignAmount ≤ p.foreignAmount) :
    LargestShorts commonBases (seen ++ [p]) (byCoin.set p.symbol.base p) where
  found := by
    intro e he
    rcases InsertionMap.mem_set.mp he with rfl | ⟨he, -⟩
    · exact ⟨List.mem_append_right _ (List.mem_singleton_self p), rfl⟩
    · obtain ⟨hmem, hbase⟩ := hmap.found e he
      exact ⟨List.mem_append_left _ hmem, hbase⟩
  looked := by
    intro e he
    rcases InsertionMap.mem_set.mp he with rfl | ⟨he, -⟩
    · exact h
    · exact hmap.looked e he
  largest := by
    intro q hq hlooked
    have hnew : (p.symbol.base, p) ∈ (byCoin.set p.symbol.base p).entries :=
      InsertionMap.mem_set.mpr (.inl rfl)
    rcases List.mem_append.mp hq with hq | hq
    · obtain ⟨e, he, hkey, hle⟩ := hmap.largest q hq hlooked
      by_cases hsame : e.1 = p.symbol.base
      · exact ⟨_, hnew, hsame.symm.trans hkey, hle.trans (hlargest e he hsame)⟩
      · exact ⟨e, InsertionMap.mem_set.mpr (.inr ⟨he, hsame⟩), hkey, hle⟩
    · rw [List.mem_singleton.mp hq]
      exact ⟨_, hnew, rfl, le_rfl⟩

/-- The short is passed over. -/
theorem LargestShorts.skip {seen : List ForeignShort} (hmap : LargestShorts commonBases seen byCoin)
    {p : ForeignShort}
    (hlargest : LookedAt commonBases p →
      ∃ e ∈ byCoin.entries, e.1 = p.symbol.base ∧ p.foreignAmount ≤ e.2.foreignAmount) :
    LargestShorts commonBases (seen ++ [p]) byCoin where
  found := by
    intro e he
    obtain ⟨hmem, hbase⟩ := hmap.found e he
    exact ⟨List.mem_append_left _ hmem, hbase⟩
  looked := hmap.looked
  largest := by
    intro q hq hlooked
    rcases List.mem_append.mp hq with hq | hq
    · exact hmap.largest q hq hlooked
    · rw [List.mem_singleton.mp hq] at hlooked ⊢
      exact hlargest hlooked

/-- One more short leaves the largest of each coin. -/
theorem LargestShorts.keepShort {seen : List ForeignShort}
    (hmap : LargestShorts commonBases seen byCoin) (p : ForeignShort) :
    LargestShorts commonBases (seen ++ [p]) (keepShort commonBases byCoin p) := by
  by_cases h : LookedAt commonBases p
  · rw [keepShort_of_looked h]
    cases hget : byCoin.get? p.symbol.base with
    | none =>
      refine hmap.set h ?_
      intro e he hkey
      have hsome : byCoin.get? e.1 = some e.2 := InsertionMap.get?_eq_some_iff.mpr he
      rw [hkey, hget] at hsome
      cases hsome
    | some kept =>
      have hkept := InsertionMap.get?_eq_some_iff.mp hget
      dsimp only
      split_ifs with hmore
      · refine hmap.set h ?_
        intro e he hkey
        rw [InsertionMap.eq_of_key_eq he hkept hkey]
        exact hmore.le
      · exact hmap.skip fun _ => ⟨_, hkept, rfl, not_lt.mp hmore⟩
  · rw [keepShort_of_not h]
    exact hmap.skip fun hlooked => absurd hlooked h

/-- The scan keeps the largest short of each coin that it looks at. -/
theorem largestShorts_shortByCoin (commonBases : List (List Char)) (shorts : List ForeignShort) :
    LargestShorts commonBases shorts (shortByCoin commonBases shorts) := by
  unfold shortByCoin
  induction shorts using List.reverseRecOn with
  | nil =>
    constructor
    · intro e he
      cases he
    · intro e he
      cases he
    · intro p hp
      cases hp
  | append_singleton shorts p ih =>
    rw [List.foldl_append]
    exact ih.keepShort p

end Shorts

/-! ## The live candidates -/

/-- What Bithumb's client reads of a coin during the scan of a venue. -/
def spotBalanceRead (scan : RecoveryScan) (foreignEx : Exchange) (coin : List Char) : ℚ :=
  BithumbExchange.getBalance scan.std (scan.reads foreignEx coin).accounts coin

/-- The largest short of a coin that the bot trades, more than dust of which lies on Bithumb. -/
structure HeldShort (scan : RecoveryScan) (foreignEx : Exchange) (short : ForeignShort) : Prop where
  lent : short ∈ scan.shorts foreignEx
  looked : LookedAt scan.commonBases short
  largest : ∀ other ∈ scan.shorts foreignEx, other.symbol.base = short.symbol.base →
    other.foreignAmount ≤ short.foreignAmount
  balance : dust < spotBalanceRead scan foreignEx short.symbol.base

/-- What the scan makes of a short: the common amount on both sides, at a size that is what the
short is worth at its entry price. -/
structure LiveCandidate (scan : RecoveryScan) (foreignEx : Exchange) (short : ForeignShort)
    (c : RecoveryCandidate) : Prop where
  symbol : c.pos.symbol = .ofChars short.symbol.base "KRW".toList
  koreanExchange : c.pos.koreanExchange = .bithumb
  foreignExchange : c.pos.foreignExchange = foreignEx
  koreanAmount : c.pos.koreanAmount =
    min (spotBalanceRead scan foreignEx short.symbol.base) short.foreignAmount
  foreignAmount : c.pos.foreignAmount = c.pos.koreanAmount
  size : c.pos.positionSizeUsd = c.pos.foreignAmount * c.pos.foreignEntryPrice
  realizedPnlKrw : c.pos.realizedPnlKrw = 0
  isActive : c.pos.isActive = true
  fromSavedFile : c.fromSavedFile = false

/-- The price taken from a quote is not negative. -/
theorem sideOrLast_nonneg (price : PriceData) (side : ℚ) : 0 ≤ sideOrLast price side := by
  unfold sideOrLast
  split_ifs with _ hside hlast
  · exact hside.le
  · exact hlast.le
  · exact le_rfl
  · exact le_rfl

/-- The entry price of a candidate is not negative. -/
theorem entryPrice_nonneg (entryPrice : ℚ) (price : PriceData) (side : ℚ) :
    0 ≤ (if 0 < entryPrice then entryPrice else sideOrLast price side) := by
  split_ifs with hentry
  · exact hentry.le
  · exact sideOrLast_nonneg price side

/-- A short yields no candidate exactly where a balance is no more than dust. -/
theorem scanForeignShort_eq_none_iff (std : BalanceSort) (foreignEx : Exchange) (coin : List Char)
    (short : ForeignShort) (reads : CoinReads) :
    scanForeignShort std foreignEx coin short reads = none ↔
      BithumbExchange.getBalance std reads.accounts coin ≤ dust ∨ short.foreignAmount ≤ dust := by
  unfold scanForeignShort
  dsimp only
  split_ifs with hdust
  · exact iff_of_true rfl hdust
  · exact iff_of_false (by simp) hdust

/-- What a short yields is a live candidate of it. -/
theorem scanForeignShort_some {scan : RecoveryScan} {foreignEx : Exchange} {short : ForeignShort}
    {c : RecoveryCandidate}
    (h : scanForeignShort scan.std foreignEx short.symbol.base short
      (scan.reads foreignEx short.symbol.base) = some c) :
    LiveCandidate scan foreignEx short c := by
  have hdust := (scanForeignShort_eq_none_iff scan.std foreignEx short.symbol.base short
    (scan.reads foreignEx short.symbol.base)).not.mp (by rw [h]; exact Option.some_ne_none c)
  unfold scanForeignShort at h
  dsimp only at h
  rw [if_neg hdust] at h
  obtain rfl := Option.some.inj h
  refine ⟨rfl, rfl, rfl, rfl, rfl, ?_, rfl, rfl, rfl⟩
  dsimp only
  congr 1
  exact ite_eq_left_iff.mpr fun hnot => le_antisymm (entryPrice_nonneg _ _ _) (not_lt.mp hnot)

/-- A venue's candidates are its held shorts. -/
theorem mem_scanForeignShorts {scan : RecoveryScan} {foreignEx : Exchange}
    {c : RecoveryCandidate} (h : c ∈ scan.scanForeignShorts foreignEx) :
    ∃ short, HeldShort scan foreignEx short ∧ LiveCandidate scan foreignEx short c := by
  have hmap := largestShorts_shortByCoin scan.commonBases (scan.shorts foreignEx)
  obtain ⟨⟨coin, short⟩, hwalk, hsome⟩ := List.mem_filterMap.mp h
  have he := (scan.hash.perm _).mem_iff.mp hwalk
  obtain ⟨hlent, hbase⟩ := hmap.found _ he
  have hlooked := hmap.looked _ he
  dsimp only at hlent hbase hlooked hsome
  subst hbase
  have hnone := (scanForeignShort_eq_none_iff scan.std foreignEx short.symbol.base short
    (scan.reads foreignEx short.symbol.base)).not.mp (by rw [hsome]; exact Option.some_ne_none c)
  refine ⟨short, ⟨hlent, hlooked, ?_, ?_⟩, scanForeignShort_some hsome⟩
  · intro other hother hbase
    by_cases hdust : other.foreignAmount ≤ dust
    · exact hdust.trans hlooked.amount.le
    · have hother' : LookedAt scan.commonBases other :=
        ⟨hbase ▸ hlooked.named, hbase ▸ hlooked.common, not_le.mp hdust⟩
      obtain ⟨e, he', hkey, hle⟩ := hmap.largest other hother hother'
      rw [InsertionMap.eq_of_key_eq he' he (hkey.trans hbase)] at hle
      exact hle
  · exact not_le.mp fun hle => hnone (.inl hle)

/-- A held short is among its venue's candidates, with an equal one of its coin. -/
theorem exists_of_heldShort {scan : RecoveryScan} {foreignEx : Exchange} {short : ForeignShort}
    (h : HeldShort scan foreignEx short) :
    ∃ c ∈ scan.scanForeignShorts foreignEx, LiveCandidate scan foreignEx short c := by
  have hmap := largestShorts_shortByCoin scan.commonBases (scan.shorts foreignEx)
  obtain ⟨⟨coin, kept⟩, he, hkey, hle⟩ := hmap.largest short h.lent h.looked
  obtain ⟨hlent, hbase⟩ := hmap.found _ he
  dsimp only at hkey hle hlent hbase
  subst hkey
  have hamount : kept.foreignAmount = short.foreignAmount :=
    le_antisymm (h.largest kept hlent hbase) hle
  cases hscan : scanForeignShort scan.std foreignEx short.symbol.base kept
      (scan.reads foreignEx short.symbol.base) with
  | none =>
    rcases (scanForeignShort_eq_none_iff ..).mp hscan with hdust | hdust
    · exact absurd h.balance (not_lt.mpr hdust)
    · exact absurd h.looked.amount (not_lt.mpr (hamount ▸ hdust))
  | some c =>
    refine ⟨c, List.mem_filterMap.mpr ⟨_, (scan.hash.perm _).mem_iff.mpr he, hscan⟩, ?_⟩
    rw [← hbase] at hscan
    have hlive := scanForeignShort_some hscan
    constructor
    · rw [hlive.symbol, hbase]
    · exact hlive.koreanExchange
    · exact hlive.foreignExchange
    · rw [hlive.koreanAmount, hbase, hamount]
    · exact hlive.foreignAmount
    · exact hlive.size
    · exact hlive.realizedPnlKrw
    · exact hlive.isActive
    · exact hlive.fromSavedFile

/-! ## The list of candidates -/

/-- Where a candidate stands. -/
def venueAndSymbol (c : RecoveryCandidate) : Exchange × SymbolId :=
  (c.pos.foreignExchange, c.pos.symbol)

/-- The saved entry changes neither the venue nor the symbol. -/
@[simp] theorem venueAndSymbol_restoreEntry (saved : Option Position) (c : RecoveryCandidate) :
    venueAndSymbol (restoreEntry saved c) = venueAndSymbol c := by
  unfold restoreEntry
  split
  · rfl
  · split <;> rfl

/-- Coins that fit their array have different symbols. -/
theorem ofChars_krw_injective {coin coin' : List Char} (hcoin : coin.length ≤ 11)
    (hcoin' : coin'.length ≤ 11)
    (h : SymbolId.ofChars coin "KRW".toList = .ofChars coin' "KRW".toList) : coin = coin' := by
  have hbase := congrArg SymbolId.base h
  simp only [SymbolId.ofChars] at hbase
  rwa [List.take_of_length_le hcoin, List.take_of_length_le hcoin'] at hbase

/-- A venue's candidates have different symbols. -/
theorem nodup_scanForeignShorts (scan : RecoveryScan) (foreignEx : Exchange) :
    ((scan.scanForeignShorts foreignEx).map venueAndSymbol).Nodup := by
  have hmap := largestShorts_shortByCoin scan.commonBases (scan.shorts foreignEx)
  have hkeys : (scan.hash.walk
      (shortByCoin scan.commonBases (scan.shorts foreignEx)).entries).Pairwise
      fun e f => e.1 ≠ f.1 := by
    refine List.pairwise_map.mp ?_
    exact ((scan.hash.perm _).map Prod.fst).nodup_iff.mpr (shortByCoin ..).nodup
  have hlive : ∀ e ∈ scan.hash.walk
      (shortByCoin scan.commonBases (scan.shorts foreignEx)).entries,
      ∀ c, scanForeignShort scan.std foreignEx e.1 e.2 (scan.reads foreignEx e.1) = some c →
        c.pos.symbol = .ofChars e.1 "KRW".toList ∧ e.1.length ≤ 11 := by
    intro e he c hc
    obtain ⟨-, hbase⟩ := hmap.found e ((scan.hash.perm _).mem_iff.mp he)
    rw [← hbase] at hc ⊢
    exact ⟨(scanForeignShort_some hc).symbol, e.2.symbol.base_length_le⟩
  unfold RecoveryScan.scanForeignShorts
  rw [List.Nodup, List.pairwise_map, List.pairwise_filterMap]
  refine hkeys.imp_of_mem ?_
  intro e f he hf hne c hc c' hc' hsame
  obtain ⟨hsymbol, hlength⟩ := hlive e he c hc
  obtain ⟨hsymbol', hlength'⟩ := hlive f hf c' hc'
  refine hne (ofChars_krw_injective hlength hlength' ?_)
  rw [← hsymbol, ← hsymbol']
  exact congrArg Prod.snd hsame

/-- The candidates of the two scans. -/
def liveCandidates (scan : RecoveryScan) : List RecoveryCandidate :=
  scan.scanForeignShorts .bybit ++ scan.scanForeignShorts .okx

/-- A live candidate is that of a short that is held. -/
theorem mem_liveCandidates {scan : RecoveryScan} {c : RecoveryCandidate}
    (h : c ∈ liveCandidates scan) :
    ∃ foreignEx short, HeldShort scan foreignEx short ∧ LiveCandidate scan foreignEx short c := by
  rcases List.mem_append.mp h with hc | hc
  · exact ⟨.bybit, mem_scanForeignShorts hc⟩
  · exact ⟨.okx, mem_scanForeignShorts hc⟩

/-- A short that is held has a live candidate. -/
theorem exists_live_of_heldShort {scan : RecoveryScan} {foreignEx : Exchange}
    {short : ForeignShort} (h : HeldShort scan foreignEx short) :
    ∃ c ∈ liveCandidates scan, LiveCandidate scan foreignEx short c := by
  obtain ⟨c, hc, hlive⟩ := exists_of_heldShort h
  refine ⟨c, ?_, hlive⟩
  cases foreignEx with
  | bybit => exact List.mem_append_left _ hc
  | okx => exact List.mem_append_right _ hc
  | bithumb => exact absurd h.lent List.not_mem_nil
  | upbit => exact absurd h.lent List.not_mem_nil

/-- A venue and a symbol have one live candidate. -/
theorem nodup_liveCandidates (scan : RecoveryScan) :
    ((liveCandidates scan).map venueAndSymbol).Nodup := by
  unfold liveCandidates
  rw [List.map_append, List.nodup_append]
  refine ⟨nodup_scanForeignShorts scan .bybit, nodup_scanForeignShorts scan .okx, ?_⟩
  intro key hkey key' hkey' hsame
  obtain ⟨c, hc, rfl⟩ := List.mem_map.mp hkey
  obtain ⟨c', hc', rfl⟩ := List.mem_map.mp hkey'
  obtain ⟨short, -, hlive⟩ := mem_scanForeignShorts hc
  obtain ⟨short', -, hlive'⟩ := mem_scanForeignShorts hc'
  have hvenue : c.pos.foreignExchange = c'.pos.foreignExchange := congrArg Prod.fst hsame
  rw [hlive.foreignExchange, hlive'.foreignExchange] at hvenue
  cases hvenue

/-- The saved position is added, or a live candidate has its symbol. -/
theorem mem_addSaved {candidates : List RecoveryCandidate} {loaded : Option Position}
    {c : RecoveryCandidate} :
    c ∈ addSaved candidates loaded ↔ c ∈ candidates ∨
      ∃ pos ∈ loaded, c = savedCandidate pos ∧
        ∀ live ∈ candidates, live.pos.symbol ≠ pos.symbol := by
  cases loaded with
  | none => simp [addSaved]
  | some pos =>
    simp only [addSaved, List.any_eq_true, decide_eq_true_eq, Option.mem_some_iff,
      exists_eq_left']
    split_ifs with hpresent
    · obtain ⟨live, hlive, hsymbol⟩ := hpresent
      exact (or_iff_left fun h => h.2 live hlive hsymbol).symm
    · rw [List.mem_append, List.mem_singleton]
      refine or_congr_right (iff_self_and.mpr fun _ live hlive hsymbol => ?_)
      exact hpresent ⟨live, hlive, hsymbol⟩

/-- The candidates are those that were found, with the saved entry where it is theirs. -/
theorem mem_candidates_iff {scan : RecoveryScan} {c : RecoveryCandidate} :
    c ∈ scan.candidates ↔
      ∃ offered ∈ addSaved (liveCandidates scan) scan.loaded,
        restoreEntry scan.loaded offered = c := by
  unfold RecoveryScan.candidates
  rw [(scan.sort.perm _).mem_iff, List.mem_map]
  rfl

/-- No position is offered twice. -/
theorem nodup_candidates (scan : RecoveryScan) :
    (scan.candidates.map venueAndSymbol).Nodup := by
  unfold RecoveryScan.candidates
  rw [((scan.sort.perm _).map venueAndSymbol).nodup_iff, List.map_map]
  have hsame : venueAndSymbol ∘ restoreEntry scan.loaded = venueAndSymbol :=
    funext fun c => venueAndSymbol_restoreEntry scan.loaded c
  rw [hsame]
  change ((addSaved (liveCandidates scan) scan.loaded).map venueAndSymbol).Nodup
  cases scan.loaded with
  | none => exact nodup_liveCandidates scan
  | some loaded =>
    simp only [addSaved, List.any_eq_true, decide_eq_true_eq]
    split_ifs with hpresent
    · exact nodup_liveCandidates scan
    · rw [List.map_append, List.nodup_append]
      refine ⟨nodup_liveCandidates scan, List.nodup_singleton _, ?_⟩
      intro key hkey key' hkey' hsame
      obtain ⟨live, hlive, rfl⟩ := List.mem_map.mp hkey
      rw [List.map_singleton, List.mem_singleton] at hkey'
      rw [hkey'] at hsame
      exact hpresent ⟨live, hlive, congrArg Prod.snd hsame⟩

/-! ## The result -/

/-- What is offered for a held short: the amount that both venues cover, with the saved entry if its
symbol is the saved one. -/
structure OffersShort (scan : RecoveryScan) (foreignEx : Exchange) (short : ForeignShort)
    (c : RecoveryCandidate) : Prop where
  symbol : c.pos.symbol = .ofChars short.symbol.base "KRW".toList
  koreanExchange : c.pos.koreanExchange = .bithumb
  foreignExchange : c.pos.foreignExchange = foreignEx
  koreanAmount : c.pos.koreanAmount =
    min (spotBalanceRead scan foreignEx short.symbol.base) short.foreignAmount
  foreignAmount : c.pos.foreignAmount = c.pos.koreanAmount
  isActive : c.pos.isActive = true
  resumed : ∀ loaded ∈ scan.loaded, c.pos.symbol.text = loaded.symbol.text →
    c.fromSavedFile = true ∧ c.pos.entryTime = loaded.entryTime ∧
      c.pos.entryPremium = loaded.entryPremium ∧
      c.pos.koreanEntryPrice = loaded.koreanEntryPrice ∧
      c.pos.foreignEntryPrice = loaded.foreignEntryPrice ∧
      c.pos.positionSizeUsd = loaded.positionSizeUsd ∧
      c.pos.realizedPnlKrw = loaded.realizedPnlKrw
  fresh : (∀ loaded ∈ scan.loaded, c.pos.symbol.text ≠ loaded.symbol.text) →
    c.fromSavedFile = false ∧ c.pos.realizedPnlKrw = 0 ∧
      c.pos.positionSizeUsd = c.pos.foreignAmount * c.pos.foreignEntryPrice

/-- The saved position, of which the scan has found nothing. -/
structure OffersSaved (scan : RecoveryScan) (c : RecoveryCandidate) : Prop where
  loaded : scan.loaded = some c.pos
  fromSavedFile : c.fromSavedFile = true
  unheld : ∀ foreignEx short, HeldShort scan foreignEx short →
    .ofChars short.symbol.base "KRW".toList ≠ c.pos.symbol

/-- `b` is not offered before `a`. -/
structure InOrder (a b : RecoveryCandidate) : Prop where
  saved : b.fromSavedFile = true → a.fromSavedFile = true
  worth : a.fromSavedFile = b.fromSavedFile → b.matchedUsd ≤ a.matchedUsd
  premium : a.fromSavedFile = b.fromSavedFile → a.matchedUsd = b.matchedUsd →
    a.pos.entryPremium ≤ b.pos.entryPremium

/-- A live candidate is offered with the amounts of its short, and with the saved entry where it is
its own. -/
theorem LiveCandidate.offers {scan : RecoveryScan} {foreignEx : Exchange} {short : ForeignShort}
    {live : RecoveryCandidate} (h : LiveCandidate scan foreignEx short live) :
    OffersShort scan foreignEx short (restoreEntry scan.loaded live) := by
  unfold restoreEntry
  cases hsaved : scan.loaded with
  | none =>
    refine ⟨h.symbol, h.koreanExchange, h.foreignExchange, h.koreanAmount, h.foreignAmount,
      h.isActive, ?_, fun _ => ⟨h.fromSavedFile, h.realizedPnlKrw, h.size⟩⟩
    intro loaded hloaded
    rw [hsaved] at hloaded
    cases hloaded
  | some loaded =>
    dsimp only
    split
    · next htext =>
      refine ⟨h.symbol, h.koreanExchange, h.foreignExchange, h.koreanAmount, h.foreignAmount,
        h.isActive, ?_, fun hother => absurd htext (hother loaded hsaved)⟩
      intro loaded' hloaded' _
      obtain rfl := Option.some.inj (hsaved.symm.trans hloaded')
      exact ⟨rfl, rfl, rfl, rfl, rfl, rfl, rfl⟩
    · next htext =>
      refine ⟨h.symbol, h.koreanExchange, h.foreignExchange, h.koreanAmount, h.foreignAmount,
        h.isActive, ?_, fun _ => ⟨h.fromSavedFile, h.realizedPnlKrw, h.size⟩⟩
      intro loaded' hloaded' htext'
      obtain rfl := Option.some.inj (hsaved.symm.trans hloaded')
      exact absurd htext' htext

/-- The order of the list, read off its comparator. -/
theorem not_before_iff (a b : RecoveryCandidate) :
    recoveryBefore b a = false ↔ InOrder a b := by
  unfold recoveryBefore
  split_ifs with hsaved hworth
  · constructor
    · intro hb
      refine ⟨fun htrue => ?_, fun hsame => absurd hsame.symm hsaved,
        fun hsame => absurd hsame.symm hsaved⟩
      rw [htrue] at hb
      cases hb
    · intro h
      by_contra hb
      rw [Bool.not_eq_false] at hb
      exact hsaved (hb.trans (h.saved hb).symm)
  · rw [not_not] at hsaved
    rw [decide_eq_false_iff_not, not_lt]
    constructor
    · exact fun h =>
        ⟨fun hb => hsaved.symm.trans hb, fun _ => h, fun _ hsame => absurd hsame.symm hworth⟩
    · exact fun h => h.worth hsaved.symm
  · rw [not_not] at hsaved hworth
    rw [decide_eq_false_iff_not, not_lt]
    constructor
    · exact fun h => ⟨fun hb => hsaved.symm.trans hb, fun _ => hworth.le, fun _ _ => h⟩
    · exact fun h => h.premium hsaved.symm hworth.symm

/-- Any two candidates are in order one way or the other. -/
theorem InOrder.total (a b : RecoveryCandidate) : InOrder a b ∨ InOrder b a := by
  by_cases hsaved : a.fromSavedFile = b.fromSavedFile
  · rcases lt_trichotomy a.matchedUsd b.matchedUsd with hlt | heq | hgt
    · exact .inr ⟨fun ha => hsaved.symm.trans ha, fun _ => hlt.le,
        fun _ hsame => absurd hsame hlt.ne'⟩
    · rcases le_total a.pos.entryPremium b.pos.entryPremium with hle | hle
      · exact .inl ⟨fun hb => hsaved.trans hb, fun _ => heq.ge, fun _ _ => hle⟩
      · exact .inr ⟨fun ha => hsaved.symm.trans ha, fun _ => heq.le, fun _ _ => hle⟩
    · exact .inl ⟨fun hb => hsaved.trans hb, fun _ => hgt.le, fun _ hsame => absurd hsame hgt.ne'⟩
  · cases ha : a.fromSavedFile with
    | true =>
      exact .inl ⟨fun _ => ha, fun hsame => absurd hsame hsaved,
        fun hsame => absurd hsame hsaved⟩
    | false =>
      have hb : b.fromSavedFile = true := by
        rw [ha] at hsaved
        exact Bool.of_not_eq_false (Ne.symm hsaved)
      exact .inr ⟨fun _ => hb, fun hsame => absurd hsame.symm hsaved,
        fun hsame => absurd hsame.symm hsaved⟩

/-- The order of candidates is transitive. -/
theorem InOrder.trans {a b c : RecoveryCandidate} (hab : InOrder a b) (hbc : InOrder b c) :
    InOrder a c := by
  have hbetween : a.fromSavedFile = c.fromSavedFile →
      a.fromSavedFile = b.fromSavedFile ∧ b.fromSavedFile = c.fromSavedFile := by
    intro hac
    have hsame : b.fromSavedFile = c.fromSavedFile := by
      rw [Bool.eq_iff_iff]
      exact ⟨fun hb => hac ▸ hab.saved hb, hbc.saved⟩
    exact ⟨hac.trans hsame.symm, hsame⟩
  refine ⟨fun hc => hab.saved (hbc.saved hc), ?_, ?_⟩
  · intro hac
    obtain ⟨hab', hbc'⟩ := hbetween hac
    exact (hbc.worth hbc').trans (hab.worth hab')
  · intro hac hworth
    obtain ⟨hab', hbc'⟩ := hbetween hac
    have hb : a.matchedUsd = b.matchedUsd :=
      le_antisymm (hworth.le.trans (hbc.worth hbc')) (hab.worth hab')
    exact (hab.premium hab' hb).trans (hbc.premium hbc' (hb.symm.trans hworth))

/-- The order is one that a sort can follow. -/
def insertionCandidates : CandidateSort where
  sort := fun cs => cs.insertionSort fun a b => recoveryBefore b a = false
  perm := fun cs => cs.perm_insertionSort _
  sorted := fun cs => by
    have : Std.Total fun a b : RecoveryCandidate => recoveryBefore b a = false :=
      ⟨fun a b => (InOrder.total a b).imp (not_before_iff a b).mpr (not_before_iff b a).mpr⟩
    have : IsTrans RecoveryCandidate fun a b => recoveryBefore b a = false :=
      ⟨fun a b c hab hbc => (not_before_iff a c).mpr
        (((not_before_iff a b).mp hab).trans ((not_before_iff b c).mp hbc))⟩
    exact cs.pairwise_insertionSort _

/-- A candidate is that of a short that is held, or the saved one. -/
theorem offers_of_mem_candidates {scan : RecoveryScan} {c : RecoveryCandidate}
    (hc : c ∈ scan.candidates) :
    (∃ foreignEx short, HeldShort scan foreignEx short ∧ OffersShort scan foreignEx short c) ∨
      OffersSaved scan c := by
  obtain ⟨offered, hoffered, rfl⟩ := mem_candidates_iff.mp hc
  rcases mem_addSaved.mp hoffered with hlive | ⟨loaded, hloaded, rfl, hnone⟩
  · obtain ⟨foreignEx, short, hheld, hlive⟩ := mem_liveCandidates hlive
    exact .inl ⟨foreignEx, short, hheld, hlive.offers⟩
  · refine .inr ?_
    have hrestored : restoreEntry scan.loaded (savedCandidate loaded) =
        savedCandidate loaded := by
      rw [Option.mem_def.mp hloaded]
      exact if_pos rfl
    rw [hrestored]
    refine ⟨hloaded, rfl, ?_⟩
    intro foreignEx short hheld hsymbol
    obtain ⟨live, hmem, hlive⟩ := exists_live_of_heldShort hheld
    exact hnone live hmem (hlive.symbol.trans hsymbol)

/-- Whatever the venues answer, however the maps are walked and whichever sort is used: the
candidates are the held shorts, each hedged with what both venues cover, and the saved position if
the scan finds nothing of its symbol; each is offered once, the bot's own first and then the ones
that are worth more. -/
theorem recovery_offers (scan : RecoveryScan) :
    (∀ c ∈ scan.candidates,
      (∃ foreignEx short, HeldShort scan foreignEx short ∧ OffersShort scan foreignEx short c) ∨
        OffersSaved scan c) ∧
      (∀ foreignEx short, HeldShort scan foreignEx short →
        ∃ c ∈ scan.candidates, OffersShort scan foreignEx short c) ∧
      (∀ loaded ∈ scan.loaded, ∃ c ∈ scan.candidates, c.pos.symbol = loaded.symbol) ∧
      (scan.candidates.map fun c => (c.pos.foreignExchange, c.pos.symbol)).Nodup ∧
      scan.candidates.Pairwise InOrder := by
  refine ⟨?_, ?_, ?_, nodup_candidates scan, ?_⟩
  · exact fun c hc => offers_of_mem_candidates hc
  · intro foreignEx short hheld
    obtain ⟨live, hmem, hlive⟩ := exists_live_of_heldShort hheld
    exact ⟨_, mem_candidates_iff.mpr ⟨live, mem_addSaved.mpr (.inl hmem), rfl⟩, hlive.offers⟩
  · intro loaded hloaded
    by_cases hpresent : ∃ live ∈ liveCandidates scan, live.pos.symbol = loaded.symbol
    · obtain ⟨live, hmem, hsymbol⟩ := hpresent
      refine ⟨_, mem_candidates_iff.mpr ⟨live, mem_addSaved.mpr (.inl hmem), rfl⟩, ?_⟩
      exact (congrArg Prod.snd (venueAndSymbol_restoreEntry scan.loaded live)).trans hsymbol
    · refine ⟨_, mem_candidates_iff.mpr ⟨savedCandidate loaded, mem_addSaved.mpr (.inr
        ⟨loaded, hloaded, rfl, fun live hmem hsymbol => hpresent ⟨live, hmem, hsymbol⟩⟩), rfl⟩, ?_⟩
      exact congrArg Prod.snd (venueAndSymbol_restoreEntry scan.loaded (savedCandidate loaded))
  · exact (scan.sort.sorted _).imp fun h => (not_before_iff _ _).mp h

end SpotRelay.Analysis
