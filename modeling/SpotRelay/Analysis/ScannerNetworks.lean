import SpotRelay.Analysis.TransferRoutes
import SpotRelay.Model.SpotRelayScanner

/-!
# The scanner's networks and the trading filter

Scanner and price cache look for a network that both venues name, the scanner under the letters and
digits of a name alone and the cache under its canonical form.  They part where a coin shares a
network through an alias only, or through names without a letter or digit, which the scanner drops.

* **the scanner** finds a network exactly where both venues name one in plain sight
  (`transferReady_iff`, `intersectNetworks_ne_nil_iff`).
* **the cache** that was told the same networks opens the route exactly where they share one
  canonically (`fed_available_iff`).
-/

set_option autoImplicit false

namespace SpotRelay.Analysis

open SpotRelay.Model

open SpotRelayScanner (NetworkItem ChainItem sortUnique intersectNetworks parseBybitChains
  parseWithdrawableNetworks withdrawableNames)

/-- The names of the chains with deposits enabled; a chain without one is called nothing. -/
def depositNames (chains : List ChainItem) : List String :=
  (chains.filter fun item => item.chainDeposit.getD false).map fun item => item.name.getD ""

/-- Some withdrawable network and some deposit chain have one canonical name. -/
def CanonicallyShared (items : List NetworkItem) (chains : List ChainItem) : Prop :=
  ∃ a ∈ withdrawableNames items, ∃ b ∈ depositNames chains, normalizeChain a = normalizeChain b

/-- Some withdrawable network and some deposit chain have the same letters and digits. -/
def PlainlyShared (items : List NetworkItem) (chains : List ChainItem) : Prop :=
  ∃ a ∈ withdrawableNames items, ∃ b ∈ depositNames chains,
    plainName a = plainName b ∧ plainName b ≠ ""

/-- What the price cache is told of the networks of a coin. -/
def feedNetworks (coin : List Char) (fees : List NetworkFee) (chains : List ChainItem) :
    List TransferCall :=
  [.setWithdrawNetworkFees .bithumb coin fees,
    .setForeignDepositNetworks .bybit coin (depositNames chains).toFinset,
    .setKoreanWithdrawEnabled .bithumb coin true]

variable {items : List NetworkItem} {chains : List ChainItem}

/-- Sorting and dropping duplicates keeps the names. -/
theorem mem_sortUnique {names : List String} {name : String} :
    name ∈ sortUnique names ↔ name ∈ names := by
  rw [sortUnique, List.mem_dedup, List.mem_mergeSort]

/-- The scanner's names of the deposit chains are the plain ones that are not empty. -/
theorem mem_depositChains {name : String} :
    (∃ info ∈ parseBybitChains chains, info.depositEnabled = true ∧ info.chain = name) ↔
      name ≠ "" ∧ ∃ b ∈ depositNames chains, plainName b = name := by
  have hname : ∀ item : ChainItem,
      (item.name.map SpotRelayScanner.normalizeChain).getD "" = plainName (item.name.getD "") := by
    intro item
    cases item.name with
    | none => decide
    | some raw => rfl
  simp only [parseBybitChains, depositNames, List.mem_filter, List.mem_map, hname]
  constructor
  · rintro ⟨_, ⟨⟨item, hitem, rfl⟩, hnonempty⟩, hdeposit, rfl⟩
    exact ⟨by simpa using hnonempty, _, ⟨item, ⟨hitem, hdeposit⟩, rfl⟩, rfl⟩
  · rintro ⟨hnonempty, _, ⟨item, ⟨hitem, hdeposit⟩, rfl⟩, rfl⟩
    exact ⟨_, ⟨⟨item, hitem, rfl⟩, by simpa using hnonempty⟩, hdeposit, rfl⟩

/-- The scanner finds a common network where both venues list one in plain sight. -/
theorem intersectNetworks_ne_nil_iff :
    intersectNetworks (parseWithdrawableNetworks items) (parseBybitChains chains) ≠ [] ↔
      PlainlyShared items chains := by
  constructor
  · intro hne
    obtain ⟨_, hmem⟩ := List.exists_mem_of_ne_nil _ hne
    rw [intersectNetworks, mem_sortUnique, List.mem_filter, decide_eq_true_eq] at hmem
    obtain ⟨a, ha, rfl⟩ := List.mem_map.mp (mem_sortUnique.mp hmem.1)
    obtain ⟨info, hinfo, hchain⟩ := List.mem_map.mp hmem.2
    obtain ⟨hinfo, hdeposit⟩ := List.mem_filter.mp hinfo
    obtain ⟨hnonempty, b, hb, hplain⟩ := mem_depositChains.mp ⟨info, hinfo, hdeposit, hchain⟩
    exact ⟨a, ha, b, hb, hplain.symm, by rwa [hplain]⟩
  · rintro ⟨a, ha, b, hb, hplain, hnonempty⟩
    obtain ⟨info, hinfo, hdeposit, hchain⟩ := mem_depositChains.mpr ⟨hnonempty, b, hb, rfl⟩
    apply List.ne_nil_of_mem (a := plainName a)
    rw [intersectNetworks, mem_sortUnique, List.mem_filter, decide_eq_true_eq]
    refine ⟨mem_sortUnique.mpr (List.mem_map.mpr ⟨a, ha, rfl⟩), ?_⟩
    rw [hplain, ← hchain]
    exact List.mem_map.mpr ⟨info, List.mem_filter.mpr ⟨hinfo, hdeposit⟩, rfl⟩

/-- With withdrawals enabled, a candidate is ready exactly if the intersection is not empty. -/
theorem transferReady_iff (items : List NetworkItem) (chains : List ChainItem) :
    (SpotRelayCandidate.ofChains true items chains).transferReady = true ↔
      intersectNetworks (parseWithdrawableNetworks items) (parseBybitChains chains) ≠ [] := by
  simp only [SpotRelayCandidate.transferReady, SpotRelayCandidate.ofChains, Bool.true_and,
    Bool.and_eq_true, Bool.not_eq_true', List.isEmpty_eq_false_iff, and_iff_right_iff_imp]
  intro hshared
  obtain ⟨a, _, b, hb, _, hnonempty⟩ := intersectNetworks_ne_nil_iff.mp hshared
  obtain ⟨info, hinfo, hdeposit, -⟩ := mem_depositChains.mpr ⟨hnonempty, b, hb, rfl⟩
  exact List.any_eq_true.mpr ⟨info, hinfo, hdeposit⟩

/-- The cache that was told the same networks, after whatever it was told before. -/
theorem fed_available_iff (c : PriceCache) (earlier : List TransferCall) (nowMs : UInt64)
    (coin : List Char) (chains : List ChainItem) {fees : List NetworkFee}
    (hnames : fees.map NetworkFee.network = withdrawableNames items)
    (hfees : ∀ nf ∈ fees, nf.feeCoins < doubleMax) :
    (c.publishTransfers (runTransferCalls (earlier ++ feedNetworks coin fees chains)) nowMs
      ).isTransferRouteAvailable (.bithumb, .bybit, coin) = true ↔
      CanonicallyShared items chains := by
  have hlatestFees : latestFees .bithumb coin (earlier ++ feedNetworks coin fees chains) =
      some fees := by
    simp [latestFees, feedNetworks, nextFees, List.foldl_append]
  have hlatestNets : latestNets .bybit coin (earlier ++ feedNetworks coin fees chains) =
      some (depositNames chains).toFinset := by
    simp [latestNets, feedNetworks, nextNets, List.foldl_append]
  have hlatestEnabled : latestEnabled .bithumb coin (earlier ++ feedNetworks coin fees chains) =
      some true := by
    simp [latestEnabled, feedNetworks, nextEnabled, List.foldl_append]
  have hbelow : ∀ latest, latestFees .bithumb coin (earlier ++ feedNetworks coin fees chains) =
      some latest → ∀ nf ∈ latest, nf.feeCoins < doubleMax := by
    rw [hlatestFees]
    rintro _ ⟨⟩
    exact hfees
  have hroute := (published_route .bithumb .bybit coin c nowMs hbelow).1
  refine hroute.trans ?_
  rw [hlatestEnabled, latestSharedFees, hlatestFees, hlatestNets]
  constructor
  · rintro ⟨⟨_, nf, hnf, hnet, _⟩, _⟩
    obtain ⟨b, hb, heq⟩ := Finset.mem_image.mp hnet
    refine ⟨nf.network, ?_, b, List.mem_toFinset.mp hb, heq.symm⟩
    rw [← hnames]
    exact List.mem_map.mpr ⟨nf, hnf, rfl⟩
  · rintro ⟨a, ha, b, hb, heq⟩
    rw [← hnames] at ha
    obtain ⟨nf, hnf, rfl⟩ := List.mem_map.mp ha
    refine ⟨⟨_, nf, hnf, ?_, rfl⟩, by simp⟩
    rw [heq]
    exact Finset.mem_image_of_mem normalizeChain (List.mem_toFinset.mpr hb)

/-- Scanner and cache agree on a coin exactly if no alias, and no name without letters and digits,
is all that its venues share. -/
theorem scanner_agrees_iff (c : PriceCache) (earlier : List TransferCall) (nowMs : UInt64)
    (coin : List Char) (items : List NetworkItem) (chains : List ChainItem) (fees : List NetworkFee)
    (hnames : fees.map NetworkFee.network = withdrawableNames items)
    (hfees : ∀ nf ∈ fees, nf.feeCoins < doubleMax) :
    let published :=
      c.publishTransfers (runTransferCalls (earlier ++ feedNetworks coin fees chains)) nowMs
    let candidate := SpotRelayCandidate.ofChains true items chains
    ((candidate.sharedNetworks ≠ [] ↔
        published.isTransferRouteAvailable (.bithumb, .bybit, coin) = true) ∧
      (candidate.transferReady = true ↔
        published.isTransferRouteAvailable (.bithumb, .bybit, coin) = true)) ↔
      (CanonicallyShared items chains → PlainlyShared items chains) := by
  have hcache := fed_available_iff c earlier nowMs coin chains hnames hfees
  have hplain : PlainlyShared items chains → CanonicallyShared items chains := by
    rintro ⟨a, ha, b, hb, hsame, _⟩
    exact ⟨a, ha, b, hb, SameNetwork.normalizeChain_eq (.plain hsame)⟩
  have hshared : (intersectNetworks (parseWithdrawableNetworks items) (parseBybitChains chains) ≠ []
      ↔ CanonicallyShared items chains) ↔
        (CanonicallyShared items chains → PlainlyShared items chains) := by
    rw [intersectNetworks_ne_nil_iff]
    exact ⟨fun h => h.mpr, fun h => ⟨hplain, h⟩⟩
  intro published candidate
  rw [hcache, transferReady_iff]
  exact (and_self_iff).trans hshared

/-- Bithumb calls the network by its name, Bybit by its token. -/
def ethereumItems : List NetworkItem :=
  [{ netType := some "Ethereum", withdrawalStatus := some true }]

def ethChains : List ChainItem := [{ chain := some "ETH", chainDeposit := some true }]

def ethereumFees : List NetworkFee := [⟨"Ethereum", 0⟩]

/-- The sample's fees are below the sentinel. -/
theorem ethereumFees_below : ∀ nf ∈ ethereumFees, nf.feeCoins < doubleMax := by
  intro nf hnf
  rw [ethereumFees, List.mem_singleton] at hnf
  subst hnf
  exact mul_pos (by norm_num) (by positivity)

/-- A coin that both venues call by one name. -/
theorem scanner_agrees_iff_plain :
    let chains : List ChainItem := [{ chain := some "ethereum", chainDeposit := some true }]
    let published := PriceCache.empty.publishTransfers
      (runTransferCalls ([] ++ feedNetworks ['E'] ethereumFees chains)) 1
    (SpotRelayCandidate.ofChains true ethereumItems chains).transferReady = true ↔
      published.isTransferRouteAvailable (.bithumb, .bybit, ['E']) = true := by
  intro chains
  refine ((scanner_agrees_iff .empty [] 1 ['E'] ethereumItems chains ethereumFees (by decide)
    ethereumFees_below).mpr fun _ => ?_).2
  exact ⟨"Ethereum", by decide, "ethereum", by decide +kernel, by decide +kernel, by decide +kernel⟩

/-- The cache holds the route to be open, the scanner finds no shared network. -/
theorem scanner_misses_alias :
    let published := PriceCache.empty.publishTransfers
      (runTransferCalls (feedNetworks ['E'] ethereumFees ethChains)) 1
    let candidate := SpotRelayCandidate.ofChains true ethereumItems ethChains
    published.isTransferRouteAvailable (.bithumb, .bybit, ['E']) = true ∧
      candidate.sharedNetworks = [] ∧ candidate.transferReady = false := by
  decide +kernel

end SpotRelay.Analysis
