import Mathlib
import SpotRelay.Model.TransferRoutes

/-!
# What the finalised transfer routes say

Of all the calls that fed the tables, the latest that bears on a venue and a coin decides.  A route
is open exactly if the two venues then share a network under its canonical name and the withdrawal
is not switched off, and its fee is the least over the shared networks; both are said of sets, so
that neither order nor spelling matters.

* **the tables** share exactly the fees that the calls share, call by call the latest one
  (`shared_runTransferCalls`).
* **the published cache** says of a route that it is open, and its fee, by these
  (`published_route`).
-/

set_option autoImplicit false

namespace SpotRelay.Analysis

open SpotRelay.Model

/-! ## Network names -/

/-- Upper case keeps letters and digits. -/
theorem isAlphanum_toUpper {c : Char} (h : c.isAlphanum = true) : c.toUpper.isAlphanum = true := by
  rw [Char.isAlphanum, Bool.or_eq_true] at h ⊢
  rcases h with hletter | hdigit
  · left
    rwa [Char.isAlpha_toUpper_eq_isAlpha]
  · right
    have hnot : ¬ c.isLower = true := by
      intro hlower
      simp only [Char.isDigit, Char.isLower, Bool.and_eq_true, decide_eq_true_eq,
        UInt32.le_iff_toNat_le] at hdigit hlower
      have hgap : ('9'.val).toNat < ('a'.val).toNat := by decide
      omega
    rwa [Char.toUpper_eq_of_not_isLower hnot]

/-- A plain name is its own plain name. -/
theorem plainName_plainName (raw : String) : plainName (plainName raw) = plainName raw := by
  have hletters : ∀ c ∈ (raw.toList.filter Char.isAlphanum).map Char.toUpper,
      c.isAlphanum = true ∧ c.toUpper = c := by
    intro c hc
    obtain ⟨c, hraw, rfl⟩ := List.mem_map.mp hc
    exact ⟨isAlphanum_toUpper (List.mem_filter.mp hraw).2, Char.toUpper_toUpper_eq_toUpper c⟩
  unfold plainName
  rw [String.toList_ofList, List.filter_eq_self.mpr fun c hc => (hletters c hc).1]
  congr 1
  exact (List.map_congr_left fun c hc => (hletters c hc).2).trans (List.map_id _)

/-- A canonical name is its own canonical name. -/
theorem normalizeChain_alias : ∀ entry ∈ chainAliases, normalizeChain entry.2 = entry.2 := by
  decide +kernel

/-- A normalised chain is its own normalisation. -/
theorem normalizeChain_normalizeChain (raw : String) :
    normalizeChain (normalizeChain raw) = normalizeChain raw := by
  cases hlookup : chainAliases.lookup (plainName raw) with
  | none =>
    have hplain : normalizeChain raw = plainName raw := by rw [normalizeChain, hlookup]; rfl
    rw [hplain, normalizeChain, plainName_plainName, hlookup]
    rfl
  | some canonical =>
    have hcanonical : normalizeChain raw = canonical := by rw [normalizeChain, hlookup]; rfl
    obtain ⟨_, _, hentries, _⟩ := List.lookup_eq_some_iff.mp hlookup
    have hentry : (plainName raw, canonical) ∈ chainAliases := by simp [hentries]
    rw [hcanonical]
    exact normalizeChain_alias (plainName raw, canonical) hentry

/-- Two spellings of one network: case and punctuation do not count, and a network may go by an
alias. -/
inductive SameNetwork : String → String → Prop
  | plain {a b : String} : plainName a = plainName b → SameNetwork a b
  | aliased {a b : String} : (a, b) ∈ chainAliases → SameNetwork a b
  | symm {a b : String} : SameNetwork a b → SameNetwork b a
  | trans {a b c : String} : SameNetwork a b → SameNetwork b c → SameNetwork a c

/-- Both names of an alias have one normalisation. -/
theorem normalizeChain_aliased : ∀ entry ∈ chainAliases,
    normalizeChain entry.1 = normalizeChain entry.2 := by
  decide +kernel

/-- Two names of one network have one normalisation. -/
theorem SameNetwork.normalizeChain_eq {a b : String} (h : SameNetwork a b) :
    normalizeChain a = normalizeChain b := by
  induction h with
  | plain hplain => rw [normalizeChain, normalizeChain, hplain]
  | @aliased a b hentry => exact normalizeChain_aliased (a, b) hentry
  | symm _ ih => exact ih.symm
  | trans _ _ ihab ihbc => exact ihab.trans ihbc

/-! ## Tables -/

section Tables

variable {α : Type} {m : CoinTable α} {ex ex' : Exchange} {base base' : List Char}

/-- A look-up after a write. -/
theorem find_set (a : α) : (m.set ex base a).find ex' base' =
    if ex = ex' ∧ base = base' then some a else m.find ex' base' := by
  unfold CoinTable.find CoinTable.set
  by_cases hex : ex = ex'
  · subst hex
    rw [AList.lookup_insert, Option.bind_some]
    by_cases hbase : base = base'
    · subst hbase
      rw [AList.lookup_insert, if_pos ⟨rfl, rfl⟩]
    · rw [AList.lookup_insert_ne (Ne.symm hbase), if_neg fun h => hbase h.2]
      cases AList.lookup ex m with
      | none => rfl
      | some coins => rfl
  · rw [AList.lookup_insert_ne (Ne.symm hex), if_neg fun h => hex h.1]

/-- A look-up after the rows of an exchange were erased. -/
theorem find_erase : CoinTable.find (AList.erase ex m) ex' base' =
    if ex = ex' then none else m.find ex' base' := by
  unfold CoinTable.find
  by_cases hex : ex = ex'
  · subst hex
    rw [AList.lookup_erase, if_pos rfl, Option.bind_none]
  · rw [AList.lookup_erase_ne (Ne.symm hex), if_neg hex]

/-- Nothing is found in an empty table. -/
theorem find_empty : CoinTable.find (∅ : CoinTable α) ex base = none := by
  simp [CoinTable.find]

/-- What a table says of a venue and a coin, it says under their keys. -/
theorem mem_of_find {a : α} (h : m.find ex base = some a) : ex ∈ m.keys ∧ base ∈ m.coins := by
  obtain ⟨coins, hcoins, ha⟩ := Option.bind_eq_some_iff.mp h
  constructor
  · rw [← AList.mem_keys, ← AList.lookup_isSome, hcoins]
    rfl
  · rw [CoinTable.coins, List.mem_flatMap]
    refine ⟨⟨ex, coins⟩, AList.mem_lookup_iff.mp hcoins, ?_⟩
    rw [← AList.mem_keys, ← AList.lookup_isSome, ha]
    rfl

end Tables

/-! ## The latest calls -/

/-- What a call makes of the latest list of withdrawal fees. -/
def nextFees (koreanEx : Exchange) (coin : List Char) (latest : Option (List NetworkFee)) :
    TransferCall → Option (List NetworkFee)
  | .setWithdrawNetworkFees ex base fees =>
    if ex = koreanEx ∧ base = coin then some fees else latest
  | .clearWithdrawNetworkFees ex => if ex = koreanEx then none else latest
  | _ => latest

/-- What a call makes of the latest deposit networks. -/
def nextNets (foreignEx : Exchange) (coin : List Char) (latest : Option (Finset String)) :
    TransferCall → Option (Finset String)
  | .setForeignDepositNetworks ex base nets =>
    if ex = foreignEx ∧ base = coin then some nets else latest
  | .clearForeignDepositNetworks ex => if ex = foreignEx then none else latest
  | _ => latest

/-- What a call makes of the latest withdrawal flag. -/
def nextEnabled (koreanEx : Exchange) (coin : List Char) (latest : Option Bool) :
    TransferCall → Option Bool
  | .setKoreanWithdrawEnabled ex base enabled =>
    if ex = koreanEx ∧ base = coin then some enabled else latest
  | .clearKoreanWithdrawStatus ex => if ex = koreanEx then none else latest
  | _ => latest

/-- The latest list of withdrawal fees, unless it was cleared since. -/
def latestFees (koreanEx : Exchange) (coin : List Char) (calls : List TransferCall) :
    Option (List NetworkFee) :=
  calls.foldl (nextFees koreanEx coin) none

/-- The latest deposit networks, unless they were cleared since. -/
def latestNets (foreignEx : Exchange) (coin : List Char) (calls : List TransferCall) :
    Option (Finset String) :=
  calls.foldl (nextNets foreignEx coin) none

/-- The latest withdrawal flag, unless it was cleared since. -/
def latestEnabled (koreanEx : Exchange) (coin : List Char) (calls : List TransferCall) :
    Option Bool :=
  calls.foldl (nextEnabled koreanEx coin) none

def normalizedFees (fees : List NetworkFee) : List NetworkFee :=
  fees.map fun nf => { nf with network := normalizeChain nf.network }

/-- A table that each call changes as `next` says holds what the calls left of `latest`. -/
theorem find_runTransferCalls {α β : Type} (table : TransferTables → CoinTable α) (ex : Exchange)
    (base : List Char) (f : β → α) (next : Option β → TransferCall → Option β)
    (hstart : (table {}).find ex base = none)
    (hstep : ∀ t latest call, (table t).find ex base = latest.map f →
      (table (t.call call)).find ex base = (next latest call).map f) (calls : List TransferCall) :
    (table (runTransferCalls calls)).find ex base = (calls.foldl next none).map f := by
  have hrun : ∀ t latest, (table t).find ex base = latest.map f →
      (table (calls.foldl TransferTables.call t)).find ex base =
        (calls.foldl next latest).map f := by
    induction calls with
    | nil => exact fun _ _ h => h
    | cons call calls ih => exact fun t latest h => ih _ _ (hstep t latest call h)
  exact hrun {} none (by rw [hstart]; rfl)

/-- The fee table holds the fees of the last call that gave them. -/
theorem find_withdrawNetworkFees (ex : Exchange) (base : List Char) (calls : List TransferCall) :
    (runTransferCalls calls).withdrawNetworkFees.find ex base =
      (latestFees ex base calls).map normalizedFees := by
  apply find_runTransferCalls TransferTables.withdrawNetworkFees
  · exact find_empty
  · intro t latest call h
    cases call with
    | setWithdrawNetworkFees ex' base' fees =>
      simp only [TransferTables.call, find_set, h, nextFees]
      split <;> rfl
    | clearWithdrawNetworkFees ex' =>
      simp only [TransferTables.call, find_erase, h, nextFees]
      split <;> rfl
    | _ => exact h

/-- The network table holds the networks of the last call that gave them. -/
theorem find_foreignDepositNets (ex : Exchange) (base : List Char) (calls : List TransferCall) :
    (runTransferCalls calls).foreignDepositNets.find ex base =
      (latestNets ex base calls).map fun nets => nets.image normalizeChain := by
  apply find_runTransferCalls TransferTables.foreignDepositNets
  · exact find_empty
  · intro t latest call h
    cases call with
    | setForeignDepositNetworks ex' base' nets =>
      simp only [TransferTables.call, find_set, h, nextNets]
      split <;> rfl
    | clearForeignDepositNetworks ex' =>
      simp only [TransferTables.call, find_erase, h, nextNets]
      split <;> rfl
    | _ => exact h

/-- The switch table holds the switch of the last call that gave it. -/
theorem find_koreanWithdrawEnabled (ex : Exchange) (base : List Char) (calls : List TransferCall) :
    (runTransferCalls calls).koreanWithdrawEnabled.find ex base = latestEnabled ex base calls := by
  rw [← Option.map_id' (x := latestEnabled ex base calls)]
  apply find_runTransferCalls TransferTables.koreanWithdrawEnabled
  · exact find_empty
  · intro t latest call h
    cases call with
    | setKoreanWithdrawEnabled ex' base' enabled =>
      simp only [TransferTables.call, find_set, h, nextEnabled]
      split <;> rfl
    | clearKoreanWithdrawStatus ex' =>
      simp only [TransferTables.call, find_erase, h, nextEnabled]
      split <;> rfl
    | _ => exact h

/-! ## The cheapest shared network -/

section Cheapest

/-- The step of the loop over the withdrawal networks. -/
def cheaper (nets : Finset String) (best : ℚ × String) (nf : NetworkFee) : ℚ × String :=
  if nf.network ∈ nets ∧ nf.feeCoins < best.1 then (nf.feeCoins, nf.network) else best

/-- A step of the search is at most the best so far and the fee that it looks at. -/
theorem cheaper_le (nets : Finset String) (best : ℚ × String) (nf : NetworkFee) :
    (cheaper nets best nf).1 ≤ best.1 ∧
      (nf.network ∈ nets → (cheaper nets best nf).1 ≤ nf.feeCoins) := by
  unfold cheaper
  by_cases hbetter : nf.network ∈ nets ∧ nf.feeCoins < best.1
  · rw [if_pos hbetter]
    exact ⟨hbetter.2.le, fun _ => le_rfl⟩
  · rw [if_neg hbetter]
    exact ⟨le_rfl, fun hshared => not_lt.mp fun hlt => hbetter ⟨hshared, hlt⟩⟩

/-- The loop ends at or below its start and every shared fee. -/
theorem foldl_cheaper_le (nets : Finset String) (fees : List NetworkFee) (best : ℚ × String) :
    (fees.foldl (cheaper nets) best).1 ≤ best.1 ∧
      ∀ nf ∈ fees, nf.network ∈ nets → (fees.foldl (cheaper nets) best).1 ≤ nf.feeCoins := by
  induction fees generalizing best with
  | nil => exact ⟨le_rfl, fun _ h => absurd h (List.not_mem_nil)⟩
  | cons first fees ih =>
    obtain ⟨hstart, hrest⟩ := ih (cheaper nets best first)
    obtain ⟨hbest, hfirst⟩ := cheaper_le nets best first
    refine ⟨hstart.trans hbest, ?_⟩
    intro nf hnf hshared
    rcases List.mem_cons.mp hnf with rfl | hnf
    · exact hstart.trans (hfirst hshared)
    · exact hrest nf hnf hshared

/-- The loop ends at its start or at a shared fee. -/
theorem foldl_cheaper_mem (nets : Finset String) (fees : List NetworkFee) (best : ℚ × String) :
    (fees.foldl (cheaper nets) best).1 = best.1 ∨
      ∃ nf ∈ fees, nf.network ∈ nets ∧ nf.feeCoins = (fees.foldl (cheaper nets) best).1 := by
  induction fees generalizing best with
  | nil => exact .inl rfl
  | cons first fees ih =>
    rw [List.foldl_cons]
    rcases ih (cheaper nets best first) with hsame | ⟨nf, hnf, hshared, hfee⟩
    · rw [hsame]
      unfold cheaper
      by_cases hbetter : first.network ∈ nets ∧ first.feeCoins < best.1
      · rw [if_pos hbetter]
        exact .inr ⟨first, by simp, hbetter.1, rfl⟩
      · rw [if_neg hbetter]
        exact .inl rfl
    · exact .inr ⟨nf, by simp [hnf], hshared, hfee⟩

end Cheapest

/-- The fees of the networks that a withdrawal and a deposit share. -/
def sharedFees (nets : Finset String) (fees : List NetworkFee) : Set ℚ :=
  {fee | ∃ nf ∈ fees, nf.network ∈ nets ∧ nf.feeCoins = fee}

/-- Where a network is shared, the search ends with the least fee of the shared ones. -/
theorem cheapestNetwork_isLeast {nets : Finset String} {fees : List NetworkFee}
    (hfees : ∀ nf ∈ fees, nf.feeCoins < doubleMax) (hshared : (sharedFees nets fees).Nonempty) :
    IsLeast (sharedFees nets fees) (TransferTables.cheapestNetwork nets fees).1 := by
  change IsLeast _ (fees.foldl (cheaper nets) (doubleMax, "")).1
  have hle := (foldl_cheaper_le nets fees (doubleMax, "")).2
  constructor
  · rcases foldl_cheaper_mem nets fees (doubleMax, "") with hmax | hmem
    · obtain ⟨_, nf, hnf, hnet, _⟩ := hshared
      have habove := hle nf hnf hnet
      rw [hmax] at habove
      exact absurd (hfees nf hnf) (not_lt.mpr habove)
    · exact hmem
  · rintro _ ⟨nf, hnf, hnet, rfl⟩
    exact hle nf hnf hnet

/-- Where none is shared, it ends with the sentinel. -/
theorem cheapestNetwork_of_not_shared {nets : Finset String} {fees : List NetworkFee}
    (hnone : ¬ (sharedFees nets fees).Nonempty) :
    (TransferTables.cheapestNetwork nets fees).1 = doubleMax := by
  rcases foldl_cheaper_mem nets fees (doubleMax, "") with hmax | ⟨nf, hnf, hnet, hfee⟩
  · exact hmax
  · exact absurd ⟨_, nf, hnf, hnet, rfl⟩ hnone

/-! ## One route -/

section Route

variable {t : TransferTables} {nowMs : UInt64} {key : Route}

/-- What the tables say that a route shares. -/
def TransferTables.shared (t : TransferTables) (key : Route) : Set ℚ :=
  sharedFees ((t.foreignDepositNets.find key.2.1 key.2.2).getD ∅)
    ((t.withdrawNetworkFees.find key.1 key.2.2).getD [])

/-- What `route` publishes for a key: available exactly if a network is shared and withdrawals are
not off, and then at the least fee. -/
theorem route_cases (nowMs : UInt64) (key : Route)
    (hfees : ∀ fees, t.withdrawNetworkFees.find key.1 key.2.2 = some fees →
      ∀ nf ∈ fees, nf.feeCoins < doubleMax) :
    ((t.route nowMs key).available = true ↔
      (TransferTables.shared t key).Nonempty ∧
        t.koreanWithdrawEnabled.find key.1 key.2.2 ≠ some false) ∧
    ((t.route nowMs key).available = true →
      IsLeast (TransferTables.shared t key) (t.route nowMs key).feeCoins) := by
  unfold TransferTables.shared
  generalize hnets : (t.foreignDepositNets.find key.2.1 key.2.2).getD ∅ = nets
  generalize hlist : (t.withdrawNetworkFees.find key.1 key.2.2).getD [] = fees
  have hbelow : ∀ nf ∈ fees, nf.feeCoins < doubleMax := by
    cases hfind : t.withdrawNetworkFees.find key.1 key.2.2 with
    | none =>
      rw [hfind] at hlist
      subst hlist
      simp
    | some found =>
      rw [hfind] at hlist
      subst hlist
      exact hfees found hfind
  have henabled : (t.koreanWithdrawEnabled.find key.1 key.2.2).getD true = true ↔
      t.koreanWithdrawEnabled.find key.1 key.2.2 ≠ some false := by
    rcases t.koreanWithdrawEnabled.find key.1 key.2.2 with _ | _ | _ <;> simp
  simp only [TransferTables.route, TransferTables.getWithdrawFeeLocked, hnets, hlist]
  by_cases hopen : fees ≠ [] ∧ nets ≠ ∅ ∧
      t.koreanWithdrawEnabled.find key.1 key.2.2 ≠ some false
  · obtain ⟨hfeesOpen, hnetsOpen, hflag⟩ := hopen
    simp only [hfeesOpen, hnetsOpen, henabled.mpr hflag, ne_eq, not_false_eq_true, decide_true,
      Bool.and_true, Bool.not_true, Bool.or_false, Bool.false_eq_true, if_false]
    by_cases hshared : (sharedFees nets fees).Nonempty
    · have hleast := cheapestNetwork_isLeast hbelow hshared
      obtain ⟨⟨nf, hnf, _, hfee⟩, _⟩ := hleast
      have hlt : (TransferTables.cheapestNetwork nets fees).1 < doubleMax := by
        rw [← hfee]
        exact hbelow nf hnf
      rw [if_pos hlt]
      exact ⟨iff_of_true rfl ⟨hshared, hflag⟩, fun _ => cheapestNetwork_isLeast hbelow hshared⟩
    · rw [cheapestNetwork_of_not_shared hshared, if_neg (lt_irrefl _)]
      exact ⟨iff_of_false Bool.false_ne_true fun h => hshared h.1,
        fun h => absurd h Bool.false_ne_true⟩
  · have hclosed : (!(decide (fees ≠ []) &&
        (t.koreanWithdrawEnabled.find key.1 key.2.2).getD true) || !decide (nets ≠ ∅)) = true := by
      by_contra hnot
      simp only [Bool.or_eq_true, Bool.not_eq_true', not_or, Bool.not_eq_false, Bool.and_eq_true,
        decide_eq_true_eq] at hnot
      exact hopen ⟨hnot.1.1, hnot.2, henabled.mp hnot.1.2⟩
    rw [if_pos hclosed]
    refine ⟨iff_of_false Bool.false_ne_true ?_, fun h => absurd h Bool.false_ne_true⟩
    rintro ⟨⟨_, nf, hnf, hnet, _⟩, hflag⟩
    exact hopen ⟨List.ne_nil_of_mem hnf, Finset.ne_empty_of_mem hnet, hflag⟩

/-- An available route is one that `finalize_withdraw_fees` goes through. -/
theorem mem_routeKeys (hshared : (TransferTables.shared t key).Nonempty) : key ∈ t.routeKeys := by
  obtain ⟨koreanEx, foreignEx, coin⟩ := key
  obtain ⟨_, nf, hnf, hnet, _⟩ := hshared
  obtain ⟨nets, hnets⟩ : ∃ nets, t.foreignDepositNets.find foreignEx coin = some nets := by
    cases hfind : t.foreignDepositNets.find foreignEx coin with
    | none => simp [hfind] at hnet
    | some nets => exact ⟨nets, rfl⟩
  obtain ⟨fees, hfees⟩ : ∃ fees, t.withdrawNetworkFees.find koreanEx coin = some fees := by
    cases hfind : t.withdrawNetworkFees.find koreanEx coin with
    | none => simp [hfind] at hnf
    | some fees => exact ⟨fees, rfl⟩
  obtain ⟨hkorean, hcoin⟩ := mem_of_find hfees
  obtain ⟨hforeign, _⟩ := mem_of_find hnets
  rw [TransferTables.routeKeys, List.mem_flatMap]
  refine ⟨coin, ?_, ?_⟩
  · rw [TransferTables.allCoins, List.mem_dedup, List.append_assoc, List.mem_append]
    exact .inl hcoin
  · rw [List.mem_flatMap]
    refine ⟨koreanEx, ?_, ?_⟩
    · rw [TransferTables.koreanExs, List.mem_append]
      exact .inl hkorean
    · rw [TransferTables.foreignExs, if_neg (List.ne_nil_of_mem hforeign)]
      exact List.mem_map.mpr ⟨foreignEx, hforeign, rfl⟩

/-- A key that was not listed is not found. -/
theorem lookup_graph_of_not_mem {β : Type} (f : Route → β) {keys : List Route} (hmem : key ∉ keys) :
    (keys.map fun key => (key, f key)).lookup key = none := by
  rw [List.lookup_eq_none_iff]
  rintro entry hentry
  obtain ⟨other, hother, rfl⟩ := List.mem_map.mp hentry
  rw [bne_iff_ne]
  rintro rfl
  exact hmem hother

/-- The published snapshot says of a route what the tables do. -/
theorem isTransferRouteAvailable_publish (c : PriceCache)
    (hkey : (t.route nowMs key).available = true → key ∈ t.routeKeys) :
    (c.publishTransfers t nowMs).isTransferRouteAvailable key = (t.route nowMs key).available := by
  unfold PriceCache.isTransferRouteAvailable PriceCache.publishTransfers
    TransferTables.finalizeWithdrawFees
  by_cases hmem : key ∈ t.routeKeys
  · simp only [List.lookup_graph (t.route nowMs) hmem]
  · simp only [lookup_graph_of_not_mem (t.route nowMs) hmem]
    cases havailable : (t.route nowMs key).available with
    | false => rfl
    | true => exact absurd (hkey havailable) hmem

/-- It has the fee of an available route, and zero for the others. -/
theorem getWithdrawFee_publish (c : PriceCache)
    (hkey : (t.route nowMs key).available = true → key ∈ t.routeKeys) :
    (c.publishTransfers t nowMs).getWithdrawFee key =
      if (t.route nowMs key).available then (t.route nowMs key).feeCoins else 0 := by
  unfold PriceCache.getWithdrawFee PriceCache.publishTransfers TransferTables.finalizeWithdrawFees
  cases havailable : (t.route nowMs key).available with
  | true =>
    have hmem : key ∈ t.routeKeys.filter fun key => (t.route nowMs key).available :=
      List.mem_filter.mpr ⟨hkey havailable, havailable⟩
    simp only [List.lookup_graph (fun key => (t.route nowMs key).feeCoins) hmem, Option.getD_some,
      if_true]
  | false =>
    have hmem : key ∉ t.routeKeys.filter fun key => (t.route nowMs key).available := by
      simp [havailable]
    simp only [lookup_graph_of_not_mem (fun key => (t.route nowMs key).feeCoins) hmem]
    rfl

end Route

/-! ## Spellings and orders -/

/-- Two calls that differ in the order of a list or in the spelling of networks. -/
inductive SameCall : TransferCall → TransferCall → Prop
  | fees {ex : Exchange} {base : List Char} {fees ordered fees' : List NetworkFee} :
    fees.Perm ordered →
    List.Forall₂ (fun a b => SameNetwork a.network b.network ∧ a.feeCoins = b.feeCoins)
      ordered fees' →
    SameCall (.setWithdrawNetworkFees ex base fees) (.setWithdrawNetworkFees ex base fees')
  | nets {ex : Exchange} {base : List Char} {nets nets' : Finset String} :
    (∀ a ∈ nets, ∃ b ∈ nets', SameNetwork a b) → (∀ b ∈ nets', ∃ a ∈ nets, SameNetwork b a) →
    SameCall (.setForeignDepositNetworks ex base nets) (.setForeignDepositNetworks ex base nets')
  | refl (call : TransferCall) : SameCall call call

/-- Each element of the second list is related to one of the first. -/
theorem exists_related {β γ : Type} {R : β → γ → Prop} {xs : List β} {ys : List γ}
    (h : List.Forall₂ R xs ys) : ∀ y ∈ ys, ∃ x ∈ xs, R x y := by
  induction h with
  | nil => simp
  | cons hfirst _ ih =>
    intro y hy
    rcases List.mem_cons.mp hy with rfl | hrest
    · exact ⟨_, by simp, hfirst⟩
    · obtain ⟨x, hx, hxy⟩ := ih y hrest
      exact ⟨x, by simp [hx], hxy⟩

/-- Lists with the same networks and fees have the same normalised fees. -/
theorem normalizedFees_eq_of_forall₂ {fees fees' : List NetworkFee}
    (h : List.Forall₂ (fun a b => SameNetwork a.network b.network ∧ a.feeCoins = b.feeCoins)
      fees fees') : normalizedFees fees = normalizedFees fees' := by
  induction h with
  | nil => rfl
  | cons hfirst _ ih =>
    unfold normalizedFees at ih ⊢
    rw [List.map_cons, List.map_cons, ih, hfirst.1.normalizeChain_eq, hfirst.2]

/-- Networks that occur among others under some name do so under the normalised one. -/
theorem image_normalizeChain_subset {nets nets' : Finset String}
    (h : ∀ a ∈ nets, ∃ b ∈ nets', SameNetwork a b) :
    nets.image normalizeChain ⊆ nets'.image normalizeChain := by
  intro name hname
  obtain ⟨a, ha, rfl⟩ := Finset.mem_image.mp hname
  obtain ⟨b, hb, hsame⟩ := h a ha
  rw [hsame.normalizeChain_eq]
  exact Finset.mem_image_of_mem normalizeChain hb

/-- What related calls make of related histories stays related. -/
theorem foldl_related {β : Type} {next : Option β → TransferCall → Option β}
    (R : Option β → Option β → Prop)
    (hstep : ∀ a b call call', R a b → SameCall call call' → R (next a call) (next b call'))
    {calls calls' : List TransferCall} (h : List.Forall₂ SameCall calls calls') (a b : Option β)
    (hab : R a b) : R (calls.foldl next a) (calls'.foldl next b) := by
  induction h generalizing a b with
  | nil => exact hab
  | cons hfirst _ ih => exact ih _ _ (hstep a b _ _ hab hfirst)

variable {calls calls' : List TransferCall} (koreanEx foreignEx : Exchange) (coin : List Char)

/-- Calls with other names of the same networks leave the same normalised fees. -/
theorem latestFees_same (h : List.Forall₂ SameCall calls calls') (nf : NetworkFee) :
    nf ∈ normalizedFees ((latestFees koreanEx coin calls).getD []) ↔
      nf ∈ normalizedFees ((latestFees koreanEx coin calls').getD []) := by
  refine foldl_related (fun a b : Option (List NetworkFee) => ∀ nf,
    nf ∈ normalizedFees (a.getD []) ↔ nf ∈ normalizedFees (b.getD [])) ?_ h none none
    (fun _ => Iff.rfl) nf
  intro a b call call' hab hcall nf
  cases hcall with
  | fees hperm hspelling =>
    simp only [nextFees]
    split
    · rw [Option.getD_some, Option.getD_some, ← normalizedFees_eq_of_forall₂ hspelling]
      exact (hperm.map _).mem_iff
    · exact hab nf
  | nets _ _ => exact hab nf
  | refl =>
    cases call with
    | setWithdrawNetworkFees ex base fees =>
      simp only [nextFees]
      split
      · exact Iff.rfl
      · exact hab nf
    | clearWithdrawNetworkFees ex =>
      simp only [nextFees]
      split
      · exact Iff.rfl
      · exact hab nf
    | _ => exact hab nf

/-- They leave the same normalised networks. -/
theorem latestNets_same (h : List.Forall₂ SameCall calls calls') :
    ((latestNets foreignEx coin calls).getD ∅).image normalizeChain =
      ((latestNets foreignEx coin calls').getD ∅).image normalizeChain := by
  refine foldl_related (fun a b : Option (Finset String) => (a.getD ∅).image normalizeChain =
    (b.getD ∅).image normalizeChain) ?_ h none none rfl
  intro a b call call' hab hcall
  cases hcall with
  | fees _ _ => exact hab
  | nets hto hfrom =>
    simp only [nextNets]
    split
    · exact (image_normalizeChain_subset hto).antisymm (image_normalizeChain_subset hfrom)
    · exact hab
  | refl =>
    cases call with
    | setForeignDepositNetworks ex base nets =>
      simp only [nextNets]
      split
      · rfl
      · exact hab
    | clearForeignDepositNetworks ex =>
      simp only [nextNets]
      split
      · rfl
      · exact hab
    | _ => exact hab

/-- They leave the same switch. -/
theorem latestEnabled_same (h : List.Forall₂ SameCall calls calls') :
    latestEnabled koreanEx coin calls = latestEnabled koreanEx coin calls' := by
  refine foldl_related Eq ?_ h none none rfl
  rintro a _ call call' rfl hcall
  cases hcall <;> rfl

/-! ## The result -/

/-- The fees of the networks that the latest lists of a route share. -/
def latestSharedFees (calls : List TransferCall) : Set ℚ :=
  {fee | ∃ nf ∈ (latestFees koreanEx coin calls).getD [],
    normalizeChain nf.network ∈ ((latestNets foreignEx coin calls).getD ∅).image normalizeChain ∧
      nf.feeCoins = fee}

/-- The shared fees of the calls, in the terms of the tables. -/
theorem mem_latestSharedFees {calls : List TransferCall} {fee : ℚ} :
    fee ∈ latestSharedFees koreanEx foreignEx coin calls ↔
      fee ∈ sharedFees (((latestNets foreignEx coin calls).getD ∅).image normalizeChain)
        (normalizedFees ((latestFees koreanEx coin calls).getD [])) := by
  constructor
  · rintro ⟨nf, hnf, hnet, hfee⟩
    exact ⟨_, List.mem_map.mpr ⟨nf, hnf, rfl⟩, hnet, hfee⟩
  · rintro ⟨_, hnormalized, hnet, hfee⟩
    obtain ⟨nf, hnf, rfl⟩ := List.mem_map.mp hnormalized
    exact ⟨nf, hnf, hnet, hfee⟩

/-- The tables share exactly the fees that the calls share. -/
theorem shared_runTransferCalls (calls : List TransferCall) :
    TransferTables.shared (runTransferCalls calls) (koreanEx, foreignEx, coin) =
      latestSharedFees koreanEx foreignEx coin calls := by
  have hnets : ((runTransferCalls calls).foreignDepositNets.find foreignEx coin).getD ∅ =
      ((latestNets foreignEx coin calls).getD ∅).image normalizeChain := by
    rw [find_foreignDepositNets]
    cases latestNets foreignEx coin calls <;> rfl
  have hfees : ((runTransferCalls calls).withdrawNetworkFees.find koreanEx coin).getD [] =
      normalizedFees ((latestFees koreanEx coin calls).getD []) := by
    rw [find_withdrawNetworkFees]
    cases latestFees koreanEx coin calls <;> rfl
  ext fee
  rw [mem_latestSharedFees, TransferTables.shared, hnets, hfees]

/-- Every fee of the calls is a double below the largest. -/
def FeesBelowMax (calls : List TransferCall) : Prop :=
  ∀ ex base fees, .setWithdrawNetworkFees ex base fees ∈ calls →
    ∀ nf ∈ fees, nf.feeCoins < doubleMax

/-- The latest list is one that a call brought. -/
theorem latestFees_below (hfees : FeesBelowMax calls) :
    ∀ fees, latestFees koreanEx coin calls = some fees → ∀ nf ∈ fees, nf.feeCoins < doubleMax := by
  unfold latestFees
  refine List.foldlRecOn (motive := fun latest => ∀ fees : List NetworkFee,
    latest = some fees → ∀ nf ∈ fees, nf.feeCoins < doubleMax) calls _ (by simp) ?_
  intro latest hlatest call hcall fees
  cases call with
  | setWithdrawNetworkFees ex base fees' =>
    simp only [nextFees]
    split
    · rintro ⟨⟩
      exact hfees _ _ _ hcall
    · exact hlatest fees
  | clearWithdrawNetworkFees ex =>
    simp only [nextFees]
    split
    · rintro ⟨⟩
    · exact hlatest fees
  | _ => exact hlatest fees

/-- What the published cache says of a route. -/
theorem published_route (c : PriceCache) (nowMs : UInt64)
    (hlatest : ∀ fees, latestFees koreanEx coin calls = some fees →
      ∀ nf ∈ fees, nf.feeCoins < doubleMax) :
    let key : Route := (koreanEx, foreignEx, coin)
    let published := c.publishTransfers (runTransferCalls calls) nowMs
    (published.isTransferRouteAvailable key = true ↔
      (latestSharedFees koreanEx foreignEx coin calls).Nonempty ∧
        latestEnabled koreanEx coin calls ≠ some false) ∧
    (published.isTransferRouteAvailable key = true →
      IsLeast (latestSharedFees koreanEx foreignEx coin calls) (published.getWithdrawFee key)) ∧
    (published.isTransferRouteAvailable key = false → published.getWithdrawFee key = 0) := by
  intro key published
  have hbelow : ∀ fees,
      (runTransferCalls calls).withdrawNetworkFees.find koreanEx coin = some fees →
        ∀ nf ∈ fees, nf.feeCoins < doubleMax := by
    intro fees hfind nf hnf
    rw [find_withdrawNetworkFees, Option.map_eq_some_iff] at hfind
    obtain ⟨given, hgiven, rfl⟩ := hfind
    obtain ⟨raw, hraw, rfl⟩ := List.mem_map.mp hnf
    exact hlatest given hgiven raw hraw
  obtain ⟨hiff, hleast⟩ := route_cases nowMs key hbelow
  rw [shared_runTransferCalls, find_koreanWithdrawEnabled] at hiff
  rw [shared_runTransferCalls] at hleast
  have hkey : ((runTransferCalls calls).route nowMs key).available = true →
      key ∈ (runTransferCalls calls).routeKeys := by
    intro havailable
    apply mem_routeKeys
    rw [shared_runTransferCalls]
    exact (hiff.mp havailable).1
  have hroute := isTransferRouteAvailable_publish c hkey
  have hfee := getWithdrawFee_publish c hkey
  refine ⟨hroute ▸ hiff, ?_, ?_⟩
  · intro havailable
    rw [hroute] at havailable
    rw [hfee, if_pos havailable]
    exact hleast havailable
  · intro hunavailable
    rw [hroute] at hunavailable
    rw [hfee, hunavailable]
    rfl

/-- Calls with other names of the same networks share the same fees. -/
theorem latestSharedFees_same (h : List.Forall₂ SameCall calls calls') :
    latestSharedFees koreanEx foreignEx coin calls =
      latestSharedFees koreanEx foreignEx coin calls' := by
  ext fee
  rw [mem_latestSharedFees, mem_latestSharedFees, latestNets_same foreignEx coin h]
  constructor
  · rintro ⟨nf, hnf, hshared⟩
    exact ⟨nf, (latestFees_same koreanEx coin h nf).mp hnf, hshared⟩
  · rintro ⟨nf, hnf, hshared⟩
    exact ⟨nf, (latestFees_same koreanEx coin h nf).mpr hnf, hshared⟩

/-- Their fees stay below the sentinel. -/
theorem feesBelowMax_same (h : List.Forall₂ SameCall calls calls') (hfees : FeesBelowMax calls) :
    FeesBelowMax calls' := by
  intro ex base fees' hmem nf' hnf'
  obtain ⟨call, hcall, hsame⟩ := exists_related h _ hmem
  cases hsame with
  | fees hperm hspelling =>
    obtain ⟨nf, hnf, _, hfee⟩ := exists_related hspelling nf' hnf'
    rw [← hfee]
    exact hfees ex base _ hcall nf (hperm.mem_iff.mpr hnf)
  | refl => exact hfees ex base fees' hcall nf' hnf'

/-- For every sequence of calls, the published cache holds a route to be open exactly if the latest
lists of the two venues share a network and the latest flag does not forbid the withdrawal; the fee
is then the least of the shared networks, and zero otherwise.  Neither depends on the order of a
list or on the spelling of a network. -/
theorem published_route_exact (c : PriceCache) (calls : List TransferCall) (nowMs : UInt64)
    (hfees : FeesBelowMax calls) (koreanEx foreignEx : Exchange) (coin : List Char) :
    let key : Route := (koreanEx, foreignEx, coin)
    let published := c.publishTransfers (runTransferCalls calls) nowMs
    (published.isTransferRouteAvailable key = true ↔
      (∃ nf ∈ (latestFees koreanEx coin calls).getD [], normalizeChain nf.network ∈
        ((latestNets foreignEx coin calls).getD ∅).image normalizeChain) ∧
      ∀ enabled, latestEnabled koreanEx coin calls = some enabled → enabled = true) ∧
    (published.isTransferRouteAvailable key = true →
      IsLeast (latestSharedFees koreanEx foreignEx coin calls) (published.getWithdrawFee key)) ∧
    (published.isTransferRouteAvailable key = false → published.getWithdrawFee key = 0) ∧
    (∀ calls', List.Forall₂ SameCall calls calls' →
      let published' := c.publishTransfers (runTransferCalls calls') nowMs
      published'.isTransferRouteAvailable key = published.isTransferRouteAvailable key ∧
        published'.getWithdrawFee key = published.getWithdrawFee key) ∧
    ∀ raw, normalizeChain (normalizeChain raw) = normalizeChain raw := by
  intro key published
  obtain ⟨hiff, hleast, hzero⟩ :=
    published_route koreanEx foreignEx coin c nowMs (latestFees_below koreanEx coin hfees)
  refine ⟨?_, hleast, hzero, ?_, normalizeChain_normalizeChain⟩
  · refine hiff.trans (and_congr ?_ ?_)
    · constructor
      · rintro ⟨_, nf, hnf, hnet, _⟩
        exact ⟨nf, hnf, hnet⟩
      · rintro ⟨nf, hnf, hnet⟩
        exact ⟨_, nf, hnf, hnet, rfl⟩
    · rcases latestEnabled koreanEx coin calls with _ | _ | _ <;> simp
  · intro calls' hsame published'
    obtain ⟨hiff', hleast', hzero'⟩ :=
      published_route koreanEx foreignEx coin c nowMs
        (latestFees_below koreanEx coin (feesBelowMax_same hsame hfees))
    rw [← latestSharedFees_same koreanEx foreignEx coin hsame] at hiff' hleast'
    rw [← latestEnabled_same koreanEx coin hsame] at hiff'
    have havailable : published'.isTransferRouteAvailable key =
        published.isTransferRouteAvailable key := Bool.eq_iff_iff.mpr (hiff'.trans hiff.symm)
    refine ⟨havailable, ?_⟩
    cases hcase : published.isTransferRouteAvailable key with
    | true => exact (hleast' (havailable.trans hcase)).unique (hleast hcase)
    | false => rw [hzero' (havailable.trans hcase), hzero hcase]

/-- Two venues that name the networks of one coin in their own ways. -/
def usdtCalls : List TransferCall :=
  [.setWithdrawNetworkFees .bithumb ['U'] [⟨"Tron", 2⟩, ⟨"Ethereum", 5⟩, ⟨"Aptos", 1⟩],
    .setForeignDepositNetworks .bybit ['U'] {"TRX", "eth", "SOL"},
    .setKoreanWithdrawEnabled .bithumb ['U'] true]

/-- The example's fees are below the sentinel. -/
theorem feesBelowMax_usdtCalls : FeesBelowMax usdtCalls := by
  intro ex base fees hmem nf hnf
  simp only [usdtCalls, List.mem_cons, List.not_mem_nil, TransferCall.setWithdrawNetworkFees.injEq,
    reduceCtorEq, or_false] at hmem
  obtain ⟨rfl, rfl, rfl⟩ := hmem
  have hsmall : nf.feeCoins ≤ 5 := by
    simp only [List.mem_cons, List.not_mem_nil, or_false] at hnf
    rcases hnf with rfl | rfl | rfl <;> norm_num
  have hmax : (5 : ℚ) < doubleMax := by
    have hscale : (1 : ℚ) ≤ 2 ^ 971 := one_le_pow₀ (by norm_num)
    calc (5 : ℚ) < (2 ^ 53 - 1) * 1 := by norm_num
      _ ≤ doubleMax := mul_le_mul_of_nonneg_left hscale (by norm_num)
  exact hsmall.trans_lt hmax

/-- The general result for a route with one shared network. -/
theorem published_route_exact_usdt :
    let key : Route := (.bithumb, .bybit, ['U'])
    let published := PriceCache.empty.publishTransfers (runTransferCalls usdtCalls) 1
    published.isTransferRouteAvailable key = true ∧ published.getWithdrawFee key = 2 ∧
      IsLeast (latestSharedFees .bithumb .bybit ['U'] usdtCalls)
        (published.getWithdrawFee key) := by
  obtain ⟨hiff, hleast, -⟩ :=
    published_route_exact .empty usdtCalls 1 feesBelowMax_usdtCalls .bithumb .bybit ['U']
  have hopen := hiff.mpr (by decide +kernel)
  exact ⟨hopen, by decide +kernel, hleast hopen⟩

end SpotRelay.Analysis
