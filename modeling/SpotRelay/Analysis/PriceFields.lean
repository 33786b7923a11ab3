import SpotRelay.Library.Run
import SpotRelay.Model.PriceThreads

/-!
# Which updates a returned price is of

The six fields are stored and loaded one by one.  Whatever the interleaving, each returned field
is of one call of `update`, and none is older than the timestamp, which is stored last and loaded
first.  Where no stores overlap another call, the prices and the timestamp are of the same call,
and so is each size that the call brought.

* **in general**: each event keeps every stored field to one of the updates and none older than the
  timestamp (`priceStep_invariant`).
* **in turn**: each event that is not disturbed by another call keeps the whole entry to one update
  (`priceStep_serial`).
-/

set_option autoImplicit false

namespace SpotRelay.Analysis

open SpotRelay.Model SpotRelay.Library

/-! ## Fields -/

namespace PriceField

/-- The position of a field among the stores of `update`. -/
def storeRank : PriceField → ℕ
  | .bid => 0
  | .ask => 1
  | .bidQty => 2
  | .askQty => 3
  | .last => 4
  | .timestamp => 5

/-- The position of a field among the loads of `get_price`. -/
def loadRank : PriceField → ℕ
  | .timestamp => 0
  | .bid => 1
  | .ask => 2
  | .bidQty => 3
  | .askQty => 4
  | .last => 5

end PriceField

open PriceField

/-- The next store is one place on. -/
theorem storeRank_nextStore {f g : PriceField} (h : f.nextStore = some g) :
    storeRank g = storeRank f + 1 := by
  cases f <;> cases h <;> rfl

/-- Only the timestamp is stored last. -/
theorem eq_timestamp_of_nextStore {f : PriceField} (h : f.nextStore = none) :
    f = .timestamp := by
  cases f <;> first | rfl | cases h

/-- The next load is one place on. -/
theorem loadRank_nextLoad {f g : PriceField} (h : f.nextLoad = some g) :
    loadRank g = loadRank f + 1 := by
  cases f <;> cases h <;> rfl

/-- Only the last price is loaded last. -/
theorem eq_last_of_nextLoad {f : PriceField} (h : f.nextLoad = none) : f = .last := by
  cases f <;> first | rfl | cases h

/-- Each field has a place of its own among the stores. -/
theorem storeRank_injective {f g : PriceField} (h : storeRank f = storeRank g) : f = g := by
  cases f <;> cases g <;> first | rfl | cases h

/-- Each field has a place of its own among the loads. -/
theorem loadRank_injective {f g : PriceField} (h : loadRank f = loadRank g) : f = g := by
  cases f <;> cases g <;> first | rfl | cases h

/-- A store changes its field only. -/
theorem field_store (entry values : PriceEntry) (f g : PriceField) :
    (entry.store values f).field g = if g = f then values.field g else entry.field g := by
  cases f <;> cases g <;> rfl

/-- A load takes its field only. -/
theorem field_load (seen : PriceData) (entry : PriceEntry) (f g : PriceField) :
    (seen.load entry f).field g = if g = f then entry.field g else seen.field g := by
  cases f <;> cases g <;> rfl

/-- A load leaves the flag of the result. -/
theorem valid_load (seen : PriceData) (entry : PriceEntry) (f : PriceField) :
    (seen.load entry f).valid = seen.valid := by
  cases f <;> rfl

/-! ## What every interleaving keeps -/

/-- `a` stored the field no earlier than `b` did. -/
def NotOlder (stores : List PriceUpdate) (a b : PriceUpdate) : Prop :=
  a = b ∨ [a, b].Sublist stores

/-- The returned fields are of calls of `update`, and none is older than the timestamp. -/
structure FromUpdates (s : SharedPrice) (r : ReturnedPrice) : Prop where
  stored : ∀ f, r.source f ∈ s.updates ∧ r.data.field f = (r.source f).values.field f
  brought : ∀ f, (r.source f).brings f = true ∨ r.source f ∈ s.created
  notOlder : ∀ f, (r.source .timestamp).brings f = true →
    NotOlder (s.stores f) (r.source f) (r.source .timestamp)

/-- Prices, timestamp and every size that came with them are of one call. -/
def FromOneUpdate (r : ReturnedPrice) : Prop :=
  ∀ f, (r.source .timestamp).brings f = true → r.source f = r.source .timestamp

/-- A field that a `get_price` has loaded. -/
structure Loaded (s : SharedPrice) (seen : ReturnedPrice) (f : PriceField) : Prop where
  stored : seen.source f ∈ s.stores f
  value : seen.data.field f = (seen.source f).values.field f
  notOlder : (seen.source .timestamp).brings f = true →
    NotOlder (s.stores f) (seen.source f) (seen.source .timestamp)

/-- What a call in progress has done so far. -/
def CallSound (s : SharedPrice) : PriceCall → Prop
  | .updateLookup u | .updateCreate u => u ∈ s.updates
  | .updateStore u f =>
    u ∈ s.updates ∧ s.entry.isSome = true ∧
      ∀ g, storeRank g < storeRank f → u.brings g = true → u ∈ s.stores g
  | .getLookup => True
  | .getLoad f seen =>
    s.entry.isSome = true ∧ seen.data.valid = true ∧
      ∀ g, loadRank g < loadRank f → Loaded s seen g

structure PriceInvariant (s : SharedPrice) : Prop where
  known : ∀ f, ∀ u ∈ s.stores f, u ∈ s.updates ∧ (u.brings f = true ∨ u ∈ s.created)
  current : ∀ entry, s.entry = some entry →
    ∀ f, ∃ u rest, s.stores f = u :: rest ∧ entry.field f = u.values.field f
  /-- The timestamp is stored last. -/
  complete : ∀ u ∈ s.stores .timestamp, ∀ f, u.brings f = true → u ∈ s.stores f
  calls : ∀ call ∈ s.calls, CallSound s call
  returned : ∀ r ∈ s.returned, r.data.valid = true → FromUpdates s r

/-- The entry stays, and nothing recorded is lost. -/
structure Extends (s s' : SharedPrice) : Prop where
  entry : s.entry.isSome = true → s'.entry.isSome = true
  updates : ∀ u ∈ s.updates, u ∈ s'.updates
  stores : ∀ f, (s.stores f).Sublist (s'.stores f)
  created : ∀ u ∈ s.created, u ∈ s'.created

variable {s s' : SharedPrice}

/-- What is not older stays so when more is stored. -/
theorem NotOlder.extend {stores stores' : List PriceUpdate} {a b : PriceUpdate}
    (h : NotOlder stores a b) (hsub : stores.Sublist stores') : NotOlder stores' a b :=
  h.imp_right fun hpair => hpair.trans hsub

/-- Fields that come from updates still do when more is stored. -/
theorem FromUpdates.extend {r : ReturnedPrice} (h : FromUpdates s r) (hext : Extends s s') :
    FromUpdates s' r where
  stored := fun f => ⟨hext.updates _ (h.stored f).1, (h.stored f).2⟩
  brought := fun f => (h.brought f).imp_right (hext.created _)
  notOlder := fun f hbrings => (h.notOlder f hbrings).extend (hext.stores f)

/-- What has been loaded stays sound when more is stored. -/
theorem Loaded.extend {seen : ReturnedPrice} {f : PriceField} (h : Loaded s seen f)
    (hext : Extends s s') : Loaded s' seen f where
  stored := (hext.stores f).subset h.stored
  value := h.value
  notOlder := fun hbrings => (h.notOlder hbrings).extend (hext.stores f)

/-- A call stays sound when others store. -/
theorem CallSound.extend {call : PriceCall} (h : CallSound s call) (hext : Extends s s') :
    CallSound s' call := by
  cases call with
  | updateLookup u => exact hext.updates u h
  | updateCreate u => exact hext.updates u h
  | updateStore u f =>
    refine ⟨hext.updates u h.1, hext.entry h.2.1, ?_⟩
    intro g hrank hbrings
    exact (hext.stores g).subset (h.2.2 g hrank hbrings)
  | getLookup => trivial
  | getLoad f seen => exact ⟨hext.entry h.1, h.2.1, fun g hrank => (h.2.2 g hrank).extend hext⟩

/-- A step that leaves the entry alone. -/
theorem PriceInvariant.of_frame (h : PriceInvariant s) (hentry : s'.entry = s.entry)
    (hstores : s'.stores = s.stores) (hcreated : s'.created = s.created)
    (hupdates : ∀ u ∈ s.updates, u ∈ s'.updates)
    (hcalls : ∀ call ∈ s'.calls, call ∈ s.calls ∨ CallSound s' call)
    (hreturned : ∀ r ∈ s'.returned, r ∈ s.returned ∨ (r.data.valid = true → FromUpdates s' r)) :
    PriceInvariant s' := by
  have hext : Extends s s' :=
    ⟨fun hsome => by rw [hentry]; exact hsome, hupdates,
      fun f => by rw [hstores], fun u hu => by rw [hcreated]; exact hu⟩
  constructor
  · intro f u hu
    rw [hstores] at hu
    rw [hcreated]
    exact ⟨hupdates u (h.known f u hu).1, (h.known f u hu).2⟩
  · rw [hentry, hstores]
    exact h.current
  · rw [hstores]
    exact h.complete
  · intro call hcall
    rcases hcalls call hcall with hold | hnew
    · exact (h.calls call hold).extend hext
    · exact hnew
  · intro r hr hvalid
    rcases hreturned r hr with hold | hnew
    · exact (h.returned r hold hvalid).extend hext
    · exact hnew hvalid

/-- A call that goes on replaces itself. -/
theorem mem_goOn_price {i : ℕ} {call c : PriceCall} (h : c ∈ (s.goOn i call).calls) :
    c ∈ s.calls ∨ c = call :=
  List.mem_or_eq_of_mem_set h

/-- A call that ends is only removed. -/
theorem mem_finish_price {i : ℕ} {c : PriceCall} (h : c ∈ (s.finish i).calls) : c ∈ s.calls :=
  List.mem_of_mem_eraseIdx h

/-- A call goes on with what it knows. -/
theorem PriceInvariant.goOn (h : PriceInvariant s) {i : ℕ} {call : PriceCall}
    (hcall : CallSound (s.goOn i call) call) : PriceInvariant (s.goOn i call) := by
  refine h.of_frame rfl rfl rfl (fun _ hu => hu) ?_ (fun r hr => Or.inl hr)
  intro c hmem
  refine (mem_goOn_price hmem).imp_right ?_
  rintro rfl
  exact hcall

/-! ## Stores -/

/-- A store adds to what was stored. -/
theorem extends_stored (s : SharedPrice) (u : PriceUpdate) (f : PriceField) :
    Extends s (s.stored u f) := by
  unfold SharedPrice.stored
  split_ifs
  · refine ⟨?_, fun _ h => h, ?_, fun _ h => h⟩
    · intro hsome
      simpa using hsome
    · intro g
      simp only
      split_ifs
      · exact List.sublist_cons_self u _
      · exact List.Sublist.refl _
  · exact ⟨fun h => h, fun _ h => h, fun _ => List.Sublist.refl _, fun _ h => h⟩

/-- After the store a field that the call brings has been stored by it. -/
theorem mem_stores_stored {u : PriceUpdate} {f : PriceField} (hbrings : u.brings f = true) :
    u ∈ (s.stored u f).stores f := by
  simp [SharedPrice.stored, hbrings]

/-- A call that stores a field goes on soundly to the next one. -/
theorem callSound_nextStore {u : PriceUpdate} {f g : PriceField} (hnext : f.nextStore = some g)
    (hcall : CallSound s (.updateStore u f)) : CallSound (s.stored u f) (.updateStore u g) := by
  obtain ⟨hknown, hsome, hstored⟩ := hcall.extend (extends_stored s u f)
  refine ⟨hknown, hsome, ?_⟩
  intro k hrank hbrings
  rw [storeRank_nextStore hnext] at hrank
  rcases Nat.lt_succ_iff_lt_or_eq.mp hrank with hlt | heq
  · exact hstored k hlt hbrings
  · rw [storeRank_injective heq] at hbrings ⊢
    exact mem_stores_stored hbrings

/-- The store of a field keeps the invariant. -/
theorem stored_invariant {u : PriceUpdate} {f : PriceField} (h : PriceInvariant s)
    (hcall : CallSound s (.updateStore u f)) : PriceInvariant (s.stored u f) := by
  have hext := extends_stored s u f
  obtain ⟨hknown, hsome, hstored⟩ := hcall
  by_cases hbrings : u.brings f = true
  · constructor
    · intro g v hv
      simp only [SharedPrice.stored, hbrings, if_true] at hv ⊢
      split_ifs at hv with hg
      · rcases List.mem_cons.mp hv with rfl | hold
        · exact ⟨hknown, Or.inl (hg ▸ hbrings)⟩
        · exact h.known g v hold
      · exact h.known g v hv
    · intro entry hentry g
      simp only [SharedPrice.stored, hbrings, if_true, Option.map_eq_some_iff] at hentry ⊢
      obtain ⟨old, hold, rfl⟩ := hentry
      rw [field_store]
      split_ifs with hg
      · exact ⟨u, s.stores g, rfl, rfl⟩
      · exact h.current old hold g
    · intro v hv g hvbrings
      simp only [SharedPrice.stored, hbrings, if_true] at hv
      split_ifs at hv with hlast
      · -- the timestamp is the last field to be stored
        rcases List.mem_cons.mp hv with rfl | hold
        · by_cases hg : g = f
          · rw [hg]
            exact mem_stores_stored hbrings
          · refine (hext.stores g).subset (hstored g ?_ hvbrings)
            subst hlast
            cases g <;> first | exact absurd rfl hg | decide
        · exact (hext.stores g).subset (h.complete v hold g hvbrings)
      · exact (hext.stores g).subset (h.complete v hv g hvbrings)
    · intro call hmem
      have hold : call ∈ s.calls := by
        simpa only [SharedPrice.stored, hbrings, if_true] using hmem
      exact (h.calls call hold).extend hext
    · intro r hr hvalid
      have hold : r ∈ s.returned := by
        simpa only [SharedPrice.stored, hbrings, if_true] using hr
      exact (h.returned r hold hvalid).extend hext
  · have hsame : s.stored u f = s := by simp [SharedPrice.stored, hbrings]
    rw [hsame]
    exact h

/-- The step of an update that stores a field keeps the invariant. -/
theorem updateStore_invariant {i : ℕ} {u : PriceUpdate} {f : PriceField} (h : PriceInvariant s)
    (hcall : CallSound s (.updateStore u f)) : PriceInvariant (s.updateStore i u f) := by
  have hstored := stored_invariant h hcall
  unfold SharedPrice.updateStore
  cases hnext : f.nextStore with
  | some g =>
    exact hstored.goOn (callSound_nextStore hnext hcall)
  | none =>
    exact hstored.of_frame rfl rfl rfl (fun _ hu => hu)
      (fun call hmem => Or.inl (mem_finish_price hmem)) (fun r hr => Or.inl hr)

/-- The slow path stores every field under the exclusive lock. -/
theorem updateCreate_invariant {i : ℕ} {u : PriceUpdate} (h : PriceInvariant s)
    (hcall : CallSound s (.updateCreate u)) : PriceInvariant (s.updateCreate i u) := by
  unfold SharedPrice.updateCreate
  split_ifs
  · exact h
  · have hext : Extends s
        { s.finish i with
          entry := some u.values
          stores := fun f => u :: s.stores f
          created := u :: s.created } :=
      ⟨fun _ => rfl, fun _ hu => hu, fun f => List.sublist_cons_self u _,
        fun _ hu => List.mem_cons_of_mem _ hu⟩
    constructor
    · intro f v hv
      rcases List.mem_cons.mp hv with rfl | hold
      · exact ⟨hcall, Or.inr List.mem_cons_self⟩
      · exact ⟨(h.known f v hold).1,
          (h.known f v hold).2.imp_right (List.mem_cons_of_mem _)⟩
    · intro entry hentry f
      cases hentry
      exact ⟨u, s.stores f, rfl, rfl⟩
    · intro v hv f hbrings
      rcases List.mem_cons.mp hv with rfl | hold
      · exact List.mem_cons_self
      · exact List.mem_cons_of_mem _ (h.complete v hold f hbrings)
    · intro call hmem
      exact (h.calls call (mem_finish_price hmem)).extend hext
    · intro r hr hvalid
      exact (h.returned r hr hvalid).extend hext

/-! ## Loads -/

/-- A load takes the newest value of the field, and the update that stored it. -/
theorem exists_loaded (h : PriceInvariant s) (hsome : s.entry.isSome = true)
    (seen : ReturnedPrice) (f : PriceField) :
    ∃ u rest, s.stores f = u :: rest ∧
      (∀ g, (s.loaded seen f).source g = if g = f then u else seen.source g) ∧
      (∀ g, (s.loaded seen f).data.field g =
        if g = f then u.values.field f else seen.data.field g) ∧
      (s.loaded seen f).data.valid = seen.data.valid := by
  obtain ⟨entry, hentry⟩ := Option.isSome_iff_exists.mp hsome
  obtain ⟨u, rest, hstores, hvalue⟩ := h.current entry hentry f
  have hloaded : s.loaded seen f =
      ⟨seen.data.load entry f, fun g => if g = f then u else seen.source g⟩ := by
    simp only [SharedPrice.loaded, hentry, hstores]
  refine ⟨u, rest, hstores, ?_, ?_, ?_⟩
  · intro g
    rw [hloaded]
  · intro g
    rw [hloaded, field_load]
    split_ifs with hg
    · rw [hg, hvalue]
    · rfl
  · rw [hloaded, valid_load]

/-- Every field up to the loaded one has been loaded. -/
theorem loaded_fields {seen : ReturnedPrice} {f : PriceField} (h : PriceInvariant s)
    (hcall : CallSound s (.getLoad f seen)) {g : PriceField} (hrank : loadRank g ≤ loadRank f) :
    Loaded s (s.loaded seen f) g := by
  obtain ⟨hsome, -, hearlier⟩ := hcall
  obtain ⟨u, rest, hstores, hsource, hdata, -⟩ := exists_loaded h hsome seen f
  rcases Nat.lt_or_eq_of_le hrank with hlt | heq
  · have hg : g ≠ f := fun hgf => absurd hlt (by rw [hgf]; exact lt_irrefl _)
    have hfirst : PriceField.timestamp ≠ f := by
      rintro rfl
      exact absurd hlt (Nat.not_lt_zero _)
    have hold := hearlier g hlt
    constructor
    · rw [hsource, if_neg hg]
      exact hold.stored
    · rw [hsource, hdata, if_neg hg, if_neg hg]
      exact hold.value
    · rw [hsource, hsource, if_neg hg, if_neg hfirst]
      exact hold.notOlder
  · have hg : g = f := loadRank_injective heq
    subst hg
    constructor
    · rw [hsource, if_pos rfl, hstores]
      exact List.mem_cons_self
    · rw [hsource, hdata, if_pos rfl, if_pos rfl]
    · by_cases hfirst : PriceField.timestamp = g
      · subst hfirst
        exact fun _ => Or.inl rfl
      · -- the update of the timestamp had stored this field before
        rw [hsource, hsource, if_pos rfl, if_neg hfirst]
        intro hbrings
        have hpos : loadRank .timestamp < loadRank g := by
          cases g <;> first | exact absurd rfl hfirst | decide
        have hstored := h.complete _ (hearlier _ hpos).stored g hbrings
        rw [hstores] at hstored ⊢
        rcases List.mem_cons.mp hstored with hsame | hbefore
        · exact Or.inl hsame.symm
        · exact Or.inr (List.Sublist.cons_cons u (List.singleton_sublist.mpr hbefore))

/-- The step of a reader that loads a field keeps the invariant. -/
theorem getLoad_invariant {i : ℕ} {f : PriceField} {seen : ReturnedPrice} (h : PriceInvariant s)
    (hcall : CallSound s (.getLoad f seen)) : PriceInvariant (s.getLoad i f seen) := by
  have hfields : ∀ g, loadRank g ≤ loadRank f → Loaded s (s.loaded seen f) g :=
    fun g hrank => loaded_fields h hcall hrank
  obtain ⟨hsome, hvalid, -⟩ := hcall
  obtain ⟨-, -, -, -, -, hstays⟩ := exists_loaded h hsome seen f
  unfold SharedPrice.getLoad
  cases hnext : f.nextLoad with
  | some g =>
    refine h.goOn ⟨hsome, hstays.trans hvalid, ?_⟩
    intro k hrank
    rw [loadRank_nextLoad hnext] at hrank
    exact (hfields k (Nat.lt_succ_iff.mp hrank)).extend
      ⟨fun h => h, fun _ hu => hu, fun _ => List.Sublist.refl _, fun _ hu => hu⟩
  | none =>
    refine h.of_frame rfl rfl rfl (fun _ hu => hu)
      (fun call hmem => Or.inl (mem_finish_price hmem)) ?_
    intro r hr
    refine (List.mem_append.mp hr).imp_right ?_
    intro hnew hrvalid
    rw [List.mem_singleton.mp hnew]
    have hall : ∀ g, Loaded s (s.loaded seen f) g := by
      intro g
      refine hfields g ?_
      rw [eq_last_of_nextLoad hnext]
      cases g <;> decide
    constructor
    · exact fun g => ⟨(h.known g _ (hall g).stored).1, (hall g).value⟩
    · exact fun g => (h.known g _ (hall g).stored).2
    · exact fun g => (hall g).notOlder

/-! ## Steps and runs -/

/-- Every step of a call keeps the invariant. -/
theorem advanceCall_invariant {i : ℕ} {call : PriceCall} (h : PriceInvariant s)
    (hcall : CallSound s call) : PriceInvariant (s.advanceCall i call) := by
  cases call with
  | updateLookup u =>
    simp only [SharedPrice.advanceCall, SharedPrice.updateLookup]
    cases hentry : s.entry with
    | some entry =>
      refine h.goOn ⟨hcall, by simp [SharedPrice.goOn, hentry], ?_⟩
      intro g hrank
      exact absurd hrank (Nat.not_lt_zero _)
    | none => exact h.goOn hcall
  | updateStore u f => exact updateStore_invariant h hcall
  | updateCreate u => exact updateCreate_invariant h hcall
  | getLookup =>
    simp only [SharedPrice.advanceCall, SharedPrice.getLookup]
    cases hentry : s.entry with
    | some entry =>
      refine h.goOn ⟨by simp [SharedPrice.goOn, hentry], rfl, ?_⟩
      intro g hrank
      exact absurd hrank (Nat.not_lt_zero _)
    | none =>
      refine h.of_frame rfl rfl rfl (fun _ hu => hu)
        (fun c hmem => Or.inl (mem_finish_price hmem)) ?_
      intro r hr
      refine (List.mem_append.mp hr).imp_right ?_
      intro hnew hvalid
      rw [List.mem_singleton.mp hnew] at hvalid
      cases hvalid
  | getLoad f seen => exact getLoad_invariant h hcall

/-- Every event keeps the invariant. -/
theorem priceStep_invariant (event : PriceEvent) (h : PriceInvariant s) :
    PriceInvariant (priceStep s event) := by
  cases event with
  | update values =>
    refine h.of_frame rfl rfl rfl (fun _ hu => List.mem_append_left _ hu) ?_
      (fun r hr => Or.inl hr)
    intro call hmem
    refine (List.mem_append.mp hmem).imp_right ?_
    intro hnew
    rw [List.mem_singleton.mp hnew]
    exact List.mem_append_right _ List.mem_cons_self
  | getPrice =>
    refine h.of_frame rfl rfl rfl (fun _ hu => hu) ?_ (fun r hr => Or.inl hr)
    intro call hmem
    refine (List.mem_append.mp hmem).imp_right ?_
    intro hnew
    rw [List.mem_singleton.mp hnew]
    trivial
  | advance i =>
    simp only [priceStep]
    cases hcall : s.calls[i]? with
    | none => exact h
    | some call => exact advanceCall_invariant h (h.calls call (List.mem_of_getElem? hcall))

/-- Nothing is stored or read at the start. -/
theorem priceInvariant_initial : PriceInvariant {} where
  known := by simp
  current := by simp
  complete := by simp
  calls := by simp
  returned := by simp

/-! ## Stores that overlap no other call -/

/-- A call that is storing shares the lock with no other call. -/
def Undisturbed (s : SharedPrice) : Prop :=
  ∀ p ∈ s.calls.zipIdx, p.1.isStoring = true →
    ∀ q ∈ s.calls.zipIdx, q.1.holdsLock = true → p.2 = q.2

instance (s : SharedPrice) : Decidable (Undisturbed s) :=
  inferInstanceAs (Decidable (∀ p ∈ s.calls.zipIdx, p.1.isStoring = true →
    ∀ q ∈ s.calls.zipIdx, q.1.holdsLock = true → p.2 = q.2))

/-- What the calls under the lock have stored or seen is the newest. -/
def SerialCall (s : SharedPrice) : PriceCall → Prop
  | .updateStore u f =>
    ∀ g, storeRank g < storeRank f → u.brings g = true → (s.stores g).head? = some u
  | .getLoad f seen =>
    ∀ g, loadRank g < loadRank f → (s.stores g).head? = some (seen.source g)
  | _ => True

structure Serial (s : SharedPrice) : Prop where
  /-- Between the stores of two calls the entry is that of one call. -/
  settled : (∀ call ∈ s.calls, call.isStoring = false) → s.entry.isSome = true →
    ∃ u : PriceUpdate, ∀ f, u.brings f = true → (s.stores f).head? = some u
  calls : ∀ call ∈ s.calls, SerialCall s call
  returned : ∀ r ∈ s.returned, r.data.valid = true → FromOneUpdate r

/-- A call without the lock has nothing to show for the serial order. -/
theorem serialCall_of_not_holdsLock {call : PriceCall} (h : call.holdsLock = false) :
    SerialCall s call := by
  cases call with
  | updateStore u f => cases h
  | getLoad f seen => cases h
  | _ => trivial

/-- A call that is storing is the only one under the lock. -/
theorem Undisturbed.alone (h : Undisturbed s) {i j : ℕ} {call c : PriceCall}
    (hcall : s.calls[i]? = some call) (hstoring : call.isStoring = true)
    (hc : s.calls[j]? = some c) (hne : j ≠ i) : c.holdsLock = false := by
  rw [← Bool.not_eq_true]
  intro hholds
  exact hne (h (call, i) (List.mem_zipIdx_iff_getElem?.mpr hcall) hstoring (c, j)
    (List.mem_zipIdx_iff_getElem?.mpr hc) hholds).symm

/-- The other calls are still there after a call has gone on or returned. -/
theorem mem_calls_of_ne {i j : ℕ} {call c : PriceCall} (hc : s.calls[j]? = some c)
    (hne : j ≠ i) : c ∈ (s.goOn i call).calls ∧ c ∈ (s.finish i).calls := by
  constructor
  · refine List.mem_of_getElem? (i := j) ?_
    rw [SharedPrice.goOn, List.getElem?_set_ne hne.symm]
    exact hc
  · exact List.mem_eraseIdx_iff_getElem?.mpr ⟨j, hne, hc⟩

/-- The calls after one has gone on. -/
theorem mem_goOn_index {i : ℕ} {call c : PriceCall} (h : c ∈ (s.goOn i call).calls) :
    c = call ∨ ∃ j, j ≠ i ∧ s.calls[j]? = some c := by
  obtain ⟨j, hj⟩ := List.getElem?_of_mem h
  by_cases hij : j = i
  · subst hij
    rw [SharedPrice.goOn, List.getElem?_set_self'] at hj
    obtain ⟨_, -, rfl⟩ := Option.map_eq_some_iff.mp hj
    exact Or.inl rfl
  · rw [SharedPrice.goOn, List.getElem?_set_ne (Ne.symm hij)] at hj
    exact Or.inr ⟨j, hij, hj⟩

/-- A step that stores nothing. -/
theorem Serial.of_frame (h : Serial s) (hentry : s'.entry = s.entry)
    (hstores : s'.stores = s.stores)
    (hstoring : (∀ call ∈ s'.calls, call.isStoring = false) →
      ∀ call ∈ s.calls, call.isStoring = false)
    (hcalls : ∀ call ∈ s'.calls, call ∈ s.calls ∨ SerialCall s' call)
    (hreturned : ∀ r ∈ s'.returned,
      r ∈ s.returned ∨ (r.data.valid = true → FromOneUpdate r)) : Serial s' where
  settled := by
    rw [hentry, hstores]
    exact fun hnone => h.settled (hstoring hnone)
  calls := by
    intro call hmem
    rcases hcalls call hmem with hold | hnew
    · have hserial := h.calls call hold
      cases call with
      | updateStore u f => simpa only [SerialCall, hstores] using hserial
      | getLoad f seen => simpa only [SerialCall, hstores] using hserial
      | _ => trivial
    · exact hnew
  returned := by
    intro r hr hvalid
    rcases hreturned r hr with hold | hnew
    · exact h.returned r hold hvalid
    · exact hnew hvalid

/-- A call that goes on keeps the serial order if its own facts hold behind the step. -/
theorem Serial.goOn (h : Serial s) {i : ℕ} {call : PriceCall}
    (hstoring : (∀ c ∈ (s.goOn i call).calls, c.isStoring = false) →
      ∀ c ∈ s.calls, c.isStoring = false)
    (hcall : SerialCall (s.goOn i call) call) : Serial (s.goOn i call) := by
  refine h.of_frame rfl rfl hstoring ?_ (fun r hr => Or.inl hr)
  intro c hc
  refine (mem_goOn_price hc).imp_right ?_
  rintro rfl
  exact hcall

/-- An undisturbed update keeps the serial order. -/
theorem updateStore_serial {i : ℕ} {u : PriceUpdate} {f : PriceField} (h : Serial s)
    (hundisturbed : Undisturbed s) (hcall : s.calls[i]? = some (.updateStore u f)) :
    Serial (s.updateStore i u f) := by
  have hmem := List.mem_of_getElem? hcall
  have hearlier : ∀ g, storeRank g < storeRank f → u.brings g = true →
      (s.stores g).head? = some u := h.calls _ hmem
  -- the new heads, up to and including this store
  have hheads : ∀ g, storeRank g ≤ storeRank f → u.brings g = true →
      ((s.stored u f).stores g).head? = some u := by
    intro g hrank hbrings
    simp only [SharedPrice.stored]
    by_cases hg : g = f
    · subst hg
      simp [hbrings]
    · have hlt : storeRank g < storeRank f :=
        lt_of_le_of_ne hrank fun heq => hg (storeRank_injective heq)
      split_ifs
      · simpa [hg] using hearlier g hlt hbrings
      · exact hearlier g hlt hbrings
  have hstoredReturned : (s.stored u f).returned = s.returned := by
    unfold SharedPrice.stored
    split_ifs <;> rfl
  have hstoredCalls : (s.stored u f).calls = s.calls := by
    unfold SharedPrice.stored
    split_ifs <;> rfl
  have hothers : ∀ (s' : SharedPrice) (c : PriceCall), (∃ j, j ≠ i ∧ s.calls[j]? = some c) →
      SerialCall s' c := by
    rintro s' c ⟨j, hne, hc⟩
    exact serialCall_of_not_holdsLock (hundisturbed.alone hcall rfl hc hne)
  unfold SharedPrice.updateStore
  cases hnext : f.nextStore with
  | some g =>
    refine ⟨?_, ?_, ?_⟩
    · intro hnone
      have hnew : PriceCall.updateStore u g ∈
          ((s.stored u f).goOn i (.updateStore u g)).calls := by
        rw [SharedPrice.goOn, hstoredCalls]
        exact List.mem_set (List.getElem?_eq_some_iff.mp hcall).1 _
      cases hnone _ hnew
    · intro c hc
      rcases mem_goOn_index hc with rfl | hother
      · intro k hrank hbrings
        rw [storeRank_nextStore hnext] at hrank
        exact hheads k (Nat.lt_succ_iff.mp hrank) hbrings
      · rw [hstoredCalls] at hother
        exact hothers _ c hother
    · intro r hr
      exact h.returned r (hstoredReturned ▸ hr)
  | none =>
    refine ⟨?_, ?_, ?_⟩
    · intro _ _
      refine ⟨u, fun g hbrings => hheads g ?_ hbrings⟩
      rw [eq_timestamp_of_nextStore hnext]
      cases g <;> decide
    · intro c hc
      rw [SharedPrice.finish, hstoredCalls] at hc
      exact hothers _ c (List.mem_eraseIdx_iff_getElem?.mp hc)
    · intro r hr
      exact h.returned r (hstoredReturned ▸ hr)

/-- The creation of an entry keeps it. -/
theorem updateCreate_serial {i : ℕ} {u : PriceUpdate} (h : Serial s) :
    Serial (s.updateCreate i u) := by
  unfold SharedPrice.updateCreate
  split_ifs with hlocked
  · exact h
  · refine ⟨fun _ _ => ⟨u, fun f _ => rfl⟩, ?_, h.returned⟩
    intro c hc
    refine serialCall_of_not_holdsLock ?_
    rw [← Bool.not_eq_true]
    exact fun hholds => hlocked (List.any_eq_true.mpr ⟨c, mem_finish_price hc, hholds⟩)

/-- An undisturbed load keeps it. -/
theorem getLoad_serial {i : ℕ} {f : PriceField} {seen : ReturnedPrice} (hinv : PriceInvariant s)
    (h : Serial s) (hundisturbed : Undisturbed s)
    (hcall : s.calls[i]? = some (.getLoad f seen)) : Serial (s.getLoad i f seen) := by
  have hmem := List.mem_of_getElem? hcall
  obtain ⟨hsome, hvalid, -⟩ := hinv.calls _ hmem
  have hearlier : ∀ g, loadRank g < loadRank f → (s.stores g).head? = some (seen.source g) :=
    h.calls _ hmem
  obtain ⟨u, rest, hstores, hsource, -, -⟩ := exists_loaded hinv hsome seen f
  have hheads : ∀ g, loadRank g ≤ loadRank f →
      (s.stores g).head? = some ((s.loaded seen f).source g) := by
    intro g hrank
    rw [hsource]
    split_ifs with hg
    · rw [hg, hstores]
      rfl
    · exact hearlier g (lt_of_le_of_ne hrank fun heq => hg (loadRank_injective heq))
  -- nobody stores while this call holds the lock
  have hnone : ∀ c ∈ s.calls, c.isStoring = false := by
    intro c hc
    rw [← Bool.not_eq_true]
    intro hstoring
    obtain ⟨j, hj⟩ := List.getElem?_of_mem hc
    by_cases hij : j = i
    · subst hij
      rw [hcall] at hj
      cases hj
      cases hstoring
    · have hholds := hundisturbed.alone hj hstoring hcall (Ne.symm hij)
      cases hholds
  unfold SharedPrice.getLoad
  cases hnext : f.nextLoad with
  | some g =>
    refine h.goOn (fun _ => hnone) ?_
    intro k hrank
    rw [loadRank_nextLoad hnext] at hrank
    exact hheads k (Nat.lt_succ_iff.mp hrank)
  | none =>
    refine h.of_frame rfl rfl (fun _ => hnone) (fun c hc => Or.inl (mem_finish_price hc)) ?_
    intro r hr
    refine (List.mem_append.mp hr).imp_right ?_
    intro hnew _
    rw [List.mem_singleton.mp hnew]
    obtain ⟨v, hsettled⟩ := h.settled hnone hsome
    have hall : ∀ g, (s.stores g).head? = some ((s.loaded seen f).source g) := by
      intro g
      refine hheads g ?_
      rw [eq_last_of_nextLoad hnext]
      cases g <;> decide
    have hone : ∀ g, v.brings g = true → (s.loaded seen f).source g = v := by
      intro g hbrings
      exact Option.some.inj ((hall g).symm.trans (hsettled g hbrings))
    intro g hbrings
    have htime := hone .timestamp rfl
    rw [htime] at hbrings ⊢
    exact hone g hbrings

/-- A call that is not storing goes on or returns. -/
theorem storing_of_ne {i : ℕ} {call : PriceCall} (hcall : s.calls[i]? = some call)
    (hidle : call.isStoring = false) (call' : PriceCall) :
    ((∀ c ∈ (s.goOn i call').calls, c.isStoring = false) → ∀ c ∈ s.calls, c.isStoring = false) ∧
      ((∀ c ∈ (s.finish i).calls, c.isStoring = false) →
        ∀ c ∈ s.calls, c.isStoring = false) := by
  have hsplit : ∀ c ∈ s.calls, c = call ∨
      c ∈ (s.goOn i call').calls ∧ c ∈ (s.finish i).calls := by
    intro c hc
    obtain ⟨j, hj⟩ := List.getElem?_of_mem hc
    by_cases hij : j = i
    · subst hij
      rw [hcall, Option.some.injEq] at hj
      exact Or.inl hj.symm
    · exact Or.inr (mem_calls_of_ne hj hij)
  constructor
  · intro hnone c hc
    rcases hsplit c hc with rfl | hkept
    · exact hidle
    · exact hnone c hkept.1
  · intro hnone c hc
    rcases hsplit c hc with rfl | hkept
    · exact hidle
    · exact hnone c hkept.2

/-- Every undisturbed event keeps it. -/
theorem priceStep_serial (event : PriceEvent) (hinv : PriceInvariant s) (h : Serial s)
    (hundisturbed : Undisturbed s) : Serial (priceStep s event) := by
  have hbegin : ∀ (s' : SharedPrice) (call : PriceCall), call.holdsLock = false →
      s'.calls = s.calls ++ [call] → s'.entry = s.entry → s'.stores = s.stores →
        s'.returned = s.returned → Serial s' := by
    intro s' call hfree hcalls hentry hstores hreturned
    refine h.of_frame hentry hstores ?_ ?_ ?_
    · intro hnone c hc
      exact hnone c (hcalls ▸ List.mem_append_left _ hc)
    · intro c hc
      rw [hcalls] at hc
      refine (List.mem_append.mp hc).imp_right ?_
      intro hnew
      rw [List.mem_singleton.mp hnew]
      exact serialCall_of_not_holdsLock hfree
    · intro r hr
      exact Or.inl (hreturned ▸ hr)
  cases event with
  | update values => exact hbegin _ _ rfl rfl rfl rfl rfl
  | getPrice => exact hbegin _ _ rfl rfl rfl rfl rfl
  | advance i =>
    simp only [priceStep]
    cases hcall : s.calls[i]? with
    | none => exact h
    | some call =>
      cases call with
      | updateLookup u =>
        simp only [SharedPrice.advanceCall, SharedPrice.updateLookup]
        cases s.entry with
        | some entry =>
          refine h.goOn (storing_of_ne hcall rfl _).1 ?_
          intro g hrank
          exact absurd hrank (Nat.not_lt_zero _)
        | none => exact h.goOn (storing_of_ne hcall rfl _).1 trivial
      | updateStore u f => exact updateStore_serial h hundisturbed hcall
      | updateCreate u => exact updateCreate_serial h
      | getLookup =>
        simp only [SharedPrice.advanceCall, SharedPrice.getLookup]
        cases s.entry with
        | some entry =>
          refine h.goOn (storing_of_ne hcall rfl _).1 ?_
          intro g hrank
          exact absurd hrank (Nat.not_lt_zero _)
        | none =>
          refine h.of_frame rfl rfl (storing_of_ne hcall rfl .getLookup).2
            (fun c hc => Or.inl (mem_finish_price hc)) ?_
          intro r hr
          refine (List.mem_append.mp hr).imp_right ?_
          intro hnew hvalid
          rw [List.mem_singleton.mp hnew] at hvalid
          cases hvalid
      | getLoad f seen => exact getLoad_serial hinv h hundisturbed hcall

/-- Nothing is under way at the start. -/
theorem serial_initial : Serial {} where
  settled := by simp
  calls := by simp
  returned := by simp

/-- In every interleaving each field of a returned price is of one call of `update`, none older
than the timestamp; a size is of a call that brought one or created the entry.  Where the stores
of an update overlap no other call, the prices and the timestamp are of one call, and so are the
sizes that it brought. -/
theorem returnedPrice_source (events : List PriceEvent) :
    let s := runPrices events
    (∀ r ∈ s.returned, r.data.valid = true → FromUpdates s r) ∧
      (Run.Along (fun s _ => Undisturbed s) priceStep {} events →
        ∀ r ∈ s.returned, r.data.valid = true → FromOneUpdate r) := by
  intro s
  constructor
  · have hinv : PriceInvariant s := List.foldlRecOn events priceStep priceInvariant_initial
      fun _ h event _ => priceStep_invariant event h
    exact hinv.returned
  · intro hrun
    have hserial := Run.invariant (fun s => PriceInvariant s ∧ Serial s)
      (fun _ event h hundisturbed => ⟨priceStep_invariant event h.1,
        priceStep_serial event h.1 h.2 hundisturbed⟩)
      events {} ⟨priceInvariant_initial, serial_initial⟩ hrun
    exact hserial.2.returned

/-! ## Reads of two updates -/

/-- A quote with both sizes. -/
def sizedQuote : PriceEntry where
  bid := 1000
  ask := 1005
  bidQty := 5
  askQty := 6
  last := 1000
  timestamp := 100

/-- A later quote, of which each size is given. -/
def laterQuote (qty : ℚ) : PriceEntry where
  bid := 1010
  ask := 1015
  bidQty := qty
  askQty := qty
  last := 1010
  timestamp := 200

/-- A `get_price` that no other call overlaps. -/
def getPriceAlone : List PriceEvent := .getPrice :: List.replicate 7 (.advance 0)

/-- A reader behind two updates returns the fields of the second. -/
theorem returnedPrice_source_inTurn :
    let s := runPrices (updateAlone sizedQuote ++ updateAlone (laterQuote 7) ++ getPriceAlone)
    s.returned.length = 1 ∧ ∀ r ∈ s.returned, r.data.valid = true → FromOneUpdate r := by
  refine ⟨by decide +kernel, ?_⟩
  exact (returnedPrice_source _).2 (by decide +kernel)

/-- The second update brings no size, and its prices are returned with the sizes of the first. -/
theorem sizes_of_earlier_update :
    ¬ ∀ (events : List PriceEvent), ∀ r ∈ (runPrices events).returned, r.data.valid = true →
      ∃ u ∈ (runPrices events).updates, r.data = u.values.priceData := by
  intro h
  have hread := h (updateAlone sizedQuote ++ updateAlone (laterQuote 0) ++ getPriceAlone)
  revert hread
  decide +kernel

/-- A read between the first two stores sees the new bid and the old ask. -/
example :
    let events := updateAlone sizedQuote ++
      [.update (laterQuote 7), .advance 0, .advance 0] ++
        .getPrice :: List.replicate 7 (.advance 1)
    (runPrices events).returned.map (fun r => (r.data.bid, r.data.ask)) = [(1010, 1005)] := by
  decide +kernel

end SpotRelay.Analysis
