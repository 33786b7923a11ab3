import Mathlib.Tactic.Common
import SpotRelay.Model.SpotRelayLive

/-!
# The best prices of the live books

The best bid and the best ask of a book are kept beside its levels and only looked for again where
the best level is deleted.  A price of zero stands for an empty side, which is safe because no level
has it.

* **one level** that is written or removed leaves the side with its best price (`keepsBest_write`,
  `keepsBest_remove`).
* **a message** leaves every book so (`allKeepBests_onBithumbMessage`), the second look behind it
  included (`allKeepBests_recheck`), and so does any sequence of messages
  (`allKeepBests_runMessages`).
-/

set_option autoImplicit false

namespace SpotRelay.Analysis

open SpotRelay.Model.SpotRelayLive SpotRelay.Library

open InsertionMap (IsBest keepBetter mem_set mem_delete)

/-! ## Numbers -/

/-- No number is less than itself. -/
theorem jsNumber_lt_irrefl (a : JsNumber) : ¬ a < a := by
  cases a with
  | finite x => exact lt_irrefl x
  | _ => exact id

/-- The order of numbers is transitive; NaN has no part in it. -/
theorem jsNumber_lt_trans {a b c : JsNumber} (hab : a < b) (hbc : b < c) : a < c := by
  cases a <;> cases b <;> first | exact hab.elim | skip
  all_goals cases c <;> first | exact hbc.elim | exact trivial | skip
  rename_i x y z
  have hxy : x < y := hab
  exact hxy.trans hbc

/-- Positive numbers can be compared. -/
theorem jsNumber_trichotomy {a b : JsNumber} (ha : 0 < a) (hb : 0 < b) (hne : a ≠ b) :
    a < b ∨ b < a := by
  cases a <;> first | exact ha.elim | skip
  all_goals cases b <;> first | exact hb.elim | skip
  · rename_i x y
    have hxy : x ≠ y := fun h => hne (congrArg JsNumber.finite h)
    exact lt_or_gt_of_ne hxy
  · exact Or.inl trivial
  · exact Or.inr trivial
  · exact absurd rfl hne

/-- A positive number is not at most zero. -/
theorem jsNumber_not_le_zero {a : JsNumber} (ha : 0 < a) : ¬ a ≤ 0 := by
  rintro (hlt | ⟨rfl, -⟩)
  · exact jsNumber_lt_irrefl 0 (jsNumber_lt_trans ha hlt)
  · exact jsNumber_lt_irrefl 0 ha

/-- A finite number that is not below nil is above it. -/
theorem jsNumber_pos_of_not_le {a : JsNumber} (hfinite : a.isFinite = true) (hle : ¬ a ≤ 0) :
    0 < a := by
  cases a with
  | finite x =>
    rcases lt_trichotomy x 0 with hneg | rfl | hpos
    · exact absurd (Or.inl hneg) hle
    · exact absurd (Or.inr ⟨rfl, by simp⟩) hle
    · exact hpos
  | _ => cases hfinite

/-- Higher prices first. -/
def Higher (a b : JsNumber) : Prop := b < a

/-- Lower prices first. -/
def Lower (a b : JsNumber) : Prop := a < b

instance : DecidableRel Higher := fun a b => JsNumber.decidableLt b a

instance : DecidableRel Lower := fun a b => JsNumber.decidableLt a b

instance : IsStrictOrder JsNumber Higher where
  irrefl := jsNumber_lt_irrefl
  trans _ _ _ hab hbc := jsNumber_lt_trans hbc hab

instance : IsStrictOrder JsNumber Lower where
  irrefl := jsNumber_lt_irrefl
  trans _ _ _ hab hbc := jsNumber_lt_trans hab hbc

/-! ## One side -/

/-- Which prices come first on a side, as its recomputation and its writes test it. -/
structure Ranks (before : JsNumber → JsNumber → Prop) (takes beats : JsNumber → JsNumber → Bool) :
    Prop where
  total : ∀ a b, 0 < a → 0 < b → a ≠ b → before a b ∨ before b a
  takes_zero : ∀ a, 0 < a → takes a 0 = true
  takes_iff : ∀ a b, 0 < a → 0 < b → (takes a b = true ↔ before a b)
  beats_iff : ∀ a b, 0 < a → 0 < b → (beats a b = true ↔ before a b)

/-- For bids, higher is better, in the scan and in the comparison alike. -/
theorem ranks_bids : Ranks Higher bidTakes bidTakes where
  total _ _ ha hb hne := (jsNumber_trichotomy ha hb hne).symm
  takes_zero _ ha := decide_eq_true ha
  takes_iff _ _ _ _ := decide_eq_true_iff
  beats_iff _ _ _ _ := decide_eq_true_iff

/-- For asks, lower is better, and the empty best gives way to any price. -/
theorem ranks_asks : Ranks Lower askTakes askBeats where
  total _ _ ha hb hne := jsNumber_trichotomy ha hb hne
  takes_zero _ _ := decide_eq_true (Or.inl rfl)
  takes_iff _ b _ hb := by
    have hne : b ≠ 0 := by
      rintro rfl
      exact jsNumber_lt_irrefl 0 hb
    rw [askTakes, decide_eq_true_iff]
    exact or_iff_right hne
  beats_iff _ _ _ _ := decide_eq_true_iff

/-- Levels of positive price and size. -/
def Positive (levels : InsertionMap JsNumber JsNumber) : Prop :=
  ∀ e ∈ levels.entries, 0 < e.1 ∧ 0 < e.2

/-- The best price of a side is that of its best level, and nil where it has none. -/
structure KeepsBest (before : JsNumber → JsNumber → Prop) (side : BookSide) : Prop where
  positive : Positive side.levels
  best : ∃ level, IsBest before side.levels level ∧ (side.best, side.bestQty) = level.getD (0, 0)

/-- An empty side has no price at all. -/
theorem positive_empty : Positive .empty := by
  intro e he
  cases he

/-- A positive level leaves the side positive. -/
theorem Positive.set {levels : InsertionMap JsNumber JsNumber} (h : Positive levels)
    {price qty : JsNumber} (hprice : 0 < price) (hqty : 0 < qty) :
    Positive (levels.set price qty) := by
  intro e he
  rcases mem_set.mp he with rfl | ⟨he, -⟩
  · exact ⟨hprice, hqty⟩
  · exact h e he

/-- A level that is removed leaves the side positive. -/
theorem Positive.delete {levels : InsertionMap JsNumber JsNumber} (h : Positive levels)
    (price : JsNumber) : Positive (levels.delete price) := by
  intro e he
  exact h e (mem_delete.mp he).1

section Side

variable {before : JsNumber → JsNumber → Prop} [DecidableRel before]
  {takes beats : JsNumber → JsNumber → Bool} (hranks : Ranks before takes beats)

include hranks

/-- A recomputation is a scan for the best level. -/
theorem foldl_recomputeStep (entries : List (JsNumber × JsNumber))
    (hpos : ∀ e ∈ entries, 0 < e.1 ∧ 0 < e.2) (best : Option (JsNumber × JsNumber))
    (hbest : ∀ b ∈ best, 0 < b.1) :
    entries.foldl (recomputeStep takes) (best.getD (0, 0)) =
      (entries.foldl (keepBetter before) best).getD (0, 0) := by
  induction entries generalizing best with
  | nil => rfl
  | cons e entries ih =>
    obtain ⟨hprice, hqty⟩ := hpos e (by simp)
    have hrest : ∀ f ∈ entries, 0 < f.1 ∧ 0 < f.2 := fun f hf => hpos f (by simp [hf])
    rw [List.foldl_cons, List.foldl_cons]
    have hstep : recomputeStep takes (best.getD (0, 0)) e =
        (keepBetter before best e).getD (0, 0) := by
      rw [recomputeStep, if_neg (jsNumber_not_le_zero hqty)]
      cases best with
      | none => exact if_pos (hranks.takes_zero e.1 hprice)
      | some b =>
        have htakes := hranks.takes_iff e.1 b.1 hprice (hbest b rfl)
        by_cases hbefore : before e.1 b.1
        · rw [keepBetter, if_pos hbefore]
          exact if_pos (htakes.mpr hbefore)
        · rw [keepBetter, if_neg hbefore]
          exact if_neg fun h => hbefore (htakes.mp h)
    rw [hstep]
    apply ih hrest
    intro b hb
    cases best with
    | none =>
      obtain rfl := Option.mem_some_iff.mp hb
      exact hprice
    | some old =>
      unfold keepBetter at hb
      dsimp only at hb
      split_ifs at hb
      · obtain rfl := Option.mem_some_iff.mp hb
        exact hprice
      · obtain rfl := Option.mem_some_iff.mp hb
        exact hbest _ rfl

/-- What a recomputation finds is the best level. -/
theorem recompute_fields {side : BookSide} (hpos : Positive side.levels) :
    ((side.recompute takes).best, (side.recompute takes).bestQty) =
      (side.levels.scan before).getD (0, 0) :=
  foldl_recomputeStep hranks side.levels.entries hpos none (by simp)

variable [IsStrictOrder JsNumber before]

/-- The scan of a positive side finds its best price. -/
theorem isBest_scan_of_positive {levels : InsertionMap JsNumber JsNumber} (hpos : Positive levels) :
    IsBest before levels (levels.scan before) := by
  apply InsertionMap.isBest_scan
  intro e he f hf hne
  exact hranks.total e.1 f.1 (hpos e he).1 (hpos f hf).1 hne

/-- A recomputed side has its best price. -/
theorem keepsBest_recompute {side : BookSide} (hpos : Positive side.levels) :
    KeepsBest before (side.recompute takes) :=
  ⟨hpos, _, isBest_scan_of_positive hranks hpos, recompute_fields hranks hpos⟩

/-- A side that keeps its best level is not changed by a recomputation. -/
theorem recompute_of_keepsBest {side : BookSide} (h : KeepsBest before side) :
    side.recompute takes = side := by
  obtain ⟨level, hbest, hfields⟩ := h.best
  have hfound := recompute_fields hranks h.positive
  rw [(isBest_scan_of_positive hranks h.positive).unique hbest, ← hfields] at hfound
  obtain ⟨hprice, hqty⟩ := Prod.mk.inj hfound
  cases side
  simp only [BookSide.recompute, BookSide.mk.injEq, true_and] at hprice hqty ⊢
  exact ⟨hprice, hqty⟩

/-- A removed level leaves the side with its best price. -/
theorem keepsBest_remove {side : BookSide} (h : KeepsBest before side) (price : JsNumber) :
    KeepsBest before (side.remove takes price) := by
  have hpos : Positive (side.levels.delete price) := h.positive.delete price
  unfold BookSide.remove
  dsimp only
  split_ifs with hsame
  · exact keepsBest_recompute hranks hpos
  · obtain ⟨level, hbest, hfields⟩ := h.best
    refine ⟨hpos, level, ?_, hfields⟩
    cases level with
    | none => exact hbest.delete_none
    | some b =>
      refine hbest.delete_other fun hkey => hsame ?_
      rw [← hkey]
      exact (Prod.mk.inj hfields).1

omit [DecidableRel before] in
/-- A level that is written leaves the side with its best price. -/
theorem keepsBest_write {side : BookSide} (h : KeepsBest before side) {price qty : JsNumber}
    (hprice : 0 < price) (hqty : 0 < qty) : KeepsBest before (side.write beats price qty) := by
  have hpos : Positive (side.levels.set price qty) := h.positive.set hprice hqty
  obtain ⟨level, hbest, hfields⟩ := h.best
  unfold BookSide.write
  dsimp only
  cases level with
  | none =>
    have hempty : side.best = 0 := (Prod.mk.inj hfields).1
    rw [if_pos (Or.inr hempty)]
    exact ⟨hpos, _, hbest.set_first qty, rfl⟩
  | some b =>
    obtain ⟨hkey, hsize⟩ : side.best = b.1 ∧ side.bestQty = b.2 := Prod.mk.inj hfields
    have hknown : 0 < b.1 := (h.positive b hbest.1).1
    have hbeats := hranks.beats_iff price b.1 hprice hknown
    rw [hkey]
    -- better than the best level, at it, or behind it
    split_ifs with htop hsame
    · have hbefore : before price b.1 := by
        refine hbeats.mp (htop.resolve_right fun hzero => ?_)
        rw [hzero] at hknown
        exact jsNumber_lt_irrefl 0 hknown
      exact ⟨hpos, _, hbest.set_before hbefore qty, rfl⟩
    · rw [hsame] at hpos ⊢
      exact ⟨hpos, _, hbest.set_same qty, rfl⟩
    · have hafter : before b.1 price :=
        (hranks.total price b.1 hprice hknown hsame).resolve_left fun hbefore =>
          htop (Or.inl (hbeats.mpr hbefore))
      refine ⟨hpos, _, hbest.set_after hafter qty, ?_⟩
      show (b.1, side.bestQty) = b
      rw [hsize]

end Side

/-! ## Books -/

/-- Both sides keep their best level. -/
structure KeepsBests (book : Book) : Prop where
  bids : KeepsBest Higher book.bids
  asks : KeepsBest Lower book.asks

def AllKeepBests (books : Books) : Prop := ∀ e ∈ books.entries, KeepsBests e.2

/-- A recomputed book has both best prices. -/
theorem keepsBests_recompute {book : Book} (hbids : Positive book.bids.levels)
    (hasks : Positive book.asks.levels) :
    KeepsBests (recomputeBestAsk (recomputeBestBid book)) :=
  ⟨keepsBest_recompute ranks_bids hbids, keepsBest_recompute ranks_asks hasks⟩

/-- A row leaves both sides of its book with their best levels. -/
theorem keepsBests_applyRow {book : Book} (h : KeepsBests book) (isBid : Bool)
    {price : JsNumber} (hprice : 0 < price) (qty : JsNumber) (now : ℕ) :
    KeepsBests (applyRow book isBid price qty now) := by
  unfold applyRow
  dsimp only
  by_cases hgone : qty.isFinite = false ∨ qty ≤ 0
  · rw [if_pos hgone]
    cases isBid with
    | true => exact ⟨keepsBest_remove ranks_bids h.bids price, h.asks⟩
    | false => exact ⟨h.bids, keepsBest_remove ranks_asks h.asks price⟩
  · rw [if_neg hgone]
    obtain ⟨hfinite, hle⟩ := not_or.mp hgone
    have hqty : 0 < qty := jsNumber_pos_of_not_le (by simpa using hfinite) hle
    cases isBid with
    | true => exact ⟨keepsBest_write ranks_bids h.bids hprice hqty, h.asks⟩
    | false => exact ⟨h.bids, keepsBest_write ranks_asks h.asks hprice hqty⟩

/-- A book with its best prices may replace any other. -/
theorem AllKeepBests.set {books : Books} (h : AllKeepBests books) (base : String) {book : Book}
    (hbook : KeepsBests book) : AllKeepBests (books.set base book) := by
  intro e he
  rcases mem_set.mp he with rfl | ⟨he, -⟩
  · exact hbook
  · exact h e he

/-- Each book has its best prices. -/
theorem AllKeepBests.get {books : Books} (h : AllKeepBests books) {base : String} {book : Book}
    (hget : books.get? base = some book) : KeepsBests book :=
  h _ (InsertionMap.get?_eq_some_iff.mp hget)

/-! ## The snapshot -/

section Coercions

variable (number : JsValue → Option JsNumber) (text : JsValue → Option String)

/-- Only positive levels are seeded. -/
theorem positive_seedLevels (entries : List JsValue)
    {levels seeded : InsertionMap JsNumber JsNumber} (hpos : Positive levels) (h : seedLevels number levels entries = some seeded) :
    Positive seeded := by
  induction entries generalizing levels with
  | nil =>
    obtain rfl := Option.some.inj h
    exact hpos
  | cons entry entries ih =>
    simp only [seedLevels, Option.bind_eq_bind, Option.bind_eq_some_iff] at h
    obtain ⟨-, -, price, -, -, -, qty, -, hrest⟩ := h
    refine ih ?_ hrest
    split_ifs with hkept
    · exact hpos.set hkept.1 hkept.2
    · exact hpos

/-- All books have their best prices behind the seeding. -/
theorem allKeepBests_seed (entries : List ((String × JsValue) × ℕ)) {books seeded : Books}
    (hbooks : AllKeepBests books) (h : seedBithumbBooks number books entries = some seeded) :
    AllKeepBests seeded := by
  induction entries generalizing books with
  | nil =>
    obtain rfl := Option.some.inj h
    exact hbooks
  | cons entry entries ih =>
    obtain ⟨⟨base, value⟩, now⟩ := entry
    unfold seedBithumbBooks at h
    split_ifs at h
    · exact ih hbooks h
    · simp only [Option.bind_eq_bind, Option.bind_eq_some_iff] at h
      obtain ⟨book, hbook, hrest⟩ := h
      refine ih (hbooks.set base ?_) hrest
      simp only [seedBook, Option.bind_eq_bind, Option.bind_eq_some_iff] at hbook
      obtain ⟨_, -, _, -, bids, hbids, _, -, _, -, asks, hasks, hmade⟩ := hbook
      obtain rfl := Option.some.inj hmade
      apply keepsBests_recompute
      · exact positive_seedLevels number _ positive_empty hbids
      · exact positive_seedLevels number _ positive_empty hasks

/-! ## Messages -/

/-- A row that is handled leaves every book with its best prices. -/
theorem allKeepBests_handleRow {books books' : Books} (h : AllKeepBests books) {row : JsValue}
    {now : ℕ} {touched : Option String}
    (hrow : handleRow number text books row now = some (books', touched)) :
    AllKeepBests books' := by
  simp only [handleRow, Option.bind_eq_bind, Option.bind_eq_some_iff] at hrow
  obtain ⟨base, -, hrow⟩ := hrow
  split_ifs at hrow
  · obtain ⟨rfl, -⟩ := Prod.mk.inj (Option.some.inj hrow)
    exact h
  · cases hget : books.get? base with
    | none =>
      rw [hget] at hrow
      obtain ⟨rfl, -⟩ := Prod.mk.inj (Option.some.inj hrow)
      exact h
    | some book =>
      rw [hget] at hrow
      simp only [Option.bind_eq_some_iff] at hrow
      obtain ⟨orderType, -, -, -, price, -, -, -, qty, -, hrow⟩ := hrow
      split_ifs at hrow with hprice
      · obtain ⟨rfl, -⟩ := Prod.mk.inj (Option.some.inj hrow)
        exact h
      · obtain ⟨rfl, -⟩ := Prod.mk.inj (Option.some.inj hrow)
        obtain ⟨hfinite, hle⟩ := not_or.mp hprice
        have hpos : 0 < price := jsNumber_pos_of_not_le (by simpa using hfinite) hle
        exact h.set base (keepsBests_applyRow (h.get hget) _ hpos qty now)

/-- All rows of a message leave every book with its best prices. -/
theorem allKeepBests_handleRows (rows : List (JsValue × ℕ)) {books : Books} (h : AllKeepBests books)
    (touched : List String) : AllKeepBests (handleRows number text books touched rows).1 := by
  induction rows generalizing books touched with
  | nil => exact h
  | cons row rows ih =>
    obtain ⟨row, now⟩ := row
    unfold handleRows
    cases hrow : handleRow number text books row now with
    | none => exact h
    | some result =>
      obtain ⟨books', base⟩ := result
      have hbooks := allKeepBests_handleRow number text h hrow
      cases base with
      | none => exact ih hbooks touched
      | some base => exact ih hbooks _

/-- The check behind a message leaves them, too. -/
theorem allKeepBests_recheck {books : Books} (h : AllKeepBests books) (base : String) :
    AllKeepBests (recheck books base) := by
  unfold recheck
  cases hget : books.get? base with
  | none => exact h
  | some book =>
    dsimp only
    have hbook := h.get hget
    refine h.set base ?_
    have hbids : KeepsBests
        (if book.bids.bestQty = 0 ∧ 0 < book.bids.best then recomputeBestBid book else book) := by
      split_ifs
      · exact ⟨keepsBest_recompute ranks_bids hbook.bids.positive, hbook.asks⟩
      · exact hbook
    generalize (if book.bids.bestQty = 0 ∧ 0 < book.bids.best then recomputeBestBid book
      else book) = first at hbids ⊢
    split_ifs
    · exact ⟨hbids.bids, keepsBest_recompute ranks_asks hbids.asks.positive⟩
    · exact hbids

/-- A whole message leaves every book with its best prices. -/
theorem allKeepBests_onBithumbMessage {books : Books} (h : AllKeepBests books)
    (msg : Option JsValue) (clock : ℕ → ℕ) :
    AllKeepBests (onBithumbMessage number text books msg clock) := by
  unfold onBithumbMessage
  cases msg.bind messageRows with
  | none => exact h
  | some rows =>
    exact List.foldlRecOn (motive := AllKeepBests) _ recheck
      (allKeepBests_handleRows number text _ h []) fun books hbooks base _ =>
        allKeepBests_recheck hbooks base

/-- Any sequence of messages leaves every book with its best prices. -/
theorem allKeepBests_runMessages (messages : List (Option JsValue × (ℕ → ℕ))) {books : Books}
    (h : AllKeepBests books) : AllKeepBests (runMessages number text books messages) :=
  List.foldlRecOn (motive := AllKeepBests) messages _ h fun _ hbooks m _ =>
    allKeepBests_onBithumbMessage number text hbooks m.1 m.2

/-- After a snapshot and any messages, the best prices of every book are what a recomputation finds
in its levels. -/
theorem bests_recomputed (entries : List ((String × JsValue) × ℕ)) {seeded : Books}
    (hseed : seedBithumbBooks number .empty entries = some seeded)
    (messages : List (Option JsValue × (ℕ → ℕ))) {base : String} {book : Book}
    (hbook : (runMessages number text seeded messages).get? base = some book) :
    recomputeBestBid book = book ∧ recomputeBestAsk book = book := by
  have hempty : AllKeepBests .empty := by
    intro e he
    cases he
  have hseeded := allKeepBests_seed number entries hempty hseed
  have hkeeps := (allKeepBests_runMessages number text messages hseeded).get hbook
  constructor
  · rw [recomputeBestBid, recompute_of_keepsBest ranks_bids hkeeps.bids]
  · rw [recomputeBestAsk, recompute_of_keepsBest ranks_asks hkeeps.asks]

end Coercions

/-- What `Number` makes of a number; other values are left to other readings. -/
def readNumber : JsValue → Option JsNumber
  | .number value => some value
  | _ => some .nan

def readString : JsValue → Option String
  | .string value => some value
  | _ => some ""

/-- A level or a row of the coin, with the properties that the script reads. -/
def bookRow (orderType : String) (price quantity : ℚ) : JsValue :=
  .object [("symbol", .string "AAA_KRW"), ("orderType", .string orderType),
    ("price", .number (.finite price)), ("quantity", .number (.finite quantity))]

/-- AAA with bids at 99 and 98 and one ask at 101. -/
def seededAAA : List ((String × JsValue) × ℕ) :=
  [(("AAA", .object [("bids", .array [bookRow "bid" 99 1, bookRow "bid" 98 2]),
    ("asks", .array [bookRow "ask" 101 1])]), 0)]

/-- The best bid is deleted and a lower ask is written. -/
def deltaAAA : JsValue :=
  .object [("type", .string "orderbookdepth"), ("content", .object [("list",
    .array [bookRow "bid" 99 0, bookRow "ask" 100 3])])]

/-- A message that removes the best bid of AAA and adds an ask. -/
theorem bests_recomputed_deltaAAA :
    ∃ book, ((seedBithumbBooks readNumber .empty seededAAA).map fun seeded =>
        (runMessages readNumber readString seeded [(some deltaAAA, id)]).get? "AAA") =
      some (some book) ∧ book.bids.best = .finite 98 ∧ book.asks.best = .finite 100 ∧
        recomputeBestBid book = book ∧ recomputeBestAsk book = book := by
  obtain ⟨seeded, hseed⟩ : ∃ seeded,
      seedBithumbBooks readNumber .empty seededAAA = some seeded := ⟨_, rfl⟩
  obtain ⟨book, hbook⟩ : ∃ book,
      (runMessages readNumber readString seeded [(some deltaAAA, id)]).get? "AAA" = some book := by
    obtain rfl := Option.some.inj hseed
    exact ⟨_, rfl⟩
  refine ⟨book, ?_, ?_, ?_, bests_recomputed readNumber readString seededAAA hseed _ hbook⟩
  · rw [hseed, Option.map_some, hbook]
  · obtain rfl := Option.some.inj hseed
    obtain rfl := Option.some.inj hbook
    decide +kernel
  · obtain rfl := Option.some.inj hseed
    obtain rfl := Option.some.inj hbook
    decide +kernel

end SpotRelay.Analysis
