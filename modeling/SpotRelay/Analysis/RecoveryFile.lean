import SpotRelay.Library.Run
import SpotRelay.Model.PositionFile

/-!
# Recovering a position from the file

All loops save to one file and delete one file.  In a run whose saves succeed one at a time,
and in which no update completes while another symbol's position is still open, every open
position can be loaded in every state.  Two open positions can never both be.

* **one step** keeps every open position loadable where saves come one at a time
  (`persistStep_invariant`), the two moments at which the file changes included
  (`renameTmp_recoverable_iff`, `removeActive_recoverable_iff`).
* **two positions** can never both be loaded (`not_recoverable_of_two`).
-/

set_option autoImplicit false

namespace SpotRelay.Analysis

open SpotRelay.Library SpotRelay.Library.Run SpotRelay.Model

variable {fmt : NumberFormat} {parse : List Char → Option Document} {s s' : PersistState}

/-- The fields that hold a number. -/
def numberFields : List String :=
  ["entry_premium", "position_size_usd", "korean_amount", "foreign_amount",
    "korean_entry_price", "foreign_entry_price", "realized_pnl_krw"]

/-- `simdjson` reads the text of `pos` as the document it is: the strings and integers that
were printed, and numbers where numbers were. -/
structure ReadsBack (fmt : NumberFormat) (parse : List Char → Option Document) (pos : Position)
    (doc : Document) : Prop where
  parsed : parse (positionText fmt pos) = some doc
  base : doc "symbol_base" = some (.string (String.ofList pos.symbol.base))
  quote : doc "symbol_quote" = some (.string (String.ofList pos.symbol.quote))
  korean : doc "korean_exchange" = some (.integer pos.koreanExchange.code)
  foreign : doc "foreign_exchange" = some (.integer pos.foreignExchange.code)
  entryTime : doc "entry_time_ms" = some (.integer pos.entryTime)
  numbers : ∀ field ∈ numberFields, ∃ x, (doc field).bind JsonValue.asDouble = some x

/-- Every open position is what `load_active_position` finds: the position that its own text
is read as. -/
def Recoverable (fmt : NumberFormat) (parse : List Char → Option Document) (s : PersistState) :
    Prop :=
  ∀ pos ∈ s.active, ∃ loaded, loadActivePosition parse s.disk = some loaded ∧
    readText parse (positionText fmt pos) = some loaded ∧ loaded.symbol = pos.symbol

/-- The operation succeeds, a save begins only while no other one is under way, and an update
completes only while no other symbol has an open position. -/
def OneAtATime (s : PersistState) : PersistEvent → Prop
  | .openTmp _ ok => ok = true ∧ s.saves = []
  | .writeTmp _ ok => ok = true
  | .renameTmp symbol ok => ok = true ∧ ∀ pos ∈ s.active, pos.symbol = symbol
  | .removeActive symbol ok => ok = true → ∀ pos ∈ s.active, pos.symbol = symbol
  | _ => True

/-- The position that an event reports has a text that is read back. -/
def ReportsReadable (fmt : NumberFormat) (parse : List Char → Option Document) :
    PersistEvent → Prop
  | .openTmp pos _ => ∃ doc, ReadsBack fmt parse pos doc
  | _ => True

instance (s : PersistState) (e : PersistEvent) : Decidable (OneAtATime s e) :=
  match e with
  | .openTmp _ _ => inferInstanceAs (Decidable (_ ∧ _))
  | .writeTmp _ _ => inferInstanceAs (Decidable (_ = _))
  | .renameTmp _ _ => inferInstanceAs (Decidable (_ ∧ _))
  | .removeActive _ _ => inferInstanceAs (Decidable (_ → _))
  | .loopStarts _ => isTrue trivial
  | .loopEnds _ => isTrue trivial

/-! ## The text of one position -/

/-- A symbol's own two texts name it. -/
@[simp] theorem symbolId_of_ofList (symbol : SymbolId) :
    SymbolId.of (String.ofList symbol.base) (String.ofList symbol.quote) = symbol := by
  cases symbol with
  | mk base quote hbase hquote =>
    simp [SymbolId.of, List.take_of_length_le hbase, List.take_of_length_le hquote]

/-- The code written for an exchange is read back as that exchange. -/
@[simp] theorem exchange_ofCode_code (ex : Exchange) : Exchange.ofCode ex.code = some ex := by
  cases ex <;> rfl

/-- One field of a document is read. -/
theorem bind_field {α β : Type} {field : Option α} {a : α} {f : α → Option β} {b : β}
    (hfield : field = some a) (hrest : f a = some b) : (field >>= f) = some b := by
  rw [hfield]
  exact hrest

/-- A text that is read back is loaded as a position of the same trade. -/
theorem ReadsBack.readText {pos : Position} {doc : Document} (h : ReadsBack fmt parse pos doc) :
    ∃ loaded, readText parse (positionText fmt pos) = some loaded ∧
      loaded.symbol = pos.symbol ∧ loaded.koreanExchange = pos.koreanExchange ∧
      loaded.foreignExchange = pos.foreignExchange ∧ loaded.entryTime = pos.entryTime ∧
      loaded.isActive = true := by
  obtain ⟨premium, hpremium⟩ := h.numbers "entry_premium" (by decide)
  obtain ⟨size, hsize⟩ := h.numbers "position_size_usd" (by decide)
  obtain ⟨koreanAmount, hkoreanAmount⟩ := h.numbers "korean_amount" (by decide)
  obtain ⟨foreignAmount, hforeignAmount⟩ := h.numbers "foreign_amount" (by decide)
  obtain ⟨koreanPrice, hkoreanPrice⟩ := h.numbers "korean_entry_price" (by decide)
  obtain ⟨foreignPrice, hforeignPrice⟩ := h.numbers "foreign_entry_price" (by decide)
  obtain ⟨pnl, hpnl⟩ := h.numbers "realized_pnl_krw" (by decide)
  obtain ⟨field, hfield, hdouble⟩ := Option.bind_eq_some_iff.mp hpnl
  let loaded : Position :=
    { symbol := pos.symbol, koreanExchange := pos.koreanExchange
      foreignExchange := pos.foreignExchange, entryTime := pos.entryTime
      entryPremium := premium, positionSizeUsd := size, koreanAmount := koreanAmount
      foreignAmount := foreignAmount, koreanEntryPrice := koreanPrice
      foreignEntryPrice := foreignPrice, realizedPnlKrw := pnl, isActive := true }
  have hbase : (doc "symbol_base").bind JsonValue.asString =
      some (String.ofList pos.symbol.base) := by
    rw [h.base]
    rfl
  have hquote : (doc "symbol_quote").bind JsonValue.asString =
      some (String.ofList pos.symbol.quote) := by
    rw [h.quote]
    rfl
  have hkorean : ((doc "korean_exchange").bind JsonValue.asInteger).bind Exchange.ofCode =
      some pos.koreanExchange := by
    rw [h.korean]
    exact exchange_ofCode_code pos.koreanExchange
  have hforeign : ((doc "foreign_exchange").bind JsonValue.asInteger).bind Exchange.ofCode =
      some pos.foreignExchange := by
    rw [h.foreign]
    exact exchange_ofCode_code pos.foreignExchange
  have htime : (doc "entry_time_ms").bind JsonValue.asInteger = some (pos.entryTime : ℤ) := by
    rw [h.entryTime]
    rfl
  refine ⟨loaded, ?_, rfl, rfl, rfl, rfl, rfl⟩
  rw [Model.readText, h.parsed, Option.bind_some]
  unfold readPosition
  -- the fields are read in the order of the source
  apply bind_field hbase
  apply bind_field hquote
  apply bind_field hkorean
  apply bind_field hforeign
  apply bind_field htime
  apply bind_field hpremium
  apply bind_field hsize
  apply bind_field hkoreanAmount
  apply bind_field hforeignAmount
  apply bind_field hkoreanPrice
  apply bind_field hforeignPrice
  rw [hfield]
  apply bind_field hdouble
  rw [symbolId_of_ofList, Int.toNat_natCast]
  rfl

/-! ## What the steps keep -/

/-- Where the save under way stands: its handle is on the file named as the temporary one. -/
inductive SaveProgress (fmt : NumberFormat) (parse : List Char → Option Document)
    (s : PersistState) : Prop
  | idle (hsaves : s.saves = [])
  | opened (pos : Position) (i : ℕ) (hsaves : s.saves = [⟨pos, some i⟩])
      (htmp : s.disk.inode .tmp = some i) (hempty : s.disk.content i = [])
      (hreads : ∃ doc, ReadsBack fmt parse pos doc)
  | written (pos : Position) (i : ℕ) (hsaves : s.saves = [⟨pos, none⟩])
      (htmp : s.disk.inode .tmp = some i) (htext : s.disk.content i = positionText fmt pos)
      (hreads : ∃ doc, ReadsBack fmt parse pos doc)

structure FileInvariant (fmt : NumberFormat) (parse : List Char → Option Document)
    (s : PersistState) : Prop where
  recoverable : Recoverable fmt parse s
  progress : SaveProgress fmt parse s

/-- What can be loaded depends on the position file alone. -/
theorem Recoverable.of_read (h : Recoverable fmt parse s)
    (hread : s'.disk.read .activePosition = s.disk.read .activePosition)
    (hactive : s'.active ⊆ s.active) : Recoverable fmt parse s' := by
  intro pos hpos
  obtain ⟨loaded, hload, hrest⟩ := h pos (hactive hpos)
  refine ⟨loaded, ?_, hrest⟩
  unfold loadActivePosition at hload ⊢
  rw [hread]
  exact hload

/-- Where a save stands depends on its handle and on the temporary file alone. -/
theorem SaveProgress.congr (h : SaveProgress fmt parse s) (hsaves : s'.saves = s.saves)
    (hinode : s'.disk.inode .tmp = s.disk.inode .tmp)
    (hcontent : s'.disk.content = s.disk.content) : SaveProgress fmt parse s' := by
  cases h with
  | idle h => exact .idle (hsaves.trans h)
  | opened pos i h htmp hempty hreads =>
    refine .opened pos i (hsaves.trans h) (hinode.trans htmp) ?_ hreads
    rw [hcontent]
    exact hempty
  | written pos i h htmp htext hreads =>
    refine .written pos i (hsaves.trans h) (hinode.trans htmp) ?_ hreads
    rw [hcontent]
    exact htext

/-- An update of the only symbol with an open position leaves nothing else open. -/
theorem complete_active_of_alone {symbol : SymbolId}
    (h : ∀ pos ∈ s.active, pos.symbol = symbol) (update : Option Position) :
    (s.complete symbol update).active = update.toList := by
  have hnone : (s.active.filter fun pos => pos.symbol ≠ symbol) = [] := by
    rw [List.filter_eq_nil_iff]
    intro pos hpos
    simp [h pos hpos]
  unfold PersistState.complete
  rw [hnone, List.nil_append]

/-- An update of a symbol that has no save under way leaves the saves as they are. -/
theorem complete_saves_of_none {symbol : SymbolId} (h : s.saveOf symbol = none)
    (update : Option Position) : (s.complete symbol update).saves = s.saves := by
  unfold PersistState.saveOf at h
  refine List.filter_eq_self.mpr ?_
  intro save hsave
  simpa using List.find?_eq_none.mp h save hsave

/-- A loop that ends without a position adds no active one. -/
theorem complete_none_active_subset (s : PersistState) (symbol : SymbolId) :
    (s.complete symbol none).active ⊆ s.active := by
  show (s.active.filter fun pos => pos.symbol ≠ symbol) ++ [] ⊆ s.active
  rw [List.append_nil]
  exact List.filter_subset_self _

/-- Opening the temporary file keeps the invariant of the files. -/
theorem openTmp_invariant (hs : FileInvariant fmt parse s) (hidle : s.saves = []) (pos : Position)
    (hreads : ∃ doc, ReadsBack fmt parse pos doc) :
    FileInvariant fmt parse
      { s with
        disk := (s.disk.openTrunc .tmp).1
        saves := ⟨pos, some (s.disk.openTrunc .tmp).2⟩ :: s.saves } := by
  refine ⟨hs.recoverable.of_read ?_ (List.Subset.refl _), ?_⟩
  · exact Directory.read_openTrunc_of_ne s.disk (by decide)
  · rw [hidle]
    refine .opened pos _ rfl ?_ ?_ hreads
    · exact Directory.openTrunc_inode s.disk _
    · exact Directory.openTrunc_content s.disk _

/-- Writing the temporary file keeps the invariant of the files. -/
theorem writeTmp_invariant (hs : FileInvariant fmt parse s) {symbol : SymbolId} {pos : Position}
    {i : ℕ} (hsave : s.saveOf symbol = some ⟨pos, some i⟩) :
    FileInvariant fmt parse
      { s with
        disk := s.disk.write i (positionText fmt pos)
        saves := ⟨pos, none⟩ :: s.saves.filter fun save => save.pos.symbol ≠ symbol } := by
  unfold PersistState.saveOf at hsave
  have hsymbol := List.find?_some hsave
  cases hs.progress with
  | idle hsaves =>
    rw [hsaves] at hsave
    cases hsave
  | written pos' j hsaves =>
    rw [hsaves] at hsave
    have := List.mem_of_find?_eq_some hsave
    simp at this
  | opened pos' j hsaves htmp hempty hreads =>
    rw [hsaves] at hsave
    have hsame := List.mem_of_find?_eq_some hsave
    simp only [List.mem_singleton, Save.mk.injEq, Option.some.injEq] at hsame
    obtain ⟨rfl, rfl⟩ := hsame
    refine ⟨hs.recoverable.of_read ?_ (List.Subset.refl _), ?_⟩
    · exact Directory.read_write_of_ne s.disk _ htmp (by decide)
    · refine .written pos i ?_ htmp ?_ hreads
      · rw [hsaves]
        simpa using hsymbol
      · exact Directory.write_content s.disk _ hempty

/-- The rename puts the text of the save under way in place, and it is the only open position. -/
theorem renameTmp_invariant (hs : FileInvariant fmt parse s) {symbol : SymbolId} {pos : Position}
    (hsave : s.saveOf symbol = some ⟨pos, none⟩)
    (halone : ∀ pos ∈ s.active, pos.symbol = symbol) :
    FileInvariant fmt parse
      ({ s with disk := s.disk.rename .tmp .activePosition }.complete symbol (some pos)) := by
  unfold PersistState.saveOf at hsave
  have hsymbol := List.find?_some hsave
  cases hs.progress with
  | idle hsaves =>
    rw [hsaves] at hsave
    cases hsave
  | opened pos' j hsaves =>
    rw [hsaves] at hsave
    have := List.mem_of_find?_eq_some hsave
    simp at this
  | written pos' i hsaves htmp htext hreads =>
    rw [hsaves] at hsave
    have hsame := List.mem_of_find?_eq_some hsave
    simp only [List.mem_singleton, Save.mk.injEq, and_true] at hsame
    subst hsame
    obtain ⟨doc, hdoc⟩ := hreads
    obtain ⟨loaded, hloaded, hsym, -⟩ := hdoc.readText
    refine ⟨?_, .idle ?_⟩
    · intro other hother
      rw [complete_active_of_alone
        (s := { s with disk := s.disk.rename .tmp .activePosition }) halone] at hother
      obtain rfl : other = pos := by simpa using hother
      refine ⟨loaded, ?_, hloaded, hsym⟩
      show ((s.disk.rename .tmp .activePosition).read .activePosition).bind (readText parse) = _
      rw [Directory.read_rename s.disk htmp, htext]
      exact hloaded
    · simpa [PersistState.complete, hsaves] using hsymbol

/-- A delete by the only symbol with an open position leaves nothing to recover. -/
theorem removeActive_invariant (hs : FileInvariant fmt parse s) {symbol : SymbolId}
    (hsave : s.saveOf symbol = none) (halone : ∀ pos ∈ s.active, pos.symbol = symbol) :
    FileInvariant fmt parse
      ({ s with disk := s.disk.remove .activePosition }.complete symbol none) := by
  refine ⟨?_, hs.progress.congr ?_ ?_ rfl⟩
  · intro pos hpos
    rw [complete_active_of_alone
      (s := { s with disk := s.disk.remove .activePosition }) halone] at hpos
    cases hpos
  · exact complete_saves_of_none hsave none
  · exact Directory.remove_inode_of_ne s.disk (by decide)

/-- A delete that fails leaves the file to the others. -/
theorem removeFailed_invariant (hs : FileInvariant fmt parse s) {symbol : SymbolId}
    (hsave : s.saveOf symbol = none) : FileInvariant fmt parse (s.complete symbol none) := by
  refine ⟨hs.recoverable.of_read rfl ?_, hs.progress.congr ?_ rfl rfl⟩
  · exact complete_none_active_subset s symbol
  · exact complete_saves_of_none hsave none

/-- Every allowed step keeps the open positions recoverable. -/
theorem persistStep_invariant {maxPositions : MaxPositions} {e : PersistEvent}
    (hs : FileInvariant fmt parse s) (hstep : OneAtATime s e)
    (hreads : ReportsReadable fmt parse e) : FileInvariant fmt parse (persistStep fmt maxPositions s e) := by
  cases e with
  | loopStarts symbol =>
    simp only [persistStep]
    split_ifs
    · exact ⟨hs.recoverable, hs.progress.congr rfl rfl rfl⟩
    · exact hs
  | loopEnds symbol =>
    simp only [persistStep]
    split_ifs
    · exact ⟨hs.recoverable, hs.progress.congr rfl rfl rfl⟩
    · exact hs
  | openTmp pos ok =>
    obtain ⟨rfl, hidle⟩ := hstep
    simp only [persistStep]
    split_ifs
    · exact openTmp_invariant hs hidle pos hreads
    · exact hs
  | writeTmp symbol ok =>
    have hok : ok = true := hstep
    subst hok
    simp only [persistStep]
    split
    · rename_i pos i hsave
      exact writeTmp_invariant hs hsave
    · exact hs
  | renameTmp symbol ok =>
    obtain ⟨rfl, halone⟩ := hstep
    simp only [persistStep]
    split
    · rename_i pos hsave
      exact renameTmp_invariant hs hsave halone
    · exact hs
  | removeActive symbol ok =>
    simp only [persistStep]
    split_ifs with hrunning hok
    · exact removeActive_invariant hs hrunning.2 (hstep hok)
    · exact removeFailed_invariant hs hrunning.2
    · exact hs

/-- In every run whose saves succeed one at a time, and in which no update completes while
another symbol has an open position, every open position is recoverable in every state. -/
theorem runPersist_recoverable (fmt : NumberFormat) (parse : List Char → Option Document)
    (maxPositions : MaxPositions) (disk : Disk) (es : List PersistEvent)
    (hreads : ∀ e ∈ es, ReportsReadable fmt parse e)
    (hrun : Along OneAtATime (persistStep fmt maxPositions) { disk := disk } es) :
    Recoverable fmt parse (runPersist fmt maxPositions disk es) := by
  have hstart : FileInvariant fmt parse { disk := disk } := by
    refine ⟨?_, .idle rfl⟩
    intro pos hpos
    cases hpos
  have hkept : ∀ s e, FileInvariant fmt parse s → OneAtATime s e ∧ ReportsReadable fmt parse e →
      FileInvariant fmt parse (persistStep fmt maxPositions s e) := by
    intro s e hs he
    exact persistStep_invariant hs he.1 he.2
  have hend := invariant (FileInvariant fmt parse) hkept es _ hstart (hrun.and_forall hreads)
  exact hend.recoverable

/-- The document that a position is saved as, with its numbers as they are. -/
def documentOf (pos : Position) : Document := fun field =>
  ([("symbol_base", JsonValue.string (String.ofList pos.symbol.base)),
    ("symbol_quote", .string (String.ofList pos.symbol.quote)),
    ("korean_exchange", .integer pos.koreanExchange.code),
    ("foreign_exchange", .integer pos.foreignExchange.code),
    ("entry_time_ms", .integer pos.entryTime), ("entry_premium", .number pos.entryPremium),
    ("position_size_usd", .number pos.positionSizeUsd),
    ("korean_amount", .number pos.koreanAmount), ("foreign_amount", .number pos.foreignAmount),
    ("korean_entry_price", .number pos.koreanEntryPrice),
    ("foreign_entry_price", .number pos.foreignEntryPrice),
    ("realized_pnl_krw", .number pos.realizedPnlKrw),
    ("is_active", .boolean true)] : List (String × JsonValue)).lookup field

/-- A position whose text parses to its own document reads back. -/
theorem readsBack_documentOf {pos : Position}
    (hparsed : parse (positionText fmt pos) = some (documentOf pos)) :
    ReadsBack fmt parse pos (documentOf pos) := by
  refine ⟨hparsed, rfl, rfl, rfl, rfl, rfl, ?_⟩
  intro field hfield
  simp only [numberFields, List.mem_cons, List.not_mem_nil, or_false] at hfield
  rcases hfield with rfl | rfl | rfl | rfl | rfl | rfl | rfl
  · exact ⟨pos.entryPremium, rfl⟩
  · exact ⟨pos.positionSizeUsd, rfl⟩
  · exact ⟨pos.koreanAmount, rfl⟩
  · exact ⟨pos.foreignAmount, rfl⟩
  · exact ⟨pos.koreanEntryPrice, rfl⟩
  · exact ⟨pos.foreignEntryPrice, rfl⟩
  · exact ⟨pos.realizedPnlKrw, rfl⟩

/-- Digits of numbers that have no more decimals than are printed. -/
def plainFormat : NumberFormat where
  fixed n x :=
    let scaled := (x * 10 ^ n).floor
    let digits := Nat.toDigits 10 (scaled.natAbs % 10 ^ n)
    (if scaled < 0 then ['-'] else []) ++ Nat.toDigits 10 (scaled.natAbs / 10 ^ n) ++ ['.'] ++
      List.replicate (n - digits.length) '0' ++ digits
  integer x := (if x < 0 then ['-'] else []) ++ Nat.toDigits 10 x.natAbs

/-- Two hedged positions, of 20 XRP and of 100 DOGE. -/
def xrpPosition : Position where
  symbol := SymbolId.of "XRP" "KRW"
  koreanExchange := .bithumb
  foreignExchange := .bybit
  entryTime := 1700000000000
  koreanAmount := 20
  foreignAmount := 20
  koreanEntryPrice := 4601 / 2
  foreignEntryPrice := 17 / 10
  positionSizeUsd := 3000
  isActive := true

def dogePosition : Position where
  symbol := SymbolId.of "DOGE" "KRW"
  koreanExchange := .bithumb
  foreignExchange := .bybit
  entryTime := 1700000060000
  koreanAmount := 100
  foreignAmount := 100
  koreanEntryPrice := 701 / 2
  foreignEntryPrice := 1 / 4
  positionSizeUsd := 3000
  isActive := true

/-- The parser on the two texts that are saved. -/
def parseTwo (text : List Char) : Option Document :=
  if text = positionText plainFormat xrpPosition then some (documentOf xrpPosition)
  else if text = positionText plainFormat dogePosition then some (documentOf dogePosition)
  else none

/-- The steps of a save that succeeds. -/
def saveSteps (pos : Position) : List PersistEvent :=
  [.openTmp pos true, .writeTmp pos.symbol true, .renameTmp pos.symbol true]

def twoPositions : MaxPositions := MaxPositions.initial.configure (some 2)

/-- XRP is saved and closed, then DOGE is saved. -/
def oneAfterTheOther : List PersistEvent :=
  [.loopStarts xrpPosition.symbol, .loopStarts dogePosition.symbol] ++ saveSteps xrpPosition ++
    [.removeActive xrpPosition.symbol true] ++ saveSteps dogePosition

/-- Two positions saved one after the other are both recovered. -/
theorem runPersist_recoverable_sequential :
    Recoverable plainFormat parseTwo
      (runPersist plainFormat twoPositions Directory.empty oneAfterTheOther) := by
  apply runPersist_recoverable
  · have hxrp : ReadsBack plainFormat parseTwo xrpPosition (documentOf xrpPosition) :=
      readsBack_documentOf (if_pos rfl)
    have hdoge : ReadsBack plainFormat parseTwo dogePosition (documentOf dogePosition) := by
      refine readsBack_documentOf ((if_neg ?_).trans (if_pos rfl))
      decide +kernel
    intro e he
    simp only [oneAfterTheOther, saveSteps, List.cons_append, List.nil_append, List.mem_cons,
      List.not_mem_nil, or_false] at he
    rcases he with rfl | rfl | rfl | rfl | rfl | rfl | rfl | rfl | rfl
    all_goals first | exact trivial | exact ⟨_, hxrp⟩ | exact ⟨_, hdoge⟩
  · refine ⟨?_, ?_, ?_, ?_, ?_, ?_, ?_, ?_, ?_, trivial⟩ <;> decide +kernel

/-! ## Two positions and one file -/

/-- Whatever the file holds, two symbols cannot both be recovered from it. -/
theorem not_recoverable_of_two {first second : Position} (hfirst : first ∈ s.active)
    (hsecond : second ∈ s.active) (hne : first.symbol ≠ second.symbol) :
    ¬ Recoverable fmt parse s := by
  intro h
  obtain ⟨loaded, hload, -, hsymbol⟩ := h first hfirst
  obtain ⟨loaded', hload', -, hsymbol'⟩ := h second hsecond
  rw [hload] at hload'
  cases hload'
  exact hne (hsymbol.symm.trans hsymbol')

/-- A successful save keeps every open position recoverable exactly when no other symbol has
one. -/
theorem renameTmp_recoverable_iff {maxPositions : MaxPositions} (hs : FileInvariant fmt parse s)
    {symbol : SymbolId} {pos : Position} (hsave : s.saveOf symbol = some ⟨pos, none⟩) :
    Recoverable fmt parse (persistStep fmt maxPositions s (.renameTmp symbol true)) ↔
      ∀ other ∈ s.active, other.symbol = symbol := by
  constructor
  · intro h other hother
    by_contra hne
    have hsymbol : pos.symbol = symbol := by
      unfold PersistState.saveOf at hsave
      simpa using List.find?_some hsave
    refine absurd h (not_recoverable_of_two (?_ : other ∈ _) (?_ : pos ∈ _) ?_)
    · simp [persistStep, hsave, PersistState.complete, hother, hne]
    · simp [persistStep, hsave, PersistState.complete]
    · rw [hsymbol]
      exact hne
  · intro halone
    exact (persistStep_invariant hs (e := .renameTmp symbol true) ⟨rfl, halone⟩ trivial).recoverable

/-- So does a successful delete. -/
theorem removeActive_recoverable_iff {maxPositions : MaxPositions}
    (hs : FileInvariant fmt parse s) {symbol : SymbolId} (hrunning : symbol ∈ s.running)
    (hsave : s.saveOf symbol = none) :
    Recoverable fmt parse (persistStep fmt maxPositions s (.removeActive symbol true)) ↔
      ∀ other ∈ s.active, other.symbol = symbol := by
  constructor
  · intro h other hother
    by_contra hne
    have hstays : other ∈ (persistStep fmt maxPositions s (.removeActive symbol true)).active := by
      simp [persistStep, hrunning, hsave, PersistState.complete, hother, hne]
    obtain ⟨loaded, hload, -⟩ := h other hstays
    simp [persistStep, hrunning, hsave, PersistState.complete, loadActivePosition,
      Directory.read_remove] at hload
  · intro halone
    refine (persistStep_invariant hs (e := .removeActive symbol true) ?_ trivial).recoverable
    exact fun _ => halone

/-- The loops of two symbols save their positions one after the other. -/
def bothSaved : List PersistEvent :=
  [.loopStarts xrpPosition.symbol, .loopStarts dogePosition.symbol] ++ saveSteps xrpPosition ++
    saveSteps dogePosition

/-- Whatever `fmt` prints and `simdjson` reads, the save of one symbol can lose the position of
another. -/
theorem secondSave_loses_first :
    ¬ ∃ (fmt : NumberFormat) (parse : List Char → Option Document),
      ∀ (maxPositions : MaxPositions) (disk : Disk) (es : List PersistEvent),
        Recoverable fmt parse (runPersist fmt maxPositions disk es) := by
  rintro ⟨fmt, parse, h⟩
  have hactive : (runPersist fmt twoPositions Directory.empty bothSaved).active =
      [xrpPosition, dogePosition] := by rfl
  have hxrp : xrpPosition ∈ (runPersist fmt twoPositions Directory.empty bothSaved).active := by
    simp [hactive]
  have hdoge : dogePosition ∈ (runPersist fmt twoPositions Directory.empty bothSaved).active := by
    simp [hactive]
  refine not_recoverable_of_two hxrp hdoge ?_ (h twoPositions Directory.empty bothSaved)
  decide

end SpotRelay.Analysis
