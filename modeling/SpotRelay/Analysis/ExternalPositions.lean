import Mathlib.Tactic.Linarith
import Mathlib.Tactic.NormNum
import SpotRelay.Model.Bot
import SpotRelay.Model.ExternalPositions

/-!
# A blacklist that fails open

A client that gets no answer, or cannot read it, says what a client of an empty account says, and
the blacklist is built from what the clients say.  A symbol that no client blocks is clear only if
every answer came in full.

* **a clear symbol** was answered in full (`Clear.answeredInFull`), and one that was answered in
  full and read as no more than dust is clear (`AnsweredInFull.clear`).
* **the check** before a trade asks the blacklist and the routes (`isSafeToTrade_iff`), as the
  running bot does (`isSafeToTrade_bot`).
-/

set_option autoImplicit false

namespace SpotRelay.Analysis

open SpotRelay.Model

open OrderManager (blockBalances blockPositions krwSymbol refreshExternalPositions isSafeToTrade)

/-! ## Answers in full -/

/-- The text states no amount, or one that `fast_stod` can read. -/
def statesAmount : List Char → Bool
  | '-' :: sv => startsDecimal sv
  | [] => true
  | sv => startsDecimal sv
where
  startsDecimal : List Char → Bool
    | '.' :: c :: _ => c.isDigit
    | c :: _ => c.isDigit
    | [] => false

def isAmount : Option DomValue → Bool
  | some (.number _) => true
  | some (.string text) => statesAmount text
  | _ => false

/-- What the client makes of a field. -/
def amountOf (field : Option DomValue) : ℚ := (field.map DomValue.parseDouble).getD 0

/-- The coin that an element is about, as Upbit reads it. -/
def coinOf (item : AccountItem) : List Char := (item.currency.map DomValue.parseString).getD []

/-- The coin that an element is about, as Bithumb reads it. -/
def upperCoinOf (item : AccountItem) : List Char := (coinOf item).map Char.toUpper

/-- All fields of an element are there, and they can be read. -/
structure ReadableAccount (item : AccountItem) : Prop where
  coin : coinOf item ≠ []
  balance : isAmount item.balance = true
  locked : isAmount item.locked = true

/-- The venue has answered with an account that can be read and lists no coin twice. -/
def AccountsInFull (name : AccountItem → List Char) (answer : AccountsAnswer)
    (items : List AccountItem) : Prop :=
  answer = .accounts items ∧ (∀ item ∈ items, ReadableAccount item) ∧ (items.map name).Nodup

def heldAmount (item : AccountItem) : ℚ := amountOf item.balance + amountOf item.locked

/-- The coin and the amount of a liability are there, and they can be read. -/
structure ReadableLiability (item : LiabilityItem) : Prop where
  coin : item.coin.isSome = true
  amount : ∃ text, item.amount = .value text ∧ statesAmount text = true

/-- The amount of a liability, whatever its sign. -/
def owedAmount (item : LiabilityItem) : ℚ :=
  match item.amount with
  | .value text => fastStod text
  | _ => 0

/-- The liability is one of the symbol's coin. -/
def OwesCoin (symbol : SymbolId) (item : LiabilityItem) : Prop :=
  ∃ coin ∈ item.coin, coin.take 11 = symbol.base

/-- The list came in full, and every element can be read. -/
def LiabilitiesInFull (list : Elements LiabilityItem) : Prop :=
  list.complete = true ∧ ∀ item ∈ list.items, ReadableLiability item

def WalletInFull (answer : BybitExchange.WalletAnswer) (list : Elements LiabilityItem) : Prop :=
  answer = .wallet list ∧ LiabilitiesInFull list

def BalanceInFull (answer : OkxExchange.BalanceAnswer) (list : Elements LiabilityItem) : Prop :=
  answer = .balance (some "0".toList) list ∧ LiabilitiesInFull list

/-! ## What is blocked -/

section Blocked

/-- A loop that adds to a set contains what it began with and what one of its rounds adds. -/
theorem mem_foldl_of_round {α β : Type} {b : β} {round : Finset β → α → Finset β}
    {adds : α → Prop}
    (hround : ∀ (set : Finset β) (a : α), b ∈ round set a ↔ b ∈ set ∨ adds a) (as : List α)
    (set : Finset β) : b ∈ as.foldl round set ↔ b ∈ set ∨ ∃ a ∈ as, adds a := by
  induction as generalizing set with
  | nil => simp
  | cons a as ih => rw [List.foldl_cons, ih, hround, List.exists_mem_cons_iff, or_assoc]

variable {botManaged blacklist : Finset SymbolId} {symbol : SymbolId}

/-- A foreign symbol is blocked by a balance above dust. -/
theorem mem_blockBalances (balance : SymbolId → ℚ) (symbols : List SymbolId)
    (hother : symbol ∉ botManaged) :
    symbol ∈ blockBalances balance symbols botManaged blacklist ↔
      symbol ∈ blacklist ∨ symbol ∈ symbols ∧ dust < balance symbol := by
  have hround : ∀ (set : Finset SymbolId) (sym : SymbolId),
      symbol ∈ (if sym ∈ botManaged then set
        else if dust < balance sym then insert sym set
        else set) ↔ symbol ∈ set ∨ sym = symbol ∧ dust < balance symbol := by
    intro set sym
    by_cases hsym : sym = symbol
    · subst hsym
      rw [if_neg hother]
      split_ifs with hmore <;> simp [hmore]
    · split_ifs <;> simp [hsym, Ne.symm hsym]
  rw [OrderManager.blockBalances, mem_foldl_of_round hround]
  simp

/-- A foreign symbol is blocked by a short above dust. -/
theorem mem_blockPositions (positions : List ShortPosition) (hother : symbol ∉ botManaged) :
    symbol ∈ blockPositions positions botManaged blacklist ↔
      symbol ∈ blacklist ∨
        ∃ pos ∈ positions, dust < pos.foreignAmount ∧ krwSymbol pos = symbol := by
  refine mem_foldl_of_round ?_ positions blacklist
  intro set pos
  by_cases hsym : krwSymbol pos = symbol
  · rw [hsym, if_neg hother]
    split_ifs with hmore <;> simp [hmore]
  · split_ifs <;> simp [hsym, Ne.symm hsym]

end Blocked

/-- Some client reads more than dust of the symbol's coin. -/
def ReadsMore (std : BalanceSort) (venues : VenueClients) (symbols : List SymbolId)
    (symbol : SymbolId) : Prop :=
  (∃ answer ∈ venues.bithumb,
      symbol ∈ symbols ∧ dust < BithumbExchange.getBalance std (answer symbol) symbol.base) ∨
    (∃ client ∈ venues.upbit, symbol ∈ symbols ∧
      dust < UpbitExchange.getBalance client.hasCredentials (client.answer symbol) symbol.base) ∨
    (∃ answer ∈ venues.bybit, ∃ pos ∈ BybitExchange.getShortPositions answer,
      dust < pos.foreignAmount ∧ krwSymbol pos = symbol) ∨
    ∃ answer ∈ venues.okx, ∃ pos ∈ OkxExchange.getShortPositions answer,
      dust < pos.foreignAmount ∧ krwSymbol pos = symbol

/-- The refresh lists the symbols that the venues show more of than dust. -/
theorem mem_refreshExternalPositions (std : BalanceSort) (venues : VenueClients)
    (symbols : List SymbolId) {botManaged : Finset SymbolId} {symbol : SymbolId}
    (hother : symbol ∉ botManaged) :
    symbol ∈ refreshExternalPositions std venues symbols botManaged ↔
      ReadsMore std venues symbols symbol := by
  obtain ⟨bithumb, upbit, bybit, okx⟩ := venues
  simp only [OrderManager.refreshExternalPositions, ReadsMore]
  cases bithumb <;> cases upbit <;> cases bybit <;> cases okx <;>
    simp [mem_blockBalances, mem_blockPositions, hother, or_assoc]

/-! ## What is read of an answer in full -/

/-- The balance that Bithumb's client makes of an element. -/
def balanceOf (item : AccountItem) : AccountBalance where
  currency := upperCoinOf item
  available := amountOf item.balance
  locked := amountOf item.locked
  total := heldAmount item

/-- A readable account has its three fields. -/
theorem ReadableAccount.exists_fields {item : AccountItem} (h : ReadableAccount item) :
    ∃ currency balance locked, item = ⟨some currency, some balance, some locked⟩ := by
  obtain ⟨currency, balance, locked⟩ := item
  obtain ⟨hcoin, hbalance, hlocked⟩ := h
  cases currency with
  | none => exact absurd rfl hcoin
  | some currency =>
    cases balance with
    | none => cases hbalance
    | some balance =>
      cases locked with
      | none => cases hlocked
      | some locked => exact ⟨currency, balance, locked, rfl⟩

/-- Readable accounts are read to their balances. -/
theorem mapM_readBalance {items : List AccountItem} (h : ∀ item ∈ items, ReadableAccount item) :
    items.mapM BithumbExchange.readBalance = some (items.map balanceOf) := by
  induction items with
  | nil => rfl
  | cons item rest ih =>
    obtain ⟨currency, balance, locked, rfl⟩ := (h item List.mem_cons_self).exists_fields
    rw [List.mapM_cons, ih fun item hitem => h item (List.mem_cons_of_mem _ hitem)]
    rfl

/-- Where Bithumb's client reads no more than dust, the coin has no more available. -/
theorem available_of_getBalance (std : BalanceSort) {answer : AccountsAnswer}
    {items : List AccountItem} (hfull : AccountsInFull upperCoinOf answer items) {coin : List Char}
    (hread : BithumbExchange.getBalance std answer coin ≤ dust) {item : AccountItem}
    (hitem : item ∈ items) (hcoin : upperCoinOf item = coin.map Char.toUpper) :
    amountOf item.balance ≤ dust := by
  obtain ⟨rfl, hreadable, hnodup⟩ := hfull
  by_cases hkept : BithumbExchange.keeps (balanceOf item) = true
  · have hmem : ∀ balance, balance ∈ BithumbExchange.getAllBalances std (.accounts items) ↔
        (∃ other ∈ items, balanceOf other = balance) ∧ BithumbExchange.keeps balance = true := by
      intro balance
      simp only [BithumbExchange.getAllBalances, mapM_readBalance hreadable]
      rw [(std.perm _).mem_iff, List.mem_filter, List.mem_map]
    unfold BithumbExchange.getBalance BithumbExchange.findBalance at hread
    cases hfound : (BithumbExchange.getAllBalances std (.accounts items)).find? fun balance =>
        balance.currency = coin.map Char.toUpper with
    | none =>
      have hnone := List.find?_eq_none.mp hfound (balanceOf item)
        ((hmem _).mpr ⟨⟨item, hitem, rfl⟩, hkept⟩)
      rw [decide_eq_true_eq] at hnone
      exact absurd hcoin hnone
    | some balance =>
      obtain ⟨⟨other, hother, rfl⟩, -⟩ := (hmem balance).mp (List.mem_of_find?_eq_some hfound)
      have hname := List.find?_some hfound
      rw [decide_eq_true_eq] at hname
      have heq : other = item :=
        List.inj_on_of_nodup_map hnodup hother hitem (hname.trans hcoin.symm)
      rw [hfound, heq] at hread
      exact hread
  · -- an element that is dropped holds next to nothing
    have hnonempty : upperCoinOf item ≠ [] := by
      intro hempty
      exact (hreadable item hitem).coin (List.map_eq_nil_iff.mp hempty)
    have hcurrency : (balanceOf item).currency ≠ [] := hnonempty
    simp only [BithumbExchange.keeps, hcurrency, Bool.and_eq_true, decide_eq_true_eq, ne_eq,
      not_false_eq_true, true_and, Bool.not_eq_true', Bool.and_eq_false_iff,
      decide_eq_false_iff_not, not_or, not_not] at hkept
    have hsmall : |amountOf item.balance| ≤ 10⁻¹ ^ 12 := hkept.1.2
    refine (le_abs_self _).trans (hsmall.trans ?_)
    norm_num [dust]

/-- Upbit's client reads the whole amount. -/
theorem scanBalance_eq {items : List AccountItem} (hreadable : ∀ item ∈ items, ReadableAccount item)
    (hnodup : (items.map coinOf).Nodup) {item : AccountItem} (hitem : item ∈ items) :
    UpbitExchange.scanBalance (coinOf item) items = heldAmount item := by
  induction items with
  | nil => cases hitem
  | cons first rest ih =>
    obtain ⟨currency, balance, locked, rfl⟩ := (hreadable first List.mem_cons_self).exists_fields
    rw [List.map_cons, List.nodup_cons] at hnodup
    simp only [UpbitExchange.scanBalance]
    rcases List.mem_cons.mp hitem with rfl | hrest
    · rw [if_pos (by rfl)]
      rfl
    · rw [if_neg]
      · exact ih (fun item hitem => hreadable item (List.mem_cons_of_mem _ hitem)) hnodup.2 hrest
      · intro hsame
        exact hnodup.1 (List.mem_map.mpr ⟨item, hrest, hsame.symm⟩)

/-- Where no access throws, every element is read. -/
theorem mem_positionsOf {read : LiabilityItem → CoinRead} {items : List LiabilityItem}
    (hsound : ∀ item ∈ items, read item ≠ .throws) {item : LiabilityItem} (hitem : item ∈ items)
    {pos : ShortPosition} (hpos : read item = .position pos) : pos ∈ positionsOf read items := by
  induction items with
  | nil => cases hitem
  | cons first rest ih =>
    have hrest : item ∈ rest → pos ∈ positionsOf read rest :=
      ih fun item hitem => hsound item (List.mem_cons_of_mem _ hitem)
    simp only [positionsOf]
    rcases List.mem_cons.mp hitem with rfl | hmem
    · rw [hpos]
      exact List.mem_cons_self
    · cases hfirst : read first with
      | throws => exact absurd hfirst (hsound first List.mem_cons_self)
      | skipped => exact hrest hmem
      | position other => exact List.mem_cons_of_mem _ (hrest hmem)

/-- A readable liability has its two fields. -/
theorem ReadableLiability.exists_fields {item : LiabilityItem} (h : ReadableLiability item) :
    ∃ coin text, item = ⟨some coin, .value text⟩ := by
  obtain ⟨coin, amount⟩ := item
  obtain ⟨hcoin, text, rfl, -⟩ := h
  obtain ⟨coin, rfl⟩ := Option.isSome_iff_exists.mp hcoin
  exact ⟨coin, text, rfl⟩

/-- The symbol trades a coin other than USDT against KRW. -/
def KrwCoin (symbol : SymbolId) : Prop :=
  symbol.quote = "KRW".toList ∧ symbol.base ≠ "USDT".toList

/-- The blacklist finds the symbol of a liability. -/
theorem krwSymbol_eq {symbol : SymbolId} (hkrw : KrwCoin symbol) {coin : List Char}
    (hcoin : coin.take 11 = symbol.base) (amount : ℚ) :
    coin ≠ "USDT".toList ∧ krwSymbol ⟨.ofChars coin "USDT".toList, amount⟩ = symbol := by
  refine ⟨?_, ?_⟩
  · rintro rfl
    exact hkrw.2 hcoin.symm
  · obtain ⟨base, quote, hbase, hquote⟩ := symbol
    obtain ⟨rfl, -⟩ := hkrw
    simp only at hcoin
    subst hcoin
    simp [OrderManager.krwSymbol, SymbolId.ofChars]

/-- Where Bybit's client shows no position above dust, nothing above dust is owed. -/
theorem owed_of_bybit {answer : BybitExchange.WalletAnswer} {list : Elements LiabilityItem}
    (hfull : WalletInFull answer list) {symbol : SymbolId} (hkrw : KrwCoin symbol)
    (hread : ∀ pos ∈ BybitExchange.getShortPositions answer,
      dust < pos.foreignAmount → krwSymbol pos ≠ symbol)
    {item : LiabilityItem} (hitem : item ∈ list.items) (howes : OwesCoin symbol item) :
    owedAmount item ≤ dust := by
  obtain ⟨rfl, -, hreadable⟩ := hfull
  by_contra hmore
  rw [not_le] at hmore
  have hsound : ∀ item ∈ list.items, BybitExchange.readCoin item ≠ .throws := by
    intro item hitem
    obtain ⟨coin, text, rfl⟩ := (hreadable item hitem).exists_fields
    simp only [BybitExchange.readCoin]
    split_ifs <;> simp
  obtain ⟨coin, text, rfl⟩ := (hreadable item hitem).exists_fields
  obtain ⟨_, ⟨⟩, hcoin⟩ := howes
  obtain ⟨husdt, hsymbol⟩ := krwSymbol_eq hkrw hcoin (fastStod text)
  have hpositive : ¬ fastStod text ≤ 0 := by
    have hdust : (0 : ℚ) < dust := by norm_num [dust]
    exact not_le.mpr (hdust.trans hmore)
  refine hread _ (mem_positionsOf hsound hitem ?_) hmore hsymbol
  simp only [BybitExchange.readCoin, if_neg hpositive, if_neg husdt]

/-- A coin of which OKX shows no short is owed up to dust. -/
theorem owed_of_okx {answer : OkxExchange.BalanceAnswer} {list : Elements LiabilityItem}
    (hfull : BalanceInFull answer list) {symbol : SymbolId} (hkrw : KrwCoin symbol)
    (hread : ∀ pos ∈ OkxExchange.getShortPositions answer,
      dust < pos.foreignAmount → krwSymbol pos ≠ symbol)
    {item : LiabilityItem} (hitem : item ∈ list.items) (howes : OwesCoin symbol item) :
    |owedAmount item| ≤ dust := by
  obtain ⟨rfl, -, hreadable⟩ := hfull
  by_contra hmore
  rw [not_le] at hmore
  have hsound : ∀ item ∈ list.items, OkxExchange.readDetail item ≠ .throws := by
    intro item hitem
    obtain ⟨coin, text, rfl⟩ := (hreadable item hitem).exists_fields
    simp only [OkxExchange.readDetail]
    split_ifs <;> simp
  obtain ⟨coin, text, rfl⟩ := (hreadable item hitem).exists_fields
  obtain ⟨_, ⟨⟩, hcoin⟩ := howes
  obtain ⟨husdt, hsymbol⟩ := krwSymbol_eq hkrw hcoin |fastStod text|
  have hpositive : ¬ |fastStod text| ≤ 0 := by
    have hdust : (0 : ℚ) < dust := by norm_num [dust]
    exact not_le.mpr (hdust.trans hmore)
  refine hread _ ?_ hmore hsymbol
  simp only [OkxExchange.getShortPositions, if_true]
  refine mem_positionsOf hsound hitem ?_
  simp only [OkxExchange.readDetail, if_neg husdt, if_neg hpositive]

/-! ## The result -/

variable (std : BalanceSort) (venues : VenueClients) (symbols : List SymbolId) (symbol : SymbolId)

/-- Every venue was asked, answered in full, and has no more than dust of the symbol's coin. -/
structure Clear : Prop where
  bithumb : ∀ answer ∈ venues.bithumb, symbol ∈ symbols ∧
    ∃ items, AccountsInFull upperCoinOf (answer symbol) items ∧
      ∀ item ∈ items, upperCoinOf item = symbol.base.map Char.toUpper → heldAmount item ≤ dust
  upbit : ∀ client ∈ venues.upbit, symbol ∈ symbols ∧ client.hasCredentials = true ∧
    ∃ items, AccountsInFull coinOf (client.answer symbol) items ∧
      ∀ item ∈ items, coinOf item = symbol.base → heldAmount item ≤ dust
  bybit : ∀ answer ∈ venues.bybit, ∃ list, WalletInFull answer list ∧
    ∀ item ∈ list.items, OwesCoin symbol item → owedAmount item ≤ dust
  okx : ∀ answer ∈ venues.okx, ∃ list, BalanceInFull answer list ∧
    ∀ item ∈ list.items, OwesCoin symbol item → |owedAmount item| ≤ dust

/-- Every venue was asked and answered in full.  What is locked on Bithumb and what is owed of a
coin that is no KRW symbol, which the blacklist does not look at, is dust. -/
structure AnsweredInFull : Prop where
  bithumb : ∀ answer ∈ venues.bithumb, symbol ∈ symbols ∧
    ∃ items, AccountsInFull upperCoinOf (answer symbol) items ∧
      ∀ item ∈ items, upperCoinOf item = symbol.base.map Char.toUpper →
        amountOf item.balance ≤ dust → heldAmount item ≤ dust
  upbit : ∀ client ∈ venues.upbit, symbol ∈ symbols ∧ client.hasCredentials = true ∧
    ∃ items, AccountsInFull coinOf (client.answer symbol) items
  bybit : ∀ answer ∈ venues.bybit, ∃ list, WalletInFull answer list ∧ (¬ KrwCoin symbol →
    ∀ item ∈ list.items, OwesCoin symbol item → owedAmount item ≤ dust)
  okx : ∀ answer ∈ venues.okx, ∃ list, BalanceInFull answer list ∧ (¬ KrwCoin symbol →
    ∀ item ∈ list.items, OwesCoin symbol item → |owedAmount item| ≤ dust)

variable {std venues symbols symbol}

/-- A symbol that is clear was answered in full. -/
theorem Clear.answeredInFull (h : Clear venues symbols symbol) :
    AnsweredInFull venues symbols symbol where
  bithumb := by
    intro answer hanswer
    obtain ⟨hasked, items, hfull, hheld⟩ := h.bithumb answer hanswer
    exact ⟨hasked, items, hfull, fun item hitem hcoin _ => hheld item hitem hcoin⟩
  upbit := by
    intro client hclient
    obtain ⟨hasked, hcredentials, items, hfull, -⟩ := h.upbit client hclient
    exact ⟨hasked, hcredentials, items, hfull⟩
  bybit := by
    intro answer hanswer
    obtain ⟨list, hfull, howed⟩ := h.bybit answer hanswer
    exact ⟨list, hfull, fun _ => howed⟩
  okx := by
    intro answer hanswer
    obtain ⟨list, hfull, howed⟩ := h.okx answer hanswer
    exact ⟨list, hfull, fun _ => howed⟩

/-- A symbol that was answered in full and read as no more than dust is clear. -/
theorem AnsweredInFull.clear (h : AnsweredInFull venues symbols symbol)
    (hread : ¬ ReadsMore std venues symbols symbol) : Clear venues symbols symbol := by
  simp only [ReadsMore, not_or] at hread
  obtain ⟨hbithumb, hupbit, hbybit, hokx⟩ := hread
  constructor
  · intro answer hanswer
    obtain ⟨hasked, items, hfull, hlocked⟩ := h.bithumb answer hanswer
    refine ⟨hasked, items, hfull, fun item hitem hcoin => hlocked item hitem hcoin ?_⟩
    refine available_of_getBalance std hfull ?_ hitem hcoin
    exact not_lt.mp fun hmore => hbithumb ⟨answer, hanswer, hasked, hmore⟩
  · intro client hclient
    obtain ⟨hasked, hcredentials, items, hfull⟩ := h.upbit client hclient
    refine ⟨hasked, hcredentials, items, hfull, fun item hitem hcoin => ?_⟩
    have hbalance : UpbitExchange.getBalance client.hasCredentials (client.answer symbol)
        symbol.base = heldAmount item := by
      obtain ⟨hanswer, hreadable, hnodup⟩ := hfull
      simp only [UpbitExchange.getBalance, hcredentials, hanswer, ← hcoin]
      exact scanBalance_eq hreadable hnodup hitem
    rw [← hbalance]
    exact not_lt.mp fun hmore => hupbit ⟨client, hclient, hasked, hmore⟩
  · intro answer hanswer
    obtain ⟨list, hfull, hother⟩ := h.bybit answer hanswer
    refine ⟨list, hfull, ?_⟩
    by_cases hkrw : KrwCoin symbol
    · intro item hitem howes
      refine owed_of_bybit hfull hkrw ?_ hitem howes
      exact fun pos hpos hmore hsymbol => hbybit ⟨answer, hanswer, pos, hpos, hmore, hsymbol⟩
    · exact hother hkrw
  · intro answer hanswer
    obtain ⟨list, hfull, hother⟩ := h.okx answer hanswer
    refine ⟨list, hfull, ?_⟩
    by_cases hkrw : KrwCoin symbol
    · intro item hitem howes
      refine owed_of_okx hfull hkrw ?_ hitem howes
      exact fun pos hpos hmore hsymbol => hokx ⟨answer, hanswer, pos, hpos, hmore, hsymbol⟩
    · exact hother hkrw

/-- The engine knows no open route for the symbol. -/
def RouteClosed (priceCache : Option PriceCache) (symbol : SymbolId)
    (koreanEx foreignEx : Exchange) : Prop :=
  ∃ cache ∈ priceCache, cache.isTransferRouteAvailable (koreanEx, foreignEx, symbol.base) = false

/-- A symbol is safe to trade if it is not listed and its route is not closed. -/
theorem isSafeToTrade_iff (blacklist : Finset SymbolId) (priceCache : Option PriceCache)
    (koreanEx foreignEx : Exchange) :
    isSafeToTrade blacklist priceCache symbol koreanEx foreignEx = true ↔
      symbol ∉ blacklist ∧ ¬ RouteClosed priceCache symbol koreanEx foreignEx := by
  unfold OrderManager.isSafeToTrade RouteClosed
  cases priceCache <;> simp

/-- For every combination of answers, a symbol that the bot does not manage is only safe to trade if
it is clear, exactly if its route is closed, some client reads more than dust of it, or all venues
have answered in full. -/
theorem safe_only_if_clear_iff (std : BalanceSort) (venues : VenueClients) (symbols : List SymbolId)
    (botManaged : Finset SymbolId) (priceCache : Option PriceCache) (symbol : SymbolId)
    (koreanEx foreignEx : Exchange) (hother : symbol ∉ botManaged) :
    (isSafeToTrade (refreshExternalPositions std venues symbols botManaged) priceCache symbol
        koreanEx foreignEx = true → Clear venues symbols symbol) ↔
      RouteClosed priceCache symbol koreanEx foreignEx ∨ ReadsMore std venues symbols symbol ∨
        AnsweredInFull venues symbols symbol := by
  rw [isSafeToTrade_iff, mem_refreshExternalPositions std venues symbols hother]
  constructor
  · intro hclear
    by_cases hclosed : RouteClosed priceCache symbol koreanEx foreignEx
    · exact .inl hclosed
    by_cases hread : ReadsMore std venues symbols symbol
    · exact .inr (.inl hread)
    exact .inr (.inr (hclear ⟨hread, hclosed⟩).answeredInFull)
  · rintro hcondition ⟨hread, hopen⟩
    exact ((hcondition.resolve_left hopen).resolve_left hread).clear hread

/-- The running bot asks this blacklist and the routes of the published snapshot. -/
theorem isSafeToTrade_bot (s : BotState) (cache : PriceCache) (signal : ArbitrageSignal)
    (hroutes : s.openRoutes = PriceCache.openRoutes cache.transferSnapshot) :
    s.isSafeToTrade signal =
      isSafeToTrade s.blacklist.toFinset (some cache) signal.symbol signal.koreanExchange
        signal.foreignExchange := by
  have hopen : ∀ route, route ∈ PriceCache.openRoutes cache.transferSnapshot ↔
      cache.isTransferRouteAvailable route = true := by
    intro route
    rw [PriceCache.openRoutes, List.mem_filter, PriceCache.isTransferRouteAvailable]
    refine and_iff_right_of_imp fun havailable => ?_
    by_contra hnot
    have hnone : cache.transferSnapshot.routes.lookup route = none := by
      rw [List.lookup_eq_none_iff]
      intro entry hentry
      rw [bne_iff_ne]
      rintro rfl
      exact hnot (List.mem_map.mpr ⟨entry, hentry, rfl⟩)
    rw [hnone] at havailable
    cases havailable
  simp only [BotState.isSafeToTrade, OrderManager.isSafeToTrade, List.mem_toFinset, hroutes, hopen,
    Bool.decide_eq_true]

def solSymbol : SymbolId := .of "SOL" "KRW"

/-- Bithumb has a little SOL, and Bybit lends none. -/
def answeringVenues : VenueClients where
  bithumb := some fun _ =>
    .accounts [⟨some (.string "SOL".toList), some (.string "0.00005".toList),
      some (.string "0".toList)⟩]
  bybit := some (.wallet ⟨[⟨some "SOL".toList, .value "0".toList⟩], true⟩)

/-- The example's venues answer in full. -/
theorem answeredInFull_answeringVenues : AnsweredInFull answeringVenues [solSymbol] solSymbol where
  bithumb := by
    rintro answer ⟨⟩
    refine ⟨by decide, _, ⟨rfl, ?_, by decide⟩, ?_⟩
    · intro item hitem
      obtain rfl := List.mem_singleton.mp hitem
      exact ⟨by decide, by decide, by decide⟩
    · intro item hitem _ _
      obtain rfl := List.mem_singleton.mp hitem
      decide +kernel
  upbit := by
    rintro client ⟨⟩
  bybit := by
    rintro answer ⟨⟩
    refine ⟨_, ⟨rfl, rfl, ?_⟩, fun hforeign => absurd ⟨by decide, by decide⟩ hforeign⟩
    intro item hitem
    obtain rfl := List.mem_singleton.mp hitem
    exact ⟨rfl, _, rfl, by decide⟩
  okx := by
    rintro answer ⟨⟩

/-- The general result for venues that answer in full. -/
theorem safe_only_if_clear_iff_answered : Clear answeringVenues [solSymbol] solSymbol :=
  (safe_only_if_clear_iff .insertion answeringVenues [solSymbol] ∅ none solSymbol .bithumb .bybit
    (Finset.notMem_empty _)).mpr (.inr (.inr answeredInFull_answeringVenues)) (by decide +kernel)

/-- Bithumb does not answer, and the symbol is safe to trade. -/
theorem safe_without_answer :
    ¬ ∀ (std : BalanceSort) (venues : VenueClients) (symbols : List SymbolId)
      (botManaged : Finset SymbolId) (priceCache : Option PriceCache) (symbol : SymbolId)
      (koreanEx foreignEx : Exchange), symbol ∉ botManaged →
        isSafeToTrade (refreshExternalPositions std venues symbols botManaged) priceCache symbol
          koreanEx foreignEx = true → Clear venues symbols symbol := by
  intro h
  have hclear := h .insertion { bithumb := some fun _ => .failed } [solSymbol] ∅ none solSymbol
    .bithumb .bybit (Finset.notMem_empty _) (by decide +kernel)
  obtain ⟨-, items, ⟨hanswer, -⟩, -⟩ := hclear.bithumb _ rfl
  cases hanswer

end SpotRelay.Analysis
