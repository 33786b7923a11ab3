import Mathlib.Data.Char
import Mathlib.Data.Finset.Insert
import Mathlib.Data.List.Lex
import Mathlib.Data.List.Sort
import SpotRelay.Model.BithumbMessages
import SpotRelay.Model.PendingOrders
import SpotRelay.Model.PriceCache

/-!
# The blacklist of external positions

`refresh_external_positions` and `is_safe_to_trade` (order_manager.cpp:2174-2252) over what the four
venue clients make of an answer (bithumb.cpp:808-858, upbit.cpp:799-831, bybit.cpp:710-757,
okx.cpp:787-850).  An answer is what simdjson reads of it; the Korean clients parse a whole document
first, the foreign ones read on until an access throws.
-/

set_option autoImplicit false

namespace SpotRelay.Model

/-! ## Account answers -/

/-- The values that `parse_dom_double` and `parse_dom_string` tell apart. -/
inductive DomValue
  | null
  | number (val : ℚ)
  | string (text : List Char)
  | other
deriving DecidableEq

/-- `parse_dom_double`. -/
def DomValue.parseDouble : DomValue → ℚ
  | .number val => val
  | .string text => fastStod text
  | .null | .other => 0

/-- `parse_dom_string`. -/
def DomValue.parseString : DomValue → List Char
  | .string text => text
  | _ => []

/-- The fields of an element of `/v1/accounts`; one that is missing throws when it is converted. -/
structure AccountItem where
  currency : Option DomValue
  balance : Option DomValue
  locked : Option DomValue
deriving DecidableEq

/-- The answer to `/v1/accounts`. -/
inductive AccountsAnswer
  | failed
  /-- No document, or no array. -/
  | unparsable
  | accounts (items : List AccountItem)
deriving DecidableEq

/-- `AccountBalance`. -/
structure AccountBalance where
  currency : List Char
  available : ℚ
  locked : ℚ
  total : ℚ
deriving DecidableEq

/-- `std::sort` by currency. -/
structure BalanceSort where
  sort : List AccountBalance → List AccountBalance
  perm : ∀ xs, (sort xs).Perm xs
  sorted : ∀ xs, (sort xs).Pairwise fun a b => a.currency ≤ b.currency

/-- A sort that keeps the order of equal currencies. -/
def BalanceSort.insertion : BalanceSort where
  sort := fun xs => xs.insertionSort fun a b => a.currency ≤ b.currency
  perm := fun xs => xs.perm_insertionSort _
  sorted := fun xs => by
    have : Std.Total fun a b : AccountBalance => a.currency ≤ b.currency :=
      ⟨fun a b => le_total a.currency b.currency⟩
    have : IsTrans AccountBalance fun a b => a.currency ≤ b.currency :=
      ⟨fun _ _ _ => le_trans⟩
    exact xs.pairwise_insertionSort _

namespace BithumbExchange

/-- One round of the loop of `get_all_balances`; `none` throws. -/
def readBalance (item : AccountItem) : Option AccountBalance := do
  let currency := (← item.currency).parseString.map Char.toUpper
  let available := (← item.balance).parseDouble
  let locked := (← item.locked).parseDouble
  return { currency := currency, available := available, locked := locked
           total := available + locked }

/-- A balance that the loop keeps. -/
def keeps (balance : AccountBalance) : Bool :=
  decide (balance.currency ≠ []) &&
    !(decide (|balance.total| ≤ 10⁻¹ ^ 12) && decide (|balance.available| ≤ 10⁻¹ ^ 12) &&
      decide (|balance.locked| ≤ 10⁻¹ ^ 12))

/-- `get_all_balances`. -/
def getAllBalances (std : BalanceSort) : AccountsAnswer → List AccountBalance
  | .accounts items =>
    match items.mapM readBalance with
    | some balances => std.sort (balances.filter keeps)
    | none => []
  | .failed | .unparsable => []

/-- The balance that `get_balance` returns from. -/
def findBalance (std : BalanceSort) (answer : AccountsAnswer) (currency : List Char) :
    Option AccountBalance :=
  (getAllBalances std answer).find? fun balance => balance.currency = currency.map Char.toUpper

/-- `get_balance`. -/
def getBalance (std : BalanceSort) (answer : AccountsAnswer) (currency : List Char) : ℚ :=
  match findBalance std answer currency with
  | some balance => balance.available
  | none => 0

end BithumbExchange

namespace UpbitExchange

/-- The loop of `get_balance`; an exception ends it at 0 too. -/
def scanBalance (currency : List Char) : List AccountItem → ℚ
  | [] => 0
  | item :: rest =>
    match item.currency with
    | none => 0
    | some code =>
      if code.parseString = currency then
        match item.balance, item.locked with
        | some balance, some locked => balance.parseDouble + locked.parseDouble
        | _, _ => 0
      else scanBalance currency rest

/-- `get_balance`: -1 where there is no answer. -/
def getBalance (hasCredentials : Bool) (answer : AccountsAnswer) (currency : List Char) : ℚ :=
  if !hasCredentials then -1
  else
    match answer with
    | .failed => -1
    | .unparsable => 0
    | .accounts items => scanBalance currency items

end UpbitExchange

/-! ## Short positions -/

/-- A coin of the wallet, on Bybit; one of the details of the balance, on OKX. -/
structure LiabilityItem where
  coin : Option (List Char)
  /-- `borrowAmount`, or `liab`. -/
  amount : MessageField (List Char)
deriving DecidableEq

/-- The part of a `Position` that the blacklist reads. -/
structure ShortPosition where
  symbol : SymbolId
  foreignAmount : ℚ
deriving DecidableEq

/-- What a foreign client makes of one coin. -/
inductive CoinRead
  | throws
  | skipped
  | position (pos : ShortPosition)
deriving DecidableEq

/-- The positions up to the first access that throws. -/
def positionsOf (read : LiabilityItem → CoinRead) : List LiabilityItem → List ShortPosition
  | [] => []
  | item :: rest =>
    match read item with
    | .throws => []
    | .skipped => positionsOf read rest
    | .position pos => pos :: positionsOf read rest

namespace BybitExchange

/-- The answer to the wallet query: the coins of all accounts in order. -/
inductive WalletAnswer
  | failed
  | wallet (coins : Elements LiabilityItem)
deriving DecidableEq

def readCoin (item : LiabilityItem) : CoinRead :=
  match item.amount with
  | .absent => .skipped
  | .mistyped => .throws
  | .value text =>
    let borrowAmount := fastStod text
    if borrowAmount ≤ 0 then .skipped
    else
      match item.coin with
      | none => .throws
      | some coinName =>
        if coinName = "USDT".toList then .skipped
        else .position ⟨.ofChars coinName "USDT".toList, borrowAmount⟩

/-- `get_short_positions`. -/
def getShortPositions : WalletAnswer → List ShortPosition
  | .failed => []
  | .wallet coins => positionsOf readCoin coins.items

end BybitExchange

namespace OkxExchange

/-- The answer to the balance query: its code, and the details of all accounts in order. -/
inductive BalanceAnswer
  | failed
  | balance (code : Option (List Char)) (details : Elements LiabilityItem)
deriving DecidableEq

def readDetail (item : LiabilityItem) : CoinRead :=
  match item.coin with
  | none => .throws
  | some ccy =>
    if ccy = "USDT".toList then .skipped
    else
      match item.amount with
      | .absent => .skipped
      | .mistyped => .throws
      | .value liabStr =>
        let borrowAmount := |fastStod liabStr|
        if borrowAmount ≤ 0 then .skipped
        else .position ⟨.ofChars ccy "USDT".toList, borrowAmount⟩

/-- `get_short_positions`. -/
def getShortPositions : BalanceAnswer → List ShortPosition
  | .failed => []
  | .balance code details =>
    if code = some "0".toList then positionsOf readDetail details.items else []

end OkxExchange

/-! ## The blacklist -/

structure UpbitClient where
  hasCredentials : Bool
  answer : SymbolId → AccountsAnswer

/-- The clients that the order manager was given, with their answers; a Korean client is asked once
for each symbol. -/
structure VenueClients where
  bithumb : Option (SymbolId → AccountsAnswer) := none
  upbit : Option UpbitClient := none
  bybit : Option BybitExchange.WalletAnswer := none
  okx : Option OkxExchange.BalanceAnswer := none

/-- The largest amount that counts as dust. -/
def dust : ℚ := 1 / 10000

namespace OrderManager

/-- The loop over the symbols for one Korean venue. -/
def blockBalances (balance : SymbolId → ℚ) (symbols : List SymbolId) (botManaged : Finset SymbolId)
    (blacklist : Finset SymbolId) : Finset SymbolId :=
  symbols.foldl (fun blacklist sym =>
    if sym ∈ botManaged then blacklist
    else if dust < balance sym then insert sym blacklist
    else blacklist) blacklist

/-- `SymbolId(pos.symbol.get_base(), "KRW")`. -/
def krwSymbol (pos : ShortPosition) : SymbolId := .ofChars pos.symbol.base "KRW".toList

/-- The loop over the short positions of one foreign venue. -/
def blockPositions (positions : List ShortPosition) (botManaged : Finset SymbolId)
    (blacklist : Finset SymbolId) : Finset SymbolId :=
  positions.foldl (fun blacklist pos =>
    if dust < pos.foreignAmount then
      if krwSymbol pos ∈ botManaged then blacklist else insert (krwSymbol pos) blacklist
    else blacklist) blacklist

/-- `refresh_external_positions`. -/
def refreshExternalPositions (std : BalanceSort) (venues : VenueClients) (symbols : List SymbolId)
    (botManaged : Finset SymbolId) : Finset SymbolId :=
  let blacklist : Finset SymbolId := ∅
  let blacklist :=
    match venues.bithumb with
    | none => blacklist
    | some answer =>
      blockBalances (fun sym => BithumbExchange.getBalance std (answer sym) sym.base) symbols
        botManaged blacklist
  let blacklist :=
    match venues.upbit with
    | none => blacklist
    | some client =>
      blockBalances
        (fun sym => UpbitExchange.getBalance client.hasCredentials (client.answer sym) sym.base)
        symbols botManaged blacklist
  let blacklist :=
    match venues.bybit with
    | none => blacklist
    | some answer => blockPositions (BybitExchange.getShortPositions answer) botManaged blacklist
  match venues.okx with
  | none => blacklist
  | some answer => blockPositions (OkxExchange.getShortPositions answer) botManaged blacklist

/-- `is_safe_to_trade`, with the price cache of the engine, if there is one. -/
def isSafeToTrade (blacklist : Finset SymbolId) (priceCache : Option PriceCache) (symbol : SymbolId)
    (koreanEx foreignEx : Exchange) : Bool :=
  if symbol ∈ blacklist then false
  else
    match priceCache with
    | none => true
    | some cache => cache.isTransferRouteAvailable (koreanEx, foreignEx, symbol.base)

end OrderManager

end SpotRelay.Model
