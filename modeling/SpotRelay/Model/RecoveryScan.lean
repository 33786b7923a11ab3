import SpotRelay.Library.InsertionMap
import SpotRelay.Model.ExternalPositions
import SpotRelay.Model.Quotes
import SpotRelay.Model.TransferRefresh

/-!
# The start-up recovery

The scan of main.cpp:1622-1830 for positions that can be resumed: shorts of the foreign venues whose
coins lie on Bithumb, and the saved position.  Each call to a venue or to the price cache has an
answer of its own.
-/

set_option autoImplicit false

namespace SpotRelay.Model

open SpotRelay.Library

/-! ## Shorts by coin -/

/-- What the scan reads of a position of `get_short_positions`. -/
structure ForeignShort where
  symbol : SymbolId
  foreignAmount : ℚ
  foreignEntryPrice : ℚ
deriving DecidableEq

/-- The entry price that `get_short_positions` takes of the cached ticker (bybit.cpp:745-748,
okx.cpp:837-840). -/
def markPrice : Option Ticker → ℚ
  | none => 0
  | some mark => if 0 < mark.bid then mark.bid else mark.last

/-- `get_short_positions` with the tickers that are cached when each position is pushed. -/
def markShorts (positions : List ShortPosition) (marks : ℕ → Option Ticker) : List ForeignShort :=
  positions.mapIdx fun i pos => ⟨pos.symbol, pos.foreignAmount, markPrice (marks i)⟩

/-- One round of the loop over the shorts of a venue (main.cpp:1645-1656). -/
def keepShort (commonBases : List (List Char)) (byCoin : InsertionMap (List Char) ForeignShort)
    (p : ForeignShort) : InsertionMap (List Char) ForeignShort :=
  let coin := p.symbol.base
  if coin = [] then byCoin
  else if coin ∉ commonBases then byCoin
  else if p.foreignAmount ≤ dust then byCoin
  else
    match byCoin.get? coin with
    | none => byCoin.set coin p
    | some kept => if kept.foreignAmount < p.foreignAmount then byCoin.set coin p else byCoin

/-- `bybit_short_by_coin`, and `okx_short_by_coin`. -/
def shortByCoin (commonBases : List (List Char)) (shorts : List ForeignShort) :
    InsertionMap (List Char) ForeignShort :=
  shorts.foldl (keepShort commonBases) .empty

/-! ## Candidates -/

structure RecoveryCandidate where
  pos : Position
  spotBalance : ℚ := 0
  shortAmount : ℚ := 0
  matchedAmount : ℚ := 0
  matchedUsd : ℚ := 0
  fromSavedFile : Bool := false
deriving DecidableEq

/-- What the scan asks for about one coin at one foreign venue. -/
structure CoinReads where
  /-- The answer to `get_balance`. -/
  accounts : AccountsAnswer
  korean : PriceData
  foreign : PriceData
  usdtRate : ℚ
  now : Timestamp

/-- The side of a cached price, or else the last price. -/
def sideOrLast (price : PriceData) (side : ℚ) : ℚ :=
  if price.valid then
    if 0 < side then side
    else if 0 < price.last then price.last
    else 0
  else 0

/-- The body of `scan_foreign_shorts` (main.cpp:1665-1721). -/
def scanForeignShort (std : BalanceSort) (foreignEx : Exchange) (coin : List Char)
    (short : ForeignShort) (reads : CoinReads) : Option RecoveryCandidate :=
  let spotBalance := BithumbExchange.getBalance std reads.accounts coin
  let shortAmount := short.foreignAmount
  if spotBalance ≤ dust ∨ shortAmount ≤ dust then none
  else
    let amount := min spotBalance shortAmount
    let koreanEntry := sideOrLast reads.korean reads.korean.ask
    let foreignFallback := sideOrLast reads.foreign reads.foreign.bid
    let effectiveForeignEntry :=
      if 0 < short.foreignEntryPrice then short.foreignEntryPrice else foreignFallback
    let recoveredEntryPm :=
      if 0 < koreanEntry ∧ 0 < effectiveForeignEntry ∧ 0 < reads.usdtRate then
        premiumPct koreanEntry effectiveForeignEntry reads.usdtRate
      else 0
    let pos : Position :=
      { symbol := .ofChars coin "KRW".toList
        koreanExchange := .bithumb
        foreignExchange := foreignEx
        entryTime := reads.now
        entryPremium := recoveredEntryPm
        positionSizeUsd :=
          amount * (if 0 < effectiveForeignEntry then effectiveForeignEntry else 0)
        koreanAmount := amount
        foreignAmount := amount
        koreanEntryPrice := koreanEntry
        foreignEntryPrice := effectiveForeignEntry
        isActive := true }
    some
      { pos := pos
        spotBalance := spotBalance
        shortAmount := shortAmount
        matchedAmount := amount
        matchedUsd :=
          if pos.positionSizeUsd ≤ 0 ∧ 0 < foreignFallback then amount * foreignFallback
          else pos.positionSizeUsd }

/-- The candidate of the saved position (main.cpp:1754-1767). -/
def savedCandidate (loaded : Position) : RecoveryCandidate where
  pos := loaded
  spotBalance := loaded.koreanAmount
  shortAmount := loaded.foreignAmount
  matchedAmount := min loaded.koreanAmount loaded.foreignAmount
  matchedUsd :=
    if loaded.positionSizeUsd ≤ 0 then loaded.koreanAmount * loaded.foreignEntryPrice
    else loaded.positionSizeUsd
  fromSavedFile := true

/-- The saved position joins the candidates if none of them has its symbol. -/
def addSaved (candidates : List RecoveryCandidate) : Option Position → List RecoveryCandidate
  | none => candidates
  | some loaded =>
    if candidates.any fun c => c.pos.symbol = loaded.symbol then candidates
    else candidates ++ [savedCandidate loaded]

/-- A candidate of the saved symbol gets the saved entry (main.cpp:1776-1788); `to_string` is never
empty. -/
def restoreEntry (saved : Option Position) (c : RecoveryCandidate) : RecoveryCandidate :=
  match saved with
  | none => c
  | some loaded =>
    if c.pos.symbol.text = loaded.symbol.text then
      { c with
        fromSavedFile := true
        pos :=
          { c.pos with
            entryPremium := loaded.entryPremium
            koreanEntryPrice := loaded.koreanEntryPrice
            foreignEntryPrice := loaded.foreignEntryPrice
            entryTime := loaded.entryTime
            positionSizeUsd := loaded.positionSizeUsd
            realizedPnlKrw := loaded.realizedPnlKrw } }
    else c

/-- The order of the candidates (main.cpp:1789-1795). -/
def recoveryBefore (a b : RecoveryCandidate) : Bool :=
  if a.fromSavedFile ≠ b.fromSavedFile then a.fromSavedFile
  else if a.matchedUsd ≠ b.matchedUsd then decide (b.matchedUsd < a.matchedUsd)
  else decide (a.pos.entryPremium < b.pos.entryPremium)

/-- `std::sort` by this order. -/
structure CandidateSort where
  sort : List RecoveryCandidate → List RecoveryCandidate
  perm : ∀ cs, (sort cs).Perm cs
  sorted : ∀ cs, (sort cs).Pairwise fun a b => recoveryBefore b a = false

/-- The order in which an `unordered_map` is walked. -/
structure HashOrder where
  walk : List (List Char × ForeignShort) → List (List Char × ForeignShort)
  perm : ∀ entries, (walk entries).Perm entries

/-! ## The scan -/

/-- The answers that the start-up gets. -/
structure RecoveryScan where
  std : BalanceSort
  sort : CandidateSort
  hash : HashOrder
  commonSymbols : List SymbolId
  okxEnabled : Bool
  bybit : BybitExchange.WalletAnswer
  okx : OkxExchange.BalanceAnswer
  marks : Exchange → ℕ → Option Ticker
  reads : Exchange → List Char → CoinReads
  /-- `load_active_position`. -/
  loaded : Option Position

namespace RecoveryScan

/-- `common_bases`. -/
def commonBases (scan : RecoveryScan) : List (List Char) := scan.commonSymbols.map SymbolId.base

/-- `get_short_positions` of Bybit, and of OKX if it is enabled. -/
def shorts (scan : RecoveryScan) : Exchange → List ForeignShort
  | .bybit => markShorts (BybitExchange.getShortPositions scan.bybit) (scan.marks .bybit)
  | .okx =>
    if scan.okxEnabled then
      markShorts (OkxExchange.getShortPositions scan.okx) (scan.marks .okx)
    else []
  | .bithumb | .upbit => []

/-- `scan_foreign_shorts`. -/
def scanForeignShorts (scan : RecoveryScan) (foreignEx : Exchange) : List RecoveryCandidate :=
  (scan.hash.walk (shortByCoin scan.commonBases (scan.shorts foreignEx)).entries).filterMap
    fun entry => scanForeignShort scan.std foreignEx entry.1 entry.2 (scan.reads foreignEx entry.1)

/-- The candidates as they are offered. -/
def candidates (scan : RecoveryScan) : List RecoveryCandidate :=
  let live := scan.scanForeignShorts .bybit ++ scan.scanForeignShorts .okx
  scan.sort.sort ((addSaved live scan.loaded).map (restoreEntry scan.loaded))

/-- The symbols that the blacklist leaves out (main.cpp:1261-1271). -/
def botManagedSymbols (scan : RecoveryScan) : Finset SymbolId :=
  match scan.loaded with
  | none => ∅
  | some savedPos => {savedPos.symbol}

/-- The blacklist of the start-up. -/
def blacklist (scan : RecoveryScan) (venues : VenueClients) : Finset SymbolId :=
  OrderManager.refreshExternalPositions scan.std venues scan.commonSymbols scan.botManagedSymbols

/-- The candidate that the user chose: what `stoi` read, 0 where it threw (main.cpp:1815-1822). -/
def selected (scan : RecoveryScan) (choice : ℤ) : Option RecoveryCandidate :=
  if 1 ≤ choice ∧ choice ≤ scan.candidates.length then scan.candidates[(choice - 1).toNat]?
  else none

end RecoveryScan

end SpotRelay.Model
