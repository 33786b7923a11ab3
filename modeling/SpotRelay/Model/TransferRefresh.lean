import Mathlib.Data.List.Lex
import Mathlib.Data.List.Sort
import SpotRelay.Model.Engine
import SpotRelay.Model.TransferRoutes

/-!
# The refresh of the transfer routes

`refresh_transfer_routes` of main.cpp (1377-1393, 1431-1522, 1924-1940): every half hour the venues
are asked for their fees, statuses and networks, each answer that is not empty replaces what that
venue said before, and the routes are published; then the engine recomputes its entries.  Between
the two the feeds go on.  And `get_transfer_blocked_symbols` (arbitrage_engine.cpp:1075-1161), which
lists the symbols that no route is open for.
-/

set_option autoImplicit false

namespace SpotRelay.Model

/-! ## Answers -/

/-- An `std::unordered_map` from coins, in the order of its iteration. -/
abbrev CoinMap (α : Type) := AList fun _ : List Char => α

/-- `upbit_enabled` and `okx_enabled`. -/
structure VenueSwitches where
  upbitEnabled : Bool
  okxEnabled : Bool

/-- What the venues answer to one refresh; an empty map where the request failed. -/
structure RouteAnswers where
  bithumbFees : CoinMap (List NetworkFee) := ∅
  /-- `AssetStatus::withdraw_enabled`. -/
  bithumbStatuses : CoinMap Bool := ∅
  upbitFees : CoinMap (List NetworkFee) := ∅
  bybitNets : CoinMap (Finset String) := ∅
  okxNets : CoinMap (Finset String) := ∅

/-- An answer that is not empty: the venue's table is cleared and set anew. -/
def replaceCalls {α : Type} (clear : TransferCall) (set : List Char → α → TransferCall)
    (answer : CoinMap α) : List TransferCall :=
  if answer.entries = [] then [] else clear :: answer.entries.map fun entry => set entry.1 entry.2

def feeCalls (ex : Exchange) (answer : CoinMap (List NetworkFee)) : List TransferCall :=
  replaceCalls (.clearWithdrawNetworkFees ex) (.setWithdrawNetworkFees ex) answer

def statusCalls (ex : Exchange) (answer : CoinMap Bool) : List TransferCall :=
  replaceCalls (.clearKoreanWithdrawStatus ex) (.setKoreanWithdrawEnabled ex) answer

def networkCalls (ex : Exchange) (answer : CoinMap (Finset String)) : List TransferCall :=
  replaceCalls (.clearForeignDepositNetworks ex) (.setForeignDepositNetworks ex) answer

namespace RouteAnswers

/-- The calls of a refresh, in its order. -/
def calls (switches : VenueSwitches) (answers : RouteAnswers) : List TransferCall :=
  feeCalls .bithumb answers.bithumbFees ++
    (statusCalls .bithumb answers.bithumbStatuses ++
      ((if switches.upbitEnabled then feeCalls .upbit answers.upbitFees else []) ++
        (networkCalls .bybit answers.bybitNets ++
          if switches.okxEnabled then networkCalls .okx answers.okxNets else [])))

/-- `updated_any`. -/
def updatedAny (switches : VenueSwitches) (answers : RouteAnswers) : Bool :=
  !answers.bithumbFees.entries.isEmpty || !answers.bithumbStatuses.entries.isEmpty ||
    (switches.upbitEnabled && !answers.upbitFees.entries.isEmpty) ||
    !answers.bybitNets.entries.isEmpty ||
    (switches.okxEnabled && !answers.okxNets.entries.isEmpty)

end RouteAnswers

/-! ## The program around the engine -/

/-- The engine with the tables of its price cache.  `refreshing` is set from the publication of a
refresh until it has recomputed the entries. -/
structure RouteProgram where
  switches : VenueSwitches
  engine : Engine := .initial
  tables : TransferTables
  refreshing : Bool := false
  /-- The answers so far, and those of the refreshes that are over (ghost). -/
  answers : List RouteAnswers := []
  settled : List RouteAnswers := []
  /-- The routes before the refresh that is under way (ghost). -/
  previous : TransferSnapshot := {}

/-- A step of one of the threads. -/
inductive RouteEvent
  /-- `refresh_transfer_routes`, until `finalize_withdraw_fees` has published the routes. -/
  | refresh (answers : RouteAnswers) (nowMs : UInt64)
  /-- `engine.refresh_entry_filters()` of the same refresh. -/
  | refilter (nowMs : UInt64)
  /-- Feeds and loops; nothing but a refresh publishes routes. -/
  | engineOp (op : Engine.Op)

namespace RouteProgram

/-- The fees of Bithumb that are loaded before the first refresh; nothing is cleared, and nothing is
published. -/
def startupCalls (fees : CoinMap (List NetworkFee)) : List TransferCall :=
  fees.entries.map fun entry => .setWithdrawNetworkFees .bithumb entry.1 entry.2

/-- The program before its first refresh. -/
def start (switches : VenueSwitches) (fees : CoinMap (List NetworkFee)) : RouteProgram where
  switches := switches
  tables := runTransferCalls (startupCalls fees)

/-- A refresh waits for `transfer_refresh_mutex` while another is under way. -/
def refresh (p : RouteProgram) (answers : RouteAnswers) (nowMs : UInt64) : RouteProgram :=
  if p.refreshing then p
  else
    let p := { p with answers := p.answers ++ [answers] }
    if answers.updatedAny p.switches then
      let tables := (answers.calls p.switches).foldl TransferTables.call p.tables
      { p with
        tables := tables
        engine := { p.engine with
          priceCache := p.engine.priceCache.publishTransfers tables nowMs }
        refreshing := true
        previous := p.engine.priceCache.transferSnapshot }
    else { p with settled := p.answers }

/-- `refresh_entry_filters`, and the refresh is over. -/
def refilter (p : RouteProgram) (nowMs : UInt64) : RouteProgram :=
  if p.refreshing then
    { p with
      engine := p.engine.updateAllEntries nowMs
      refreshing := false
      settled := p.answers }
  else p

variable (std : StdSort) (maxPositions : MaxPositions)

/-- The new state and the signals that the step emits. -/
def step (p : RouteProgram) : RouteEvent → RouteProgram × List Engine.Emission
  | .refresh answers nowMs => (p.refresh answers nowMs, [])
  | .refilter nowMs => (p.refilter nowMs, [])
  | .engineOp (.publishTransfers _) => (p, [])
  | .engineOp op =>
    ({ p with engine := (p.engine.step std maxPositions op).1 },
      (p.engine.step std maxPositions op).2)

/-- The state after a run. -/
def run (p : RouteProgram) (events : List RouteEvent) : RouteProgram :=
  events.foldl (fun p event => (p.step std maxPositions event).1) p

end RouteProgram

/-! ## Blocked symbols -/

/-- `SymbolId::to_string`. -/
def SymbolId.text (symbol : SymbolId) : List Char := symbol.base ++ '/' :: symbol.quote

/-- `PriceCache::get_transfer_route`. -/
def PriceCache.getTransferRoute (c : PriceCache) (route : Route) : Option TransferRoute :=
  c.transferSnapshot.routes.lookup route

/-- `TransferBlockInfo`. -/
structure TransferBlockInfo where
  symbol : SymbolId
  koreanExchange : Exchange
  foreignExchange : Exchange
  reason : String
deriving DecidableEq

/-- A counter and the first pair that was counted. -/
structure BlockTally where
  count : ℕ := 0
  info : Option TransferBlockInfo := none

def BlockTally.add (tally : BlockTally) (info : TransferBlockInfo) : BlockTally :=
  { count := tally.count + 1, info := tally.info.or (some info) }

/-- The tallies of a symbol. -/
structure BlockTallies where
  missing : BlockTally := {}
  withdraw : BlockTally := {}
  deposit : BlockTally := {}
  noShared : BlockTally := {}

/-- The loop over the pairs, `none` where it meets a route that is available. -/
def tallyPairs (c : PriceCache) (symbol : SymbolId) :
    List ExchangePairConfig → BlockTallies → Option BlockTallies
  | [], t => some t
  | pair :: pairs, t =>
    match c.getTransferRoute (pair.korean, pair.foreign, symbol.base) with
    | none =>
      tallyPairs c symbol pairs { t with
        missing := t.missing.add ⟨symbol, pair.korean, pair.foreign, "route data missing"⟩ }
    | some route =>
      if route.available then none
      else if !route.withdrawOpen then
        tallyPairs c symbol pairs { t with
          withdraw := t.withdraw.add ⟨symbol, pair.korean, pair.foreign, "KR withdraw off"⟩ }
      else if !route.depositOpen then
        tallyPairs c symbol pairs { t with
          deposit := t.deposit.add ⟨symbol, pair.korean, pair.foreign, "Foreign deposit off"⟩ }
      else
        tallyPairs c symbol pairs { t with
          noShared := t.noShared.add ⟨symbol, pair.korean, pair.foreign, "no shared network"⟩ }

/-- What is listed for a symbol with no route (arbitrage_engine.cpp:1126-1153). -/
def blockInfo (pairCount : ℕ) (t : BlockTallies) : Option TransferBlockInfo :=
  if pairCount = 0 then none
  else if t.withdraw.count = pairCount ∧ t.withdraw.info.isSome then t.withdraw.info
  else if t.deposit.count = pairCount ∧ t.deposit.info.isSome then t.deposit.info
  else if t.noShared.count = pairCount ∧ t.noShared.info.isSome then t.noShared.info
  else if t.missing.count = pairCount ∧ t.missing.info.isSome then t.missing.info
  else if t.withdraw.info.isSome then
    t.withdraw.info.map fun info => { info with reason := "no live route (KR withdraw off mixed)" }
  else if t.deposit.info.isSome then
    t.deposit.info.map fun info =>
      { info with reason := "no live route (Foreign deposit off mixed)" }
  else if t.noShared.info.isSome then
    t.noShared.info.map fun info => { info with reason := "no live route (shared net none)" }
  else t.missing.info

/-- `std::sort` by a text.  It is not stable, so nothing is said about equal texts. -/
structure TextSort where
  sort : List TransferBlockInfo → List TransferBlockInfo
  perm : ∀ infos, (sort infos).Perm infos
  sorted : ∀ infos, (sort infos).Pairwise fun a b => a.symbol.text ≤ b.symbol.text

/-- A sort that keeps the order of equal texts. -/
def TextSort.insertion : TextSort where
  sort := fun infos => infos.insertionSort fun a b => a.symbol.text ≤ b.symbol.text
  perm := fun infos => infos.perm_insertionSort _
  sorted := fun infos => by
    have : Std.Total fun a b : TransferBlockInfo => a.symbol.text ≤ b.symbol.text :=
      ⟨fun a b => le_total a.symbol.text b.symbol.text⟩
    have : IsTrans TransferBlockInfo fun a b => a.symbol.text ≤ b.symbol.text :=
      ⟨fun _ _ _ => le_trans⟩
    exact infos.pairwise_insertionSort _

/-- `get_transfer_blocked_symbols`. -/
def Engine.getTransferBlockedSymbols (std : TextSort) (e : Engine) : List TransferBlockInfo :=
  std.sort (e.symbols.symbols.filterMap fun symbol =>
    (tallyPairs e.priceCache symbol e.exchangePairs {}).bind (blockInfo e.exchangePairs.length))

end SpotRelay.Model
