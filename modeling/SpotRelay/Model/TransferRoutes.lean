import Mathlib.Data.Finset.Image
import Mathlib.Data.List.AList
import Mathlib.Data.String.Basic
import SpotRelay.Model.PriceCache

/-!
# Transfer routes of the price cache

The tables of withdrawal fees, deposit networks and withdrawal flags that `PriceCache` is fed, and
the snapshot that `finalize_withdraw_fees` computes from them (arbitrage_engine.hpp:149-187,
275-309, 342-388, 419-473).
-/

set_option autoImplicit false

namespace SpotRelay.Model

/-! ## Network names -/

/-- The letters and digits of a name, in upper case. -/
def plainName (raw : String) : String :=
  String.ofList ((raw.toList.filter Char.isAlphanum).map Char.toUpper)

/-- The canonical form of a network that the venues name differently. -/
def chainAliases : List (String × String) :=
  [("BITCOIN", "BTC"), ("ETHEREUM", "ETH"), ("POLYGON", "MATIC"), ("POL", "MATIC"),
    ("SOLANA", "SOL"), ("TRON", "TRX"), ("RIPPLE", "XRP"), ("LITECOIN", "LTC"),
    ("DOGECOIN", "DOGE"), ("AVALANCHE", "AVAXC"), ("AVALANCHECCHAIN", "AVAXC"),
    ("STELLAR", "XLM"), ("COSMOS", "ATOM"), ("POLKADOT", "DOT"), ("CARDANO", "ADA"),
    ("ALGORAND", "ALGO"), ("NEAR", "NEAR"), ("ARBITRUMONE", "ARBONE"), ("BSC", "BEP20"),
    ("BNBSMARTCHAIN", "BEP20"), ("OPTIMISM", "OP")]

/-- `PriceCache::normalize_chain`. -/
def normalizeChain (raw : String) : String :=
  (chainAliases.lookup (plainName raw)).getD (plainName raw)

/-! ## Tables -/

/-- `PriceCache::NetworkFee`. -/
structure NetworkFee where
  network : String
  feeCoins : ℚ
deriving DecidableEq

/-- A map from venues to maps from coins. -/
abbrev CoinTable (α : Type) := AList fun _ : Exchange => AList fun _ : List Char => α

namespace CoinTable

variable {α : Type}

/-- `table[ex][base] = a`. -/
def set (m : CoinTable α) (ex : Exchange) (base : List Char) (a : α) : CoinTable α :=
  AList.insert ex (AList.insert base a ((AList.lookup ex m).getD ∅)) m

def find (m : CoinTable α) (ex : Exchange) (base : List Char) : Option α :=
  (AList.lookup ex m).bind fun coins => coins.lookup base

/-- The coins of all venues. -/
def coins (m : CoinTable α) : List (List Char) :=
  m.entries.flatMap fun entry => entry.2.keys

end CoinTable

structure TransferTables where
  withdrawNetworkFees : CoinTable (List NetworkFee) := ∅
  foreignDepositNets : CoinTable (Finset String) := ∅
  koreanWithdrawEnabled : CoinTable Bool := ∅

/-- The calls that feed the tables. -/
inductive TransferCall
  | setWithdrawNetworkFees (ex : Exchange) (base : List Char) (fees : List NetworkFee)
  | setForeignDepositNetworks (ex : Exchange) (base : List Char) (nets : Finset String)
  | setKoreanWithdrawEnabled (ex : Exchange) (base : List Char) (enabled : Bool)
  | clearWithdrawNetworkFees (ex : Exchange)
  | clearForeignDepositNetworks (ex : Exchange)
  | clearKoreanWithdrawStatus (ex : Exchange)

/-- `std::numeric_limits<double>::max()`. -/
def doubleMax : ℚ := (2 ^ 53 - 1) * 2 ^ 971

namespace TransferTables

def call (t : TransferTables) : TransferCall → TransferTables
  | .setWithdrawNetworkFees ex base fees =>
    { t with
      withdrawNetworkFees := t.withdrawNetworkFees.set ex base
        (fees.map fun nf => { nf with network := normalizeChain nf.network }) }
  | .setForeignDepositNetworks ex base nets =>
    { t with foreignDepositNets := t.foreignDepositNets.set ex base (nets.image normalizeChain) }
  | .setKoreanWithdrawEnabled ex base enabled =>
    { t with koreanWithdrawEnabled := t.koreanWithdrawEnabled.set ex base enabled }
  | .clearWithdrawNetworkFees ex =>
    { t with withdrawNetworkFees := t.withdrawNetworkFees.erase ex }
  | .clearForeignDepositNetworks ex =>
    { t with foreignDepositNets := t.foreignDepositNets.erase ex }
  | .clearKoreanWithdrawStatus ex =>
    { t with koreanWithdrawEnabled := t.koreanWithdrawEnabled.erase ex }

/-- The loop over the withdrawal networks: the smallest fee so far, and its network. -/
def cheapestNetwork (nets : Finset String) (fees : List NetworkFee) : ℚ × String :=
  fees.foldl (fun best nf =>
    if nf.network ∈ nets ∧ nf.feeCoins < best.1 then (nf.feeCoins, nf.network) else best)
    (doubleMax, "")

/-- `get_withdraw_fee_locked`. -/
def getWithdrawFeeLocked (t : TransferTables) (koreanEx foreignEx : Exchange) (base : List Char)
    (refreshedAtMs : UInt64) : TransferRoute :=
  let depositNets := (t.foreignDepositNets.find foreignEx base).getD ∅
  let withdrawFees := (t.withdrawNetworkFees.find koreanEx base).getD []
  let depositOpen := decide (depositNets ≠ ∅)
  let withdrawOpen :=
    decide (withdrawFees ≠ []) && (t.koreanWithdrawEnabled.find koreanEx base).getD true
  let route : TransferRoute :=
    { withdrawOpen := withdrawOpen
      depositOpen := depositOpen
      refreshedAtMs := refreshedAtMs }
  if !withdrawOpen || !depositOpen then route
  else
    let best := cheapestNetwork depositNets withdrawFees
    let route := { route with network := best.2 }
    if best.1 < doubleMax then { route with available := true, feeCoins := best.1 } else route

/-- The coins of any table. -/
def allCoins (t : TransferTables) : List (List Char) :=
  (t.withdrawNetworkFees.coins ++ t.foreignDepositNets.coins ++
    t.koreanWithdrawEnabled.coins).dedup

def koreanExs (t : TransferTables) : List Exchange :=
  t.withdrawNetworkFees.keys ++
    t.koreanWithdrawEnabled.keys.filter fun ex => ex ∉ t.withdrawNetworkFees.keys

def foreignExs (t : TransferTables) : List Exchange :=
  if t.foreignDepositNets.keys = [] then [.bybit, .okx] else t.foreignDepositNets.keys

/-- The routes that `finalize_withdraw_fees` goes through. -/
def routeKeys (t : TransferTables) : List Route :=
  t.allCoins.flatMap fun coin =>
    t.koreanExs.flatMap fun koreanEx => t.foreignExs.map fun foreignEx => (koreanEx, foreignEx, coin)

/-- The route of a key. -/
def route (t : TransferTables) (nowMs : UInt64) (key : Route) : TransferRoute :=
  t.getWithdrawFeeLocked key.1 key.2.1 key.2.2 nowMs

/-- The snapshot of `finalize_withdraw_fees`. -/
def finalizeWithdrawFees (t : TransferTables) (nowMs : UInt64) : TransferSnapshot :=
  { fees := (t.routeKeys.filter fun key => (t.route nowMs key).available).map fun key =>
      (key, (t.route nowMs key).feeCoins)
    routes := t.routeKeys.map fun key => (key, t.route nowMs key)
    refreshedAtMs := nowMs }

end TransferTables

/-- The tables after a sequence of calls. -/
def runTransferCalls (calls : List TransferCall) : TransferTables :=
  calls.foldl TransferTables.call {}

/-- The cache once `finalize_withdraw_fees` has published the tables. -/
def PriceCache.publishTransfers (c : PriceCache) (t : TransferTables) (nowMs : UInt64) :
    PriceCache :=
  { c with transferSnapshot := t.finalizeWithdrawFees nowMs }

end SpotRelay.Model
