import Mathlib.Data.List.Dedup
import SpotRelay.Model.Types

/-!
# The transfer check of the scanner

What `SpotRelayScanner` reads of the networks of a coin, and when a candidate counts as ready for a
transfer (spot_relay_scanner.cpp:97-106, 261-291, 403-427, 459-479, 744-752;
spot_relay_scanner.hpp:61-63).
-/

set_option autoImplicit false

namespace SpotRelay.Model

namespace SpotRelayScanner

/-- `normalize_chain` of the scanner. -/
def normalizeChain (value : String) : String :=
  String.ofList ((value.toList.filter Char.isAlphanum).map Char.toUpper)

/-- `std::sort`, then `std::unique` and `erase`. -/
def sortUnique (names : List String) : List String :=
  (names.mergeSort fun a b => decide (a ≤ b)).dedup

/-- An entry of the `multichain` answer of Bithumb; the status is `none` where
`parse_json_boolish` has no answer. -/
structure NetworkItem where
  netType : Option String := none
  withdrawalStatus : Option Bool := none

/-- The names of the networks with withdrawals enabled. -/
def withdrawableNames (items : List NetworkItem) : List String :=
  items.filterMap fun item => if item.withdrawalStatus.getD false then item.netType else none

/-- `parse_bithumb_multichain_withdrawable_networks`. -/
def parseWithdrawableNetworks (items : List NetworkItem) : List String :=
  sortUnique ((withdrawableNames items).map normalizeChain)

/-- An entry of `chains` in the coin information of Bybit. -/
structure ChainItem where
  chain : Option String := none
  chainType : Option String := none
  chainDeposit : Option Bool := none
  chainWithdraw : Option Bool := none

/-- The name of a chain: `chainType` stands in where there is no `chain`. -/
def ChainItem.name (item : ChainItem) : Option String := item.chain <|> item.chainType

/-- `BybitChainInfo`. -/
structure BybitChainInfo where
  chain : String
  depositEnabled : Bool
  withdrawEnabled : Bool

/-- The chains of a coin in `parse_bybit_coin_info`; one without a name is left out. -/
def parseBybitChains (items : List ChainItem) : List BybitChainInfo :=
  (items.map fun item =>
    { chain := (item.name.map normalizeChain).getD ""
      depositEnabled := item.chainDeposit.getD false
      withdrawEnabled := item.chainWithdraw.getD false }).filter fun info => info.chain ≠ ""

/-- `intersect_networks`. -/
def intersectNetworks (bithumbNetworks : List String) (bybitChains : List BybitChainInfo) :
    List String :=
  let bybitDepositNetworks :=
    (bybitChains.filter fun chain => chain.depositEnabled).map fun chain => chain.chain
  sortUnique (bithumbNetworks.filter fun net => net ∈ bybitDepositNetworks)

end SpotRelayScanner

open SpotRelayScanner

/-- What `SpotRelayCandidate` says of transfers. -/
structure SpotRelayCandidate where
  bithumbWithdrawEnabled : Bool
  bybitDepositEnabled : Bool
  sharedNetworks : List String

/-- The candidate of a coin that Bybit has information on. -/
def SpotRelayCandidate.ofChains (bithumbWithdrawEnabled : Bool) (items : List NetworkItem)
    (chains : List ChainItem) : SpotRelayCandidate :=
  { bithumbWithdrawEnabled := bithumbWithdrawEnabled
    bybitDepositEnabled := (parseBybitChains chains).any fun chain => chain.depositEnabled
    sharedNetworks := intersectNetworks (parseWithdrawableNetworks items) (parseBybitChains chains) }

/-- `transfer_ready`. -/
def SpotRelayCandidate.transferReady (c : SpotRelayCandidate) : Bool :=
  c.bithumbWithdrawEnabled && c.bybitDepositEnabled && !c.sharedNetworks.isEmpty

end SpotRelay.Model
