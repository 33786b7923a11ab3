import SpotRelay.Interface.HedgeAccount

/-!
# Truthful venues

A venue that accepts or rejects every order, executes any part of an accepted one, and
answers each fill query with the order's final state.  A foreign fill query reports the
cumulative quantity and the average price; a Korean order body reports a final state, the
executed volume and the list of trades.
-/

set_option autoImplicit false

namespace SpotRelay.Interface

open SpotRelay.Model

/-- A foreign fill report that states what was executed. -/
def TruthfulFill (r : ForeignReply) (f : ForeignFill) : Prop :=
  f.cumExecQty = r.executed ∧ f.avgPrice = r.price

/-- A foreign venue's truthful answers about one order. -/
structure TruthfulForeign (r : ForeignReply) : Prop where
  executed_nonneg : 0 ≤ r.executed
  price_pos : 0 < r.price
  /-- An order that is not acknowledged with an id was not accepted. -/
  rejected : (∀ orderId, r.ack ≠ .accepted orderId) → r.executed = 0
  id_nonempty : ∀ orderId, r.ack = .accepted orderId → orderId.isEmpty = false
  cachedFill : ∀ f, r.cachedFill = some f → TruthfulFill r f
  /-- The first fill query is answered, and every answer is truthful. -/
  answered : ∃ f rest, r.polls = some f :: rest
  polls : ∀ f, some f ∈ r.polls → TruthfulFill r f

/-- A Korean order body that states what was executed, in a final state. -/
structure TruthfulBody (r : KoreanReply) (b : OrderBody) : Prop where
  uuid_nonempty : b.uuid.isEmpty = false
  final : b.state = .done ∨ b.state = .cancel
  executed : b.executedVolume = r.executed
  trades : tradeTotals b.trades = (r.executed, r.executed * r.price)

/-- A Korean venue's truthful answers about one order. -/
structure TruthfulKorean (r : KoreanReply) : Prop where
  executed_nonneg : 0 ≤ r.executed
  price_pos : 0 < r.price
  rejected : r.response = none → r.executed = 0
  uuid_nonempty : ∀ b, r.response = some b → b.uuid.isEmpty = false
  cachedFill : ∀ volume funds, r.cachedFill = some (volume, funds) →
    volume = r.executed ∧ funds = r.executed * r.price
  answered : r.polls ≠ []
  polls : ∀ p ∈ r.polls, ∃ b, p = some b ∧ TruthfulBody r b

/-- Every venue answers truthfully about every order of an iteration. -/
structure TruthfulReplies (r : SplitReplies) : Prop where
  foreign : TruthfulForeign r.foreign
  korean : TruthfulKorean r.korean
  rollback : TruthfulForeign r.rollback
  coverDelta : TruthfulForeign r.coverDelta
  sellDelta : TruthfulKorean r.sellDelta
  retries : ∀ i, TruthfulKorean (r.retries i)

/-! ## Truthful replies exist -/

/-- A foreign venue that accepts an order and executes `quantity` of it at `price`. -/
def executingForeign (quantity price : ℚ) : ForeignReply where
  ack := .accepted "1"
  polls := [some ⟨price, quantity⟩]
  executed := quantity
  price := price

/-- A foreign venue that rejects an order. -/
def rejectingForeign : ForeignReply where
  polls := [some ⟨1, 0⟩]
  price := 1

/-- The order body of a Korean order in the given state. -/
def orderBody (state : BodyState) (quantity price : ℚ) : OrderBody where
  uuid := "1"
  state := state
  executedVolume := quantity
  remainingVolume := 0
  trades := [(quantity, quantity * price)]
  side := none
  price := 0
  volume := 0

/-- A Korean venue that accepts an order, executes `quantity` of it at `price` and ends it in
the state `final`. -/
def executingKorean (final : BodyState) (quantity price : ℚ) : KoreanReply where
  response := some (orderBody .wait 0 price)
  polls := [some (orderBody final quantity price)]
  executed := quantity
  price := price

/-- A Korean venue that rejects an order. -/
def rejectingKorean : KoreanReply where
  polls := [some (orderBody .cancel 0 1)]
  price := 1

/-- A foreign venue that executes the whole order and says so is truthful. -/
theorem executingForeign_truthful {quantity price : ℚ} (hq : 0 ≤ quantity) (hp : 0 < price) :
    TruthfulForeign (executingForeign quantity price) where
  executed_nonneg := hq
  price_pos := hp
  rejected := fun h => absurd rfl (h "1")
  id_nonempty := by
    intro orderId h
    cases h
    rfl
  cachedFill := by
    intro f h
    cases h
  answered := ⟨_, _, rfl⟩
  polls := by
    intro f h
    simp only [executingForeign, List.mem_singleton, Option.some.injEq] at h
    rw [h]
    exact ⟨rfl, rfl⟩

/-- A foreign venue that rejects the order and executes nothing is truthful. -/
theorem rejectingForeign_truthful : TruthfulForeign rejectingForeign where
  executed_nonneg := le_refl 0
  price_pos := one_pos
  rejected := fun _ => rfl
  id_nonempty := by
    intro orderId h
    cases h
  cachedFill := by
    intro f h
    cases h
  answered := ⟨_, _, rfl⟩
  polls := by
    intro f h
    simp only [rejectingForeign, List.mem_singleton, Option.some.injEq] at h
    rw [h]
    exact ⟨rfl, rfl⟩

/-- The trades of an order body add up to its quantity and its worth. -/
theorem tradeTotals_orderBody {state : BodyState} {quantity price : ℚ} (hq : 0 ≤ quantity)
    (hp : 0 < price) :
    tradeTotals (orderBody state quantity price).trades = (quantity, quantity * price) := by
  rcases hq.eq_or_lt with rfl | hpos
  · simp [orderBody, tradeTotals]
  · simp [orderBody, tradeTotals, hpos, mul_pos hpos hp]

/-- A Korean venue that executes the whole order and says so is truthful. -/
theorem executingKorean_truthful {final : BodyState} (hfinal : final = .done ∨ final = .cancel)
    {quantity price : ℚ} (hq : 0 ≤ quantity) (hp : 0 < price) :
    TruthfulKorean (executingKorean final quantity price) where
  executed_nonneg := hq
  price_pos := hp
  rejected := by
    intro h
    cases h
  uuid_nonempty := by
    intro b h
    cases h
    rfl
  cachedFill := by
    intro volume funds h
    cases h
  answered := by simp [executingKorean]
  polls := by
    intro p h
    rw [executingKorean, List.mem_singleton] at h
    exact ⟨_, h, rfl, hfinal, rfl, tradeTotals_orderBody hq hp⟩

/-- A Korean venue that rejects the order and executes nothing is truthful. -/
theorem rejectingKorean_truthful : TruthfulKorean rejectingKorean where
  executed_nonneg := le_refl 0
  price_pos := one_pos
  rejected := fun _ => rfl
  uuid_nonempty := by
    intro b h
    cases h
  cachedFill := by
    intro volume funds h
    cases h
  answered := by simp [rejectingKorean]
  polls := by
    intro p h
    rw [rejectingKorean, List.mem_singleton] at h
    exact ⟨_, h, rfl, Or.inr rfl, rfl, tradeTotals_orderBody (le_refl 0) one_pos⟩

/-- The replies of an iteration whose two legs are answered as given; every other order would
be rejected. -/
def legReplies (foreign : ForeignReply) (korean : KoreanReply) : SplitReplies where
  foreign := foreign
  korean := korean
  rollback := rejectingForeign
  coverDelta := rejectingForeign
  sellDelta := rejectingKorean
  retries := fun _ => rejectingKorean

/-- Two truthful venues make truthful replies to a split. -/
theorem legReplies_truthful {foreign : ForeignReply} {korean : KoreanReply}
    (hforeign : TruthfulForeign foreign) (hkorean : TruthfulKorean korean) :
    TruthfulReplies (legReplies foreign korean) where
  foreign := hforeign
  korean := hkorean
  rollback := rejectingForeign_truthful
  coverDelta := rejectingForeign_truthful
  sellDelta := rejectingKorean_truthful
  retries := fun _ => rejectingKorean_truthful

/-! ## A market -/

/-- A call for XRP between a Korean and a foreign venue. -/
def sampleCall (korean foreign : Exchange) : Call where
  signal :=
    { symbol := SymbolId.of "XRP" "KRW"
      koreanExchange := korean
      foreignExchange := foreign
      koreanAsk := 1000
      koreanAskQty := 1000
      foreignBid := 1
      foreignBidQty := 1000
      usdtKrwRate := 1400 }

/-- A market that quotes the coin at `won` KRW and at one dollar of 1400 KRW. -/
def sampleMarket (won : ℚ) : MarketView where
  nowMs := 1000
  foreign := ⟨1, 1, 1000, 1000, 1, 900, true⟩
  korean := ⟨won, won, 1000, 1000, won, 900, true⟩
  bithumbUsdt := 1400

end SpotRelay.Interface
