import SpotRelay.Library.DecimalText
import SpotRelay.Model.Clients

/-!
# The sizes of the cover orders

What `close_short` prints into the order that it submits at either foreign venue.  A Bybit cover is
sized in coins (`qty`), an OKX cover in quote currency (`sz`); both are printed with eight decimals.
-/

set_option autoImplicit false

namespace SpotRelay.Model

open SpotRelay.Library.DecimalText

/-- `%.8f` of a size that is not negative. -/
def sizeText (size : ℚ) : List Char := fixedText 8 size

/-- The ask that an OKX cover is priced with, or the last price without one. -/
def coverPriceHint (ticker : Option CachedTicker) : ℚ :=
  match ticker with
  | none => 0
  | some t => if 0 < t.ask then t.ask else t.last

/-- The minimum notional of the filter, 0 without one. -/
def coverMinNotional (lot : Option LotSize) : ℚ :=
  match lot with
  | none => 0
  | some l => l.minNotional

/-- What `BybitExchange::close_short` submits, `none` when it rejects (bybit.cpp:513-559). -/
def bybitCoverQty (r : ForeignReply) (quantity : ℚ) : Option (List Char) :=
  let adjQty := normalizeCloseQty r.lot quantity
  if adjQty ≤ 0 then none
  else if !r.marginReady then none
  else some (sizeText adjQty)

/-- What `OkxExchange::close_short` submits, `none` when it rejects (okx.cpp:592-645). -/
def okxCoverSz (r : ForeignReply) (quantity : ℚ) : Option (List Char) :=
  let adjQty := normalizeOrderQty r.lot r.ticker quantity false
  if adjQty ≤ 0 then none
  else if !r.marginReady then none
  else
    let priceHint := coverPriceHint r.ticker
    if priceHint ≤ 0 then none
    else
      let minNotional := coverMinNotional r.lot
      let closeNotional := adjQty * priceHint * (1 + TradingConfig.okxFeeRate)
      let closeNotional :=
        if 0 < minNotional ∧ closeNotional < minNotional then minNotional else closeNotional
      if closeNotional ≤ 0 then none else some (sizeText closeNotional)

/-- The size that the client of a venue submits for a cover. -/
def coverOrder (ex : Exchange) (r : ForeignReply) (quantity : ℚ) : Option (List Char) :=
  match getForeignExchange ex with
  | .okx => okxCoverSz r quantity
  | _ => bybitCoverQty r quantity

end SpotRelay.Model
