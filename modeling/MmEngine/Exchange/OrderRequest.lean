/-
# Validation of outbound requests

What a venue can do, and the check an order passes before it is sent: identity,
quantity, price, coherence of type and time in force, and capabilities, in that
order. A refusal says why, and the request has not been sent.
-/

import MmEngine.Common.Instrument
import MmEngine.Exchange.ExecutionEvents

namespace MmEngine.Exchange

/-- What a venue can do, as far as the order path reads it. -/
structure ExchangeCapabilities where
  supportsPostOnly : Bool := false
  supportsReplace : Bool := false
  supportsReduceOnly : Bool := false
  supportsClientOrderId : Bool := true
  maxClientOrderIdLen : Nat := 36
  deriving DecidableEq

/-- A refusal with the text that explains it. -/
structure Refusal where
  error : ExchangeError
  detail : String
  deriving DecidableEq

/-- A request the engine refuses to send. -/
def invalid (reason : RejectReason) (detail : String) : Option Refusal :=
  some ⟨⟨.invalidRequest, .notSent, reason⟩, detail⟩

/-- A request the venue cannot express. -/
def unsupported (detail : String) : Option Refusal :=
  some ⟨⟨.unsupportedOperation, .notSent, .none⟩, detail⟩

namespace OrderRequest

def isPostOnly (request : OrderRequest) : Bool := request.postOnly || request.type = .limitMaker

def requiresPrice (request : OrderRequest) : Bool := request.type ≠ .market

def notional (request : OrderRequest) : Notional := notionalOf request.price request.quantity

end OrderRequest

/-- Checks an order against the instrument's rules and the venue's capabilities. -/
def validateOrder (request : OrderRequest) (spec : InstrumentSpec) (caps : ExchangeCapabilities) :
    Option Refusal :=
  -- Identity.
  if request.clientOrderId.isEmpty then invalid .unknown "client order id is empty"
  else if caps.maxClientOrderIdLen < request.clientOrderId.chars.length then
    invalid .unknown "client order id exceeds venue length limit"
  else if request.symbol.isEmpty then invalid .symbolNotTrading "symbol is empty"
  else if !spec.isValid then invalid .symbolNotTrading "instrument spec is not loaded"
  else if request.symbol ≠ spec.symbol then
    invalid .symbolNotTrading "request symbol does not match spec"
  else if spec.status ≠ .trading then invalid .symbolNotTrading "instrument is not trading"
  -- Quantity.
  else if !request.quantity.isPositive then
    invalid .quantityOutOfBounds "quantity must be positive"
  else if !isOnStep request.quantity spec.lotSize then
    invalid .lotSizeViolation "quantity is not on the lot grid"
  else if spec.minQty.isPositive && request.quantity.raw < spec.minQty.raw then
    invalid .quantityOutOfBounds "quantity below the venue minimum"
  else if spec.maxQty.isPositive && spec.maxQty.raw < request.quantity.raw then
    invalid .quantityOutOfBounds "quantity above the venue maximum"
  -- Price.
  else if request.requiresPrice && !request.price.isPositive then
    invalid .priceOutOfBounds "limit order requires a positive price"
  else if request.requiresPrice && !isOnStep request.price spec.tickSize then
    invalid .tickSizeViolation "price is not on the tick grid"
  else if request.requiresPrice && spec.priceBandLo.isPositive &&
      request.price.raw < spec.priceBandLo.raw then
    invalid .priceOutOfBounds "price below the venue band"
  else if request.requiresPrice && spec.priceBandHi.isPositive &&
      spec.priceBandHi.raw < request.price.raw then
    invalid .priceOutOfBounds "price above the venue band"
  else if request.requiresPrice && spec.minNotional.isPositive &&
      request.notional.raw < spec.minNotional.raw then
    invalid .notionalTooSmall "notional below the venue minimum"
  else if !request.requiresPrice && !request.price.isZero then
    invalid .priceOutOfBounds "market order must not carry a price"
  -- Type and time in force.
  else if request.type = .market && request.tif = .gtc then
    invalid .unknown "market order cannot be GTC"
  else if request.isPostOnly && request.type = .market then
    invalid .unknown "market order cannot be post-only"
  else if request.isPostOnly && (request.tif = .ioc || request.tif = .fok) then
    invalid .unknown "post-only is incompatible with IOC/FOK"
  -- Capabilities.
  else if request.isPostOnly && !caps.supportsPostOnly then
    unsupported "venue does not support post-only orders"
  else if request.reduceOnly && !caps.supportsReduceOnly then
    unsupported "venue does not support reduce-only orders"
  else if !caps.supportsClientOrderId then
    unsupported "venue does not support client order ids"
  else none

/-- The time of a request is not looked at. -/
theorem validateOrder_createdNs (request : OrderRequest) (createdNs : Nanos)
    (spec : InstrumentSpec) (caps : ExchangeCapabilities) :
    validateOrder { request with createdNs := createdNs } spec caps =
      validateOrder request spec caps := rfl

/-- A check that did not refuse was passed, and so was what follows it. -/
theorem of_ite_invalid_eq_none {refused : Prop} [Decidable refused] {reason : RejectReason}
    {detail : String} {rest : Option Refusal}
    (h : (if refused then invalid reason detail else rest) = none) : ¬refused ∧ rest = none := by
  by_cases hrefused : refused
  · rw [if_pos hrefused] at h
    cases h
  · rw [if_neg hrefused] at h
    exact ⟨hrefused, h⟩

/-- An order that passes has a positive quantity. -/
theorem quantity_pos_of_validateOrder {request : OrderRequest} {spec : InstrumentSpec}
    {caps : ExchangeCapabilities} (h : validateOrder request spec caps = none) :
    0 < request.quantity.raw := by
  rw [validateOrder] at h
  -- The identity comes first, then the quantity.
  have hlength := (of_ite_invalid_eq_none h).2
  have hsymbol := (of_ite_invalid_eq_none hlength).2
  have hloaded := (of_ite_invalid_eq_none hsymbol).2
  have hmatches := (of_ite_invalid_eq_none hloaded).2
  have htrading := (of_ite_invalid_eq_none hmatches).2
  have hquantity := (of_ite_invalid_eq_none (of_ite_invalid_eq_none htrading).2).1
  simpa using hquantity

end MmEngine.Exchange
