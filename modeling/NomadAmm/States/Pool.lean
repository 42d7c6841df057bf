import NomadAmm.Curve.Calculator
import NomadAmm.States.Config

/-! `states/pool.rs`. What exists once per token is a `PerToken`, read by the token
it is about; a vault account is named by its token as well, since the account
constraints admit no other vault. Keys of accounts and padding are left out. -/

namespace NomadAmm

open Lib.Checked Exec

inductive TokenSide
  | token0
  | token1
  deriving DecidableEq, Repr

structure PerToken (α : Type) where
  token0 : α
  token1 : α
  deriving DecidableEq, Repr

namespace PerToken

variable {α : Type}

def get (p : PerToken α) : TokenSide → α
  | .token0 => p.token0
  | .token1 => p.token1

def set (p : PerToken α) (side : TokenSide) (a : α) : PerToken α :=
  match side with
  | .token0 => { p with token0 := a }
  | .token1 => { p with token1 := a }

@[simp] theorem get_set_self (p : PerToken α) (side : TokenSide) (a : α) :
    (p.set side a).get side = a := by
  cases side <;> rfl

theorem get_set (p : PerToken α) (side side' : TokenSide) (a : α) :
    (p.set side a).get side' = if side' = side then a else p.get side' := by
  cases side <;> cases side' <;> rfl

@[ext] theorem ext {p q : PerToken α} (h : ∀ side, p.get side = q.get side) : p = q := by
  cases p
  cases q
  exact congrArg₂ PerToken.mk (h .token0) (h .token1)

end PerToken

namespace TradeDirection

/-- The token a swap in this direction takes in, and the one it pays out. -/
def input : TradeDirection → TokenSide
  | .zeroForOne => .token0
  | .oneForZero => .token1

def output : TradeDirection → TokenSide
  | .zeroForOne => .token1
  | .oneForZero => .token0

theorem input_ne_output (direction : TradeDirection) : direction.input ≠ direction.output := by
  cases direction <;> decide

theorem eq_of_input_eq {direction direction' : TradeDirection}
    (h : direction.input = direction'.input) : direction = direction' := by
  cases direction <;> cases direction' <;> cases h <;> rfl

@[simp] theorem input_opposite (direction : TradeDirection) :
    direction.opposite.input = direction.output := by
  cases direction <;> rfl

@[simp] theorem output_opposite (direction : TradeDirection) :
    direction.opposite.output = direction.input := by
  cases direction <;> rfl

/-- There is no third token. -/
theorem eq_input_or_output (direction : TradeDirection) (side : TokenSide) :
    side = direction.input ∨ side = direction.output := by
  cases direction <;> cases side <;> decide

end TradeDirection

inductive PoolStatusBitIndex
  | deposit
  | withdraw
  | swap
  deriving DecidableEq, Repr

def PoolStatusBitIndex.bit : PoolStatusBitIndex → Nat
  | .deposit => 0
  | .withdraw => 1
  | .swap => 2

inductive CreatorFeeOn
  | bothToken
  | onlyToken0
  | onlyToken1
  deriving DecidableEq, Repr

namespace CreatorFeeOn

def fromU8 : Nat → Exec CreatorFeeOn
  | 0 => pure .bothToken
  | 1 => pure .onlyToken0
  | 2 => pure .onlyToken1
  | _ => .error (.code .invalidFeeModel)

def toU8 : CreatorFeeOn → Nat
  | .bothToken => 0
  | .onlyToken0 => 1
  | .onlyToken1 => 2

theorem fromU8_toU8 (c : CreatorFeeOn) : fromU8 c.toU8 = .ok c := by
  cases c <;> rfl

end CreatorFeeOn

def q32 : Nat := 2 ^ 32

structure SwapParams where
  tradeDirection : TradeDirection
  totalInputTokenAmount : Nat
  totalOutputTokenAmount : Nat
  token0PriceX64 : Nat
  token1PriceX64 : Nat
  isCreatorFeeOnInput : Bool
  deriving DecidableEq, Repr

structure PoolState where
  poolCreator : Pubkey
  status : Nat
  mint0Decimals : Nat
  mint1Decimals : Nat
  lpSupply : Nat
  protocolFees : PerToken Nat
  fundFees : PerToken Nat
  openTime : Nat
  recentEpoch : Nat
  creatorFeeOn : Nat
  enableCreatorFee : Bool
  creatorFees : PerToken Nat
  pythPriceFeedId : Nat
  minSpreadBps : Nat
  inventorySkewEnabled : Nat
  inventorySkewDeadzoneBps : Nat
  inventorySkewBpsPerPct : Nat
  inventorySkewMaxBps : Nat
  oracleKeeper : Pubkey
  effectiveBidMantissa : Int
  effectiveAskMantissa : Int
  priceExponent : Int
  dynamicFeeRate : Nat
  lastOracleUpdateSlot : Nat
  lastOracleUpdateUnix : Int
  deriving DecidableEq, Repr

namespace PoolState

/-- Normal status, that is: the bit is clear. -/
def getStatusByBit (s : PoolState) (bit : PoolStatusBitIndex) : Bool :=
  s.status &&& (1 <<< bit.bit) = 0

/-- The fees owed in one token, by two checked additions. -/
def feesToken (s : PoolState) (side : TokenSide) : Exec Nat := do
  let fees ← okOr .mathOverflow (checkedAdd 64 (s.protocolFees.get side) (s.fundFees.get side))
  okOr .mathOverflow (checkedAdd 64 fees (s.creatorFees.get side))

def vaultAmountWithoutFee (s : PoolState) (vault0 vault1 : Nat) : Exec (PerToken Nat) := do
  let feesToken0 ← s.feesToken .token0
  let feesToken1 ← s.feesToken .token1
  let token0 ← okOr .insufficientVault (checkedSub vault0 feesToken0)
  let token1 ← okOr .insufficientVault (checkedSub vault1 feesToken1)
  pure { token0, token1 }

/-- The two prices in Q32; a division by an empty reserve panics. -/
def tokenPriceX32 (s : PoolState) (vault0 vault1 : Nat) : Exec (PerToken Nat) := do
  let net ← s.vaultAmountWithoutFee vault0 vault1
  let token0 ← unwrap (checkedDiv (net.token1 * q32) net.token0)
  let token1 ← unwrap (checkedDiv (net.token0 * q32) net.token1)
  pure { token0, token1 }

def isCreatorFeeOnInput (s : PoolState) (direction : TradeDirection) : Exec Bool := do
  let feeOn ← CreatorFeeOn.fromU8 s.creatorFeeOn
  match feeOn, direction with
  | .bothToken, _ => pure true
  | .onlyToken0, .zeroForOne => pure true
  | .onlyToken1, .oneForZero => pure true
  | _, _ => pure false

def getSwapParams (s : PoolState) (inputVault outputVault : TokenSide)
    (inputVaultAmount outputVaultAmount : Nat) : Exec SwapParams :=
  match inputVault, outputVault with
  | .token0, .token1 => do
    let total ← s.vaultAmountWithoutFee inputVaultAmount outputVaultAmount
    let price ← s.tokenPriceX32 inputVaultAmount outputVaultAmount
    let isCreatorFeeOnInput ← s.isCreatorFeeOnInput .zeroForOne
    pure ⟨.zeroForOne, total.token0, total.token1, price.token0, price.token1, isCreatorFeeOnInput⟩
  | .token1, .token0 => do
    let total ← s.vaultAmountWithoutFee outputVaultAmount inputVaultAmount
    let price ← s.tokenPriceX32 outputVaultAmount inputVaultAmount
    let isCreatorFeeOnInput ← s.isCreatorFeeOnInput .oneForZero
    pure ⟨.oneForZero, total.token1, total.token0, price.token0, price.token1, isCreatorFeeOnInput⟩
  | _, _ => .error (.code .invalidVault)

def effectiveTradeFeeRate (s : PoolState) (baseTradeFeeRate : Nat) : Nat :=
  if s.dynamicFeeRate = 0 then baseTradeFeeRate else s.dynamicFeeRate

def cachedOracleQuote (s : PoolState) : Option (Int × Int × Int) :=
  if s.effectiveBidMantissa ≤ 0 ∨ s.effectiveAskMantissa ≤ 0 then none
  else some (s.effectiveBidMantissa, s.effectiveAskMantissa, s.priceExponent)

def adjustCreatorFeeRate (s : PoolState) (creatorFeeRate : Nat) : Nat :=
  if s.enableCreatorFee then creatorFeeRate else 0

/-- `checked_add(fee).unwrap()` on one counter. -/
def addFee (fees : PerToken Nat) (side : TokenSide) (fee : Nat) : Exec (PerToken Nat) := do
  let total ← unwrap (checkedAdd 64 (fees.get side) fee)
  pure (fees.set side total)

def updateFees (s : PoolState) (protocolFee fundFee creatorFee : Nat) (direction : TradeDirection) :
    Exec PoolState := do
  require (s.enableCreatorFee = true ∨ creatorFee = 0) (.anchor .requireEqViolated)
  let isCreatorFeeOnInput ← s.isCreatorFeeOnInput direction
  let protocolFees ← addFee s.protocolFees direction.input protocolFee
  let fundFees ← addFee s.fundFees direction.input fundFee
  let creatorFees ← addFee s.creatorFees
    (if isCreatorFeeOnInput then direction.input else direction.output) creatorFee
  pure { s with protocolFees, fundFees, creatorFees }

/-! ## What the pool owes -/

/-- Everything the pool owes in one token. -/
def owed (s : PoolState) (side : TokenSide) : Nat :=
  s.protocolFees.get side + s.fundFees.get side + s.creatorFees.get side

variable {s s' : PoolState} {vault net : PerToken Nat} {direction : TradeDirection}

theorem feesToken_eq_ok {side : TokenSide} {fees : Nat} :
    s.feesToken side = .ok fees ↔ s.owed side < 2 ^ 64 ∧ fees = s.owed side := by
  simp only [feesToken, bind_eq_ok, okOr_eq_ok, checkedAdd_eq_some, owed]
  constructor
  · intro h
    obtain ⟨_, ⟨_, rfl⟩, h64, rfl⟩ := h
    exact ⟨h64, rfl⟩
  · intro h
    obtain ⟨h64, rfl⟩ := h
    exact ⟨_, ⟨by omega, rfl⟩, h64, rfl⟩

/-- The net amounts exist exactly when each vault covers what is owed in it. -/
theorem vaultAmountWithoutFee_eq_ok :
    s.vaultAmountWithoutFee vault.token0 vault.token1 = .ok net ↔
      ∀ side, s.owed side < 2 ^ 64 ∧ s.owed side ≤ vault.get side ∧
        net.get side = vault.get side - s.owed side := by
  simp only [vaultAmountWithoutFee, bind_eq_ok, okOr_eq_ok, feesToken_eq_ok, checkedSub_eq_some,
    pure_eq_ok]
  constructor
  · intro h side
    obtain ⟨_, ⟨h0, rfl⟩, _, ⟨h1, rfl⟩, _, ⟨hle0, rfl⟩, _, ⟨hle1, rfl⟩, rfl⟩ := h
    cases side with
    | token0 => exact ⟨h0, hle0, rfl⟩
    | token1 => exact ⟨h1, hle1, rfl⟩
  · intro h
    obtain ⟨h0, hle0, hn0⟩ := h .token0
    obtain ⟨h1, hle1, hn1⟩ := h .token1
    refine ⟨_, ⟨h0, rfl⟩, _, ⟨h1, rfl⟩, _, ⟨hle0, rfl⟩, _, ⟨hle1, rfl⟩, ?_⟩
    exact (congrArg₂ PerToken.mk hn0 hn1).symm

theorem tokenPriceX32_eq_ok {price : PerToken Nat}
    (hnet : s.vaultAmountWithoutFee vault.token0 vault.token1 = .ok net) :
    s.tokenPriceX32 vault.token0 vault.token1 = .ok price ↔
      net.token0 ≠ 0 ∧ net.token1 ≠ 0 ∧
        price = ⟨net.token1 * q32 / net.token0, net.token0 * q32 / net.token1⟩ := by
  simp only [tokenPriceX32, bind_eq_ok, hnet, Except.ok.injEq, unwrap_eq_ok, checkedDiv_eq_some,
    pure_eq_ok]
  constructor
  · intro h
    obtain ⟨_, rfl, _, ⟨h0, rfl⟩, _, ⟨h1, rfl⟩, rfl⟩ := h
    exact ⟨h0, h1, rfl⟩
  · intro h
    obtain ⟨h0, h1, rfl⟩ := h
    exact ⟨_, rfl, _, ⟨h0, rfl⟩, _, ⟨h1, rfl⟩, rfl⟩

/-- A cached quote is the quote of the state, with both sides positive. -/
theorem cachedOracleQuote_eq_some {bid ask exponent : Int} :
    s.cachedOracleQuote = some (bid, ask, exponent) ↔
      (0 < bid ∧ 0 < ask) ∧ bid = s.effectiveBidMantissa ∧ ask = s.effectiveAskMantissa ∧
        exponent = s.priceExponent := by
  unfold cachedOracleQuote
  constructor
  · intro h
    split at h
    · cases h
    · next hpos =>
      cases h
      exact ⟨by omega, rfl, rfl, rfl⟩
  · intro h
    obtain ⟨hpos, rfl, rfl, rfl⟩ := h
    exact if_neg (by omega)

/-- The parameters of a swap: the vaults name its direction, and every amount is net. -/
theorem getSwapParams_spec {inputVault outputVault : TokenSide} {params : SwapParams}
    (h : s.getSwapParams inputVault outputVault (vault.get inputVault) (vault.get outputVault) =
      .ok params) :
    inputVault = params.tradeDirection.input ∧ outputVault = params.tradeDirection.output ∧
    s.isCreatorFeeOnInput params.tradeDirection = .ok params.isCreatorFeeOnInput ∧
    ∃ net price, s.vaultAmountWithoutFee vault.token0 vault.token1 = .ok net ∧
      s.tokenPriceX32 vault.token0 vault.token1 = .ok price ∧
      params.totalInputTokenAmount = net.get inputVault ∧
      params.totalOutputTokenAmount = net.get outputVault ∧
      params.token0PriceX64 = price.token0 ∧ params.token1PriceX64 = price.token1 := by
  cases inputVault with
  | token0 =>
    cases outputVault with
    | token0 => cases h
    | token1 =>
      simp only [getSwapParams, PerToken.get, bind_eq_ok, pure_eq_ok] at h
      obtain ⟨net, hnet, price, hprice, onInput, hon, rfl⟩ := h
      exact ⟨rfl, rfl, hon, net, price, hnet, hprice, rfl, rfl, rfl, rfl⟩
  | token1 =>
    cases outputVault with
    | token0 =>
      simp only [getSwapParams, PerToken.get, bind_eq_ok, pure_eq_ok] at h
      obtain ⟨net, hnet, price, hprice, onInput, hon, rfl⟩ := h
      exact ⟨rfl, rfl, hon, net, price, hnet, hprice, rfl, rfl, rfl, rfl⟩
    | token1 => cases h

theorem addFee_eq_ok {fees fees' : PerToken Nat} {side : TokenSide} {fee : Nat} :
    addFee fees side fee = .ok fees' ↔
      fees.get side + fee < 2 ^ 64 ∧ fees' = fees.set side (fees.get side + fee) := by
  simp only [addFee, bind_eq_ok, unwrap_eq_ok, checkedAdd_eq_some, pure_eq_ok]
  constructor
  · intro h
    obtain ⟨_, ⟨h64, rfl⟩, rfl⟩ := h
    exact ⟨h64, rfl⟩
  · intro h
    obtain ⟨h64, rfl⟩ := h
    exact ⟨_, ⟨h64, rfl⟩, rfl⟩

/-- The token the creator's fee of a swap is charged in. -/
def creatorFeeSide (isCreatorFeeOnInput : Bool) (direction : TradeDirection) : TokenSide :=
  if isCreatorFeeOnInput then direction.input else direction.output

/-- Fees move three counters and nothing else. -/
theorem updateFees_eq_ok {protocolFee fundFee creatorFee : Nat} {onInput : Bool}
    (hon : s.isCreatorFeeOnInput direction = .ok onInput) :
    s.updateFees protocolFee fundFee creatorFee direction = .ok s' ↔
      (s.enableCreatorFee = true ∨ creatorFee = 0) ∧
      s.protocolFees.get direction.input + protocolFee < 2 ^ 64 ∧
      s.fundFees.get direction.input + fundFee < 2 ^ 64 ∧
      s.creatorFees.get (creatorFeeSide onInput direction) + creatorFee < 2 ^ 64 ∧
      s' = { s with
        protocolFees := s.protocolFees.set direction.input
          (s.protocolFees.get direction.input + protocolFee)
        fundFees := s.fundFees.set direction.input (s.fundFees.get direction.input + fundFee)
        creatorFees := s.creatorFees.set (creatorFeeSide onInput direction)
          (s.creatorFees.get (creatorFeeSide onInput direction) + creatorFee) } := by
  simp only [updateFees, bind_eq_ok, require_eq_ok, hon, Except.ok.injEq, addFee_eq_ok, pure_eq_ok,
    creatorFeeSide]
  constructor
  · intro h
    obtain ⟨_, hen, _, rfl, _, ⟨hp, rfl⟩, _, ⟨hf, rfl⟩, _, ⟨hc, rfl⟩, rfl⟩ := h
    exact ⟨hen, hp, hf, hc, rfl⟩
  · intro h
    obtain ⟨hen, hp, hf, hc, rfl⟩ := h
    exact ⟨(), hen, _, rfl, _, ⟨hp, rfl⟩, _, ⟨hf, rfl⟩, _, ⟨hc, rfl⟩, rfl⟩

end PoolState

end NomadAmm
