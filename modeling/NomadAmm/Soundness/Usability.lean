import NomadAmm.Soundness.ShareValue
import NomadAmm.Soundness.Skew

/-! Which pushed quotes a swap can use. A push checks the sign and the order of its two
mantissas; the exponent it takes as it comes, and whether a price fits its width depends
on the decimals of the mints and on the inventory as well. -/

namespace NomadAmm.Soundness.Usability

open Lib.Checked Lib.Transition Exec Instructions
open Soundness.Imbalance Soundness.Settlement Soundness.Ledger Soundness.Solvency
open Soundness.ShareValue Soundness.Skew

variable {s : PoolState} {m m' : Market} {mantissa delta : Int} {r0 r1 : Nat} {q : SkewedQuote}
  {direction : TradeDirection}

/-! ## A mantissa as a raw price -/

/-- The power of ten between a mantissa of the pool and its raw price. -/
def scale (s : PoolState) : Int := s.priceExponent + s.mint1Decimals - s.mint0Decimals

/-- The power fits 128 bits, and so does the mantissa raised by it. -/
def Priceable (s : PoolState) (mantissa : Int) : Prop :=
  -38 ≤ scale s ∧ (0 ≤ scale s → mantissa * 10 ^ (scale s).toNat < 2 ^ 128)

instance (s : PoolState) (mantissa : Int) : Decidable (Priceable s mantissa) :=
  inferInstanceAs (Decidable (_ ∧ _))

theorem pow_ten_lt {k : Nat} : 10 ^ k < 2 ^ 128 ↔ k ≤ 38 := by
  constructor
  · intro h
    by_contra hk
    have hle : 10 ^ 39 ≤ 10 ^ k := Nat.pow_le_pow_right (by decide) (by omega)
    omega
  · intro hk
    calc 10 ^ k ≤ 10 ^ 38 := Nat.pow_le_pow_right (by decide) hk
      _ < 2 ^ 128 := by norm_num

theorem rawPrice_eq_some {n d : Nat} : s.rawPrice mantissa = some (n, d) ↔
    0 < mantissa ∧
      if 0 ≤ scale s then
        10 ^ (scale s).toNat < 2 ^ 128 ∧ n < 2 ^ 128 ∧
          n = mantissa.toNat * 10 ^ (scale s).toNat ∧ d = 1
      else d < 2 ^ 128 ∧ n = mantissa.toNat ∧ d = 10 ^ (-scale s).toNat :=
  pythPriceToRawFraction_eq_some

theorem rawPrice_exists (hpos : 0 < mantissa) :
    (∃ f, s.rawPrice mantissa = some f) ↔ Priceable s mantissa := by
  obtain ⟨k, rfl⟩ := Int.eq_ofNat_of_zero_le hpos.le
  simp only [Prod.exists, rawPrice_eq_some, Priceable]
  by_cases hexp : 0 ≤ scale s
  · simp only [hexp, if_true, true_implies]
    constructor
    · intro h
      obtain ⟨_, _, _, _, hn, rfl, _⟩ := h
      exact ⟨by omega, by exact_mod_cast hn⟩
    · intro h
      obtain ⟨_, hn⟩ := h
      have hn' : k * 10 ^ (scale s).toNat < 2 ^ 128 := by exact_mod_cast hn
      have hk : 10 ^ (scale s).toNat ≤ k * 10 ^ (scale s).toNat :=
        Nat.le_mul_of_pos_left _ (by omega)
      exact ⟨_, _, hpos, by omega, hn', rfl, rfl⟩
  · simp only [hexp, if_false, false_implies, and_true]
    constructor
    · intro h
      obtain ⟨_, _, _, hfactor, _, rfl⟩ := h
      rw [pow_ten_lt] at hfactor
      omega
    · intro h
      exact ⟨_, _, hpos, pow_ten_lt.mpr (by omega), rfl, rfl⟩

theorem Priceable.mono {low high : Int} (h : Priceable s high) (hle : low ≤ high) :
    Priceable s low := by
  refine ⟨h.1, ?_⟩
  intro hexp
  exact (Int.mul_le_mul_of_nonneg_right hle (by positivity)).trans_lt (h.2 hexp)

/-! ## A shifted mantissa -/

/-- A mantissa after a shift, when nothing overflows. -/
def shifted (mantissa delta : Int) : Int := mantissa * (10000 + delta) / 10000

/-- The shifted mantissa is a positive `i64`. -/
def Shiftable (mantissa delta : Int) : Prop :=
  10000 ≤ mantissa * (10000 + delta) ∧ mantissa * (10000 + delta) < 2 ^ 63 * 10000

instance (mantissa delta : Int) : Decidable (Shiftable mantissa delta) :=
  inferInstanceAs (Decidable (_ ∧ _))

theorem shiftable_zero (hpos : 0 < mantissa) (hlt : mantissa < 2 ^ 63) : Shiftable mantissa 0 := by
  unfold Shiftable
  omega

theorem shifted_zero (mantissa : Int) : shifted mantissa 0 = mantissa := by
  rw [shifted, Int.add_zero, Int.mul_ediv_cancel _ (by decide)]

theorem Shiftable.pos (h : Shiftable mantissa delta) : 0 < shifted mantissa delta := by
  unfold shifted
  have := h.1
  omega

theorem Shiftable.factor_pos (hpos : 0 < mantissa) (h : Shiftable mantissa delta) :
    0 < 10000 + delta := by
  have hlow := h.1
  exact (mul_pos_iff_of_pos_left hpos).mp (by omega)

theorem shiftMantissa_of_shiftable (hpos : 0 < mantissa) (h : Shiftable mantissa delta) :
    shiftMantissaBySignedBps mantissa delta = some (shifted mantissa delta) := by
  unfold shiftMantissaBySignedBps
  by_cases hzero : delta = 0
  · rw [if_pos hzero, hzero, shifted_zero]
  · have hfactor := h.factor_pos hpos
    obtain ⟨hlow, hhigh⟩ := h
    have hle : 10000 + delta ≤ mantissa * (10000 + delta) := le_mul_of_one_le_left hfactor.le hpos
    have hsum : checkedInt 128 (10000 + delta) = some (10000 + delta) :=
      checkedInt_eq_some.mpr ⟨⟨by omega, by omega⟩, rfl⟩
    have hproduct : checkedInt 128 (mantissa * (10000 + delta)) =
        some (mantissa * (10000 + delta)) := checkedInt_eq_some.mpr ⟨⟨by omega, by omega⟩, rfl⟩
    rw [if_neg hzero, hsum]
    simp only [Option.bind_some, bind, not_le.mpr hfactor, if_false, hproduct,
      Int.tdiv_eq_ediv_of_nonneg (by omega : 0 ≤ mantissa * (10000 + delta))]
    rw [if_neg (by omega), shifted]

theorem shiftable_of_shiftMantissa {v : Int} (hpos : 0 < mantissa) (hlt : mantissa < 2 ^ 63)
    (h : shiftMantissaBySignedBps mantissa delta = some v) : Shiftable mantissa delta := by
  obtain ⟨hfactor, heq, hzero | ⟨hlow, hhigh⟩⟩ := shiftMantissa_spec h
  · rw [hzero]
    exact shiftable_zero hpos hlt
  · rw [Int.tdiv_eq_ediv_of_nonneg (Int.mul_nonneg hpos.le hfactor.le)] at heq
    exact ⟨by omega, by omega⟩

/-- The shift answers exactly when its answer fits. -/
theorem shiftMantissa_eq (hpos : 0 < mantissa) (hlt : mantissa < 2 ^ 63) :
    shiftMantissaBySignedBps mantissa delta =
      if Shiftable mantissa delta then some (shifted mantissa delta) else none := by
  by_cases hfits : Shiftable mantissa delta
  · rw [if_pos hfits, shiftMantissa_of_shiftable hpos hfits]
  · rw [if_neg hfits, Option.eq_none_iff_forall_ne_some]
    intro v h
    exact hfits (shiftable_of_shiftMantissa hpos hlt h)

/-! ## The quote of an inventory -/

/-- The cached mantissas are in order, and `i64`. -/
structure Cached (s : PoolState) : Prop where
  bid_pos : 0 < s.effectiveBidMantissa
  bid_le : s.effectiveBidMantissa ≤ s.effectiveAskMantissa
  ask_lt : s.effectiveAskMantissa < 2 ^ 63

def midMantissa (s : PoolState) : Int := (s.effectiveBidMantissa + s.effectiveAskMantissa).tdiv 2

theorem Cached.mid (h : Cached s) :
    s.effectiveBidMantissa ≤ midMantissa s ∧ midMantissa s ≤ s.effectiveAskMantissa := by
  obtain ⟨hpos, hle, -⟩ := h
  unfold midMantissa
  rw [Int.tdiv_eq_ediv_of_nonneg (by omega)]
  omega

theorem Cached.cachedOracleQuote (h : Cached s) : s.cachedOracleQuote =
    some (s.effectiveBidMantissa, s.effectiveAskMantissa, s.priceExponent) :=
  PoolState.cachedOracleQuote_eq_some.mpr
    ⟨⟨h.bid_pos, h.bid_pos.trans_le h.bid_le⟩, rfl, rfl, rfl⟩

/-- The imbalance of an inventory valued at the mid, in exact arithmetic. -/
def imbalanceAt (s : PoolState) (r0 r1 : Nat) : Int :=
  if s.inventorySkewEnabled = 0 then 0
  else ((s.rawPrice (midMantissa s)).bind fun mid => imbalanceBps r0 r1 mid.1 mid.2).getD 0

def skewAt (s : PoolState) (r0 r1 : Nat) : Int :=
  computeInventorySkewBps (imbalanceAt s r0 r1) s.inventorySkewDeadzoneBps
    s.inventorySkewBpsPerPct s.inventorySkewMaxBps

/-- What the two sides of a quote become at an inventory. -/
def quoteAt (s : PoolState) (r0 r1 : Nat) : SkewedQuote where
  inventoryImbalanceBps := imbalanceAt s r0 r1
  inventorySkewBps := skewAt s r0 r1
  bidMantissa := shifted s.effectiveBidMantissa (skewAt s r0 r1)
  askMantissa := shifted s.effectiveAskMantissa (skewAt s r0 r1)

/-- The mid has a price where skew needs one, and both sides can be shifted. -/
structure Skewable (s : PoolState) (r0 r1 : Nat) : Prop where
  mid : s.inventorySkewEnabled ≠ 0 → Priceable s (midMantissa s)
  bid : Shiftable s.effectiveBidMantissa (skewAt s r0 r1)
  ask : Shiftable s.effectiveAskMantissa (skewAt s r0 r1)

theorem imbalanceAt_disabled (h : s.inventorySkewEnabled = 0) : imbalanceAt s r0 r1 = 0 := if_pos h

theorem skewAt_disabled (h : s.inventorySkewEnabled = 0) : skewAt s r0 r1 = 0 := by
  unfold skewAt
  rw [imbalanceAt_disabled h]
  exact computeInventorySkewBps_eq_zero (Nat.zero_le _)

theorem quoteAt_disabled (h : s.inventorySkewEnabled = 0) :
    quoteAt s r0 r1 = ⟨0, 0, s.effectiveBidMantissa, s.effectiveAskMantissa⟩ := by
  unfold quoteAt
  rw [imbalanceAt_disabled h, skewAt_disabled h, shifted_zero, shifted_zero]

theorem skewable_disabled (hs : Cached s) (h : s.inventorySkewEnabled = 0) : Skewable s r0 r1 := by
  refine ⟨fun hon => absurd h hon, ?_, ?_⟩
  · rw [skewAt_disabled h]
    exact shiftable_zero hs.bid_pos (hs.bid_le.trans_lt hs.ask_lt)
  · rw [skewAt_disabled h]
    exact shiftable_zero (hs.bid_pos.trans_le hs.bid_le) hs.ask_lt

/-- The code's imbalance, with no answer counted as balance, is the exact one. -/
theorem noneOr_imbalance {mid : Nat × Nat} (hs : Cached s) (hon : s.inventorySkewEnabled ≠ 0)
    (hr0 : r0 < 2 ^ 64) (hr1 : r1 < 2 ^ 64) (hmid : s.rawPrice (midMantissa s) = some mid) :
    noneOr 0 (computeInventoryImbalanceBps r0 r1 mid.1 mid.2) = .ok (imbalanceAt s r0 r1) := by
  obtain ⟨-, hnum⟩ := mid_fits hs.bid_pos hs.bid_le hs.ask_lt hmid
  rw [computeInventoryImbalanceBps_eq_orNone (fits hr0 hr1 hnum _), imbalanceAt, if_neg hon, hmid]
  simp only [Option.bind_some]
  cases imbalanceBps r0 r1 mid.1 mid.2 with
  | none => rfl
  | some i => rfl

/-- **The quote of an inventory** exists exactly when it is skewable. -/
theorem effectiveQuote_eq_ok (hs : Cached s) (hr0 : r0 < 2 ^ 64) (hr1 : r1 < 2 ^ 64) :
    effectiveQuote s r0 r1 s.effectiveBidMantissa s.effectiveAskMantissa s.priceExponent = .ok q ↔
      Skewable s r0 r1 ∧ q = quoteAt s r0 r1 := by
  have hbid := @shiftMantissa_eq _ (skewAt s r0 r1) hs.bid_pos (hs.bid_le.trans_lt hs.ask_lt)
  have hask := @shiftMantissa_eq _ (skewAt s r0 r1) (hs.bid_pos.trans_le hs.bid_le) hs.ask_lt
  unfold effectiveQuote PoolState.skewedQuote
  by_cases hon : s.inventorySkewEnabled = 0
  · have hskewable := @skewable_disabled s r0 r1 hs hon
    rw [if_neg (not_not.mpr hon), pure_eq_ok, quoteAt_disabled hon]
    exact ⟨fun h => ⟨hskewable, h.symm⟩, fun h => h.2.symm⟩
  · rw [if_pos hon]
    simp only [bind_eq_ok, okOr_eq_ok, pure_eq_ok, TradeDirection.orient]
    constructor
    · intro h
      obtain ⟨mid, hmid, imbalance, himb, shiftedBid, hsbid, shiftedAsk, hsask, rfl⟩ := h
      cases himb.symm.trans (noneOr_imbalance hs hon hr0 hr1 hmid)
      obtain ⟨hfitsBid, hsbid⟩ := Option.ite_none_right_eq_some.mp (hbid.symm.trans hsbid)
      obtain ⟨hfitsAsk, hsask⟩ := Option.ite_none_right_eq_some.mp (hask.symm.trans hsask)
      cases hsbid
      cases hsask
      have hmidPos := hs.bid_pos.trans_le hs.mid.1
      exact ⟨⟨fun _ => (rawPrice_exists hmidPos).mp ⟨mid, hmid⟩, hfitsBid, hfitsAsk⟩, rfl⟩
    · intro h
      obtain ⟨⟨hmid, hfitsBid, hfitsAsk⟩, rfl⟩ := h
      obtain ⟨mid, hmid⟩ := (rawPrice_exists (hs.bid_pos.trans_le hs.mid.1)).mpr (hmid hon)
      rw [if_pos hfitsBid] at hbid
      rw [if_pos hfitsAsk] at hask
      exact ⟨mid, hmid, _, noneOr_imbalance hs hon hr0 hr1 hmid, _, hbid, _, hask, rfl⟩

/-! ## Both directions -/

/-- A quote is usable at an inventory: it can be skewed, and its shifted ask has a price. -/
structure Usable (s : PoolState) (r0 r1 : Nat) : Prop extends Skewable s r0 r1 where
  price : Priceable s (shifted s.effectiveAskMantissa (skewAt s r0 r1))

/-- The fee model of a pool is one of the three. -/
def FeeModelled (m : Market) : Prop :=
  ∃ mode, CreatorFeeOn.fromU8 m.poolState.creatorFeeOn = .ok mode

theorem isCreatorFeeOnInput_ok (h : FeeModelled m) (direction : TradeDirection) :
    ∃ onInput, m.poolState.isCreatorFeeOnInput direction = .ok onInput := by
  obtain ⟨mode, h⟩ := h
  unfold PoolState.isCreatorFeeOnInput
  rw [h, ok_bind]
  cases mode <;> cases direction <;> exact ⟨_, rfl⟩

/-- The parameters of a swap are found in every sound pool. -/
theorem getSwapParams_ok (hm : Sound m) (hfee : FeeModelled m) (direction : TradeDirection) :
    ∃ params, m.poolState.getSwapParams direction.input direction.output
        (m.vault.get direction.input) (m.vault.get direction.output) = .ok params ∧
      params.tradeDirection = direction ∧
      params.tradeDirection.orient (params.totalInputTokenAmount, params.totalOutputTokenAmount) =
        (m.net .token0, m.net .token1) := by
  obtain ⟨onInput, hon⟩ := isCreatorFeeOnInput_ok hfee direction
  have hprice := tokenPriceX32_of_sound hm
  cases direction with
  | zeroForOne =>
    refine ⟨⟨.zeroForOne, m.net .token0, m.net .token1, m.net .token1 * q32 / m.net .token0,
      m.net .token0 * q32 / m.net .token1, onInput⟩, ?_, rfl, rfl⟩
    simp only [PoolState.getSwapParams, TradeDirection.input, TradeDirection.output, PerToken.get,
      bind_eq_ok, pure_eq_ok]
    exact ⟨_, hm.netAmounts, _, hprice, _, hon, rfl⟩
  | oneForZero =>
    refine ⟨⟨.oneForZero, m.net .token1, m.net .token0, m.net .token1 * q32 / m.net .token0,
      m.net .token0 * q32 / m.net .token1, onInput⟩, ?_, rfl, rfl⟩
    simp only [PoolState.getSwapParams, TradeDirection.input, TradeDirection.output, PerToken.get,
      bind_eq_ok, pure_eq_ok]
    exact ⟨_, hm.netAmounts, _, hprice, _, hon, rfl⟩

theorem quoteAt_pos (h : Skewable s r0 r1) (direction : TradeDirection) :
    0 < (quoteAt s r0 r1).effectiveMantissa direction := by
  cases direction with
  | zeroForOne => exact h.bid.pos
  | oneForZero => exact h.ask.pos

/-- A direction is priced when the quote can be skewed and its own side has a price. -/
theorem priceSwap_exists (hm : Sound m) (hfee : FeeModelled m) (hs : Cached m.poolState) :
    (∃ p, priceSwap m direction.input direction.output (m.poolState.effectiveBidMantissa,
        m.poolState.effectiveAskMantissa, m.poolState.priceExponent) = .ok p) ↔
      Skewable m.poolState (m.net .token0) (m.net .token1) ∧
        Priceable m.poolState
          ((quoteAt m.poolState (m.net .token0) (m.net .token1)).effectiveMantissa direction) := by
  obtain ⟨params, hparams, hdirection, horient⟩ := getSwapParams_ok hm hfee direction
  simp only [priceSwap, hparams, ok_bind, skewedQuote_eq_effectiveQuote horient, bind_eq_ok,
    effectiveQuote_eq_ok hs (hm.net_lt .token0) (hm.net_lt .token1), okOr_eq_ok, pure_eq_ok,
    hdirection]
  constructor
  · intro h
    obtain ⟨_, _, ⟨hskew, rfl⟩, canonical, hcanonical, _⟩ := h
    exact ⟨hskew, (rawPrice_exists (quoteAt_pos hskew direction)).mp ⟨canonical, hcanonical⟩⟩
  · intro h
    obtain ⟨hskew, hprice⟩ := h
    obtain ⟨canonical, hcanonical⟩ := (rawPrice_exists (quoteAt_pos hskew direction)).mpr hprice
    exact ⟨_, _, ⟨hskew, rfl⟩, canonical, hcanonical, rfl⟩

/-- A pricing fails with one of the two errors meant for it. -/
theorem priceSwap_error {e : Fault} (hm : Sound m) (hfee : FeeModelled m) (hs : Cached m.poolState)
    (h : priceSwap m direction.input direction.output (m.poolState.effectiveBidMantissa,
      m.poolState.effectiveAskMantissa, m.poolState.priceExponent) = .error e) :
    e = .code .invalidEffectiveSpread ∨ e = .code .invalidInventorySkewShift := by
  obtain ⟨params, hparams, hdirection, horient⟩ := getSwapParams_ok hm hfee direction
  simp only [priceSwap, hparams, ok_bind, skewedQuote_eq_effectiveQuote horient] at h
  rcases bind_eq_error.mp h with hquote | ⟨quote, hquote, h⟩
  · unfold effectiveQuote PoolState.skewedQuote at hquote
    by_cases hon : m.poolState.inventorySkewEnabled = 0
    · rw [if_neg (not_not.mpr hon)] at hquote
      cases hquote
    · rw [if_pos hon] at hquote
      rcases bind_eq_error.mp hquote with hmid | ⟨mid, hmid, hquote⟩
      · exact .inl (okOr_eq_error hmid)
      · have himb := noneOr_imbalance hs hon (hm.net_lt .token0) (hm.net_lt .token1)
          (okOr_eq_ok.mp hmid)
        simp only [TradeDirection.orient, himb, ok_bind] at hquote
        rcases bind_eq_error.mp hquote with hbid | ⟨_, _, hquote⟩
        · exact .inr (okOr_eq_error hbid)
        · rcases bind_eq_error.mp hquote with hask | ⟨_, _, hquote⟩
          · exact .inr (okOr_eq_error hask)
          · cases hquote
  · rcases bind_eq_error.mp h with hcanonical | ⟨_, _, h⟩
    · exact .inl (okOr_eq_error hcanonical)
    · cases h

/-- **Both directions are priced exactly when the quote is usable.** -/
theorem priceSwap_both (hm : Sound m) (hfee : FeeModelled m) (hs : Cached m.poolState) :
    (∀ direction : TradeDirection, ∃ p, priceSwap m direction.input direction.output
        (m.poolState.effectiveBidMantissa, m.poolState.effectiveAskMantissa,
          m.poolState.priceExponent) = .ok p) ↔
      Usable m.poolState (m.net .token0) (m.net .token1) := by
  constructor
  · intro h
    obtain ⟨hskew, hprice⟩ := (priceSwap_exists hm hfee hs).mp (h .oneForZero)
    exact ⟨hskew, hprice⟩
  · intro h direction
    refine (priceSwap_exists hm hfee hs).mpr ⟨h.toSkewable, ?_⟩
    cases direction with
    | zeroForOne =>
      -- both sides are shifted by one factor, so the ask's room is enough for the bid
      refine h.price.mono ?_
      have hfactor := h.bid.factor_pos hs.bid_pos
      exact Int.ediv_le_ediv (by decide) (Int.mul_le_mul_of_nonneg_right hs.bid_le hfactor.le)
    | oneForZero => exact h.price

/-! ## A bound that no inventory breaks -/

/-- The largest skew of a pool in either direction. -/
def skewCap (s : PoolState) : Nat :=
  if s.inventorySkewEnabled = 0 then 0 else s.inventorySkewMaxBps

/-- The quote survives the largest skew, whatever the inventory. -/
structure Safe (s : PoolState) : Prop where
  bid : 10000 ≤ s.effectiveBidMantissa * (10000 - skewCap s)
  ask : s.effectiveAskMantissa * (10000 + skewCap s) < 2 ^ 63 * 10000
  price : Priceable s (shifted s.effectiveAskMantissa (skewCap s))

theorem skewAt_bounds (s : PoolState) (r0 r1 : Nat) :
    -(skewCap s : Int) ≤ skewAt s r0 r1 ∧ skewAt s r0 r1 ≤ skewCap s := by
  unfold skewCap
  by_cases hon : s.inventorySkewEnabled = 0
  · rw [if_pos hon, skewAt_disabled hon]
    exact ⟨le_rfl, le_rfl⟩
  · rw [if_neg hon]
    exact computeInventorySkewBps_bounds _ _ _ _

theorem Safe.usable (h : Safe s) (hs : Cached s) (r0 r1 : Nat) : Usable s r0 r1 := by
  obtain ⟨hlow, hhigh⟩ := skewAt_bounds s r0 r1
  obtain ⟨hbid, hask, hprice⟩ := h
  have hask_pos := hs.bid_pos.trans_le hs.bid_le
  have hcap : 0 < 10000 - (skewCap s : Int) :=
    (mul_pos_iff_of_pos_left hs.bid_pos).mp (by omega)
  have hbid_low : s.effectiveBidMantissa * (10000 - skewCap s) ≤
      s.effectiveBidMantissa * (10000 + skewAt s r0 r1) :=
    Int.mul_le_mul_of_nonneg_left (by omega) hs.bid_pos.le
  have hbid_ask : s.effectiveBidMantissa * (10000 + skewAt s r0 r1) ≤
      s.effectiveAskMantissa * (10000 + skewAt s r0 r1) :=
    Int.mul_le_mul_of_nonneg_right hs.bid_le (by omega)
  have hask_high : s.effectiveAskMantissa * (10000 + skewAt s r0 r1) ≤
      s.effectiveAskMantissa * (10000 + skewCap s) :=
    Int.mul_le_mul_of_nonneg_left (by omega) hask_pos.le
  have hmid : midMantissa s ≤ shifted s.effectiveAskMantissa (skewCap s) := by
    refine hs.mid.2.trans ?_
    have hcapped : s.effectiveAskMantissa * 10000 ≤ s.effectiveAskMantissa * (10000 + skewCap s) :=
      Int.mul_le_mul_of_nonneg_left (by omega) hask_pos.le
    rw [shifted, Int.le_ediv_iff_mul_le (by decide)]
    exact hcapped
  exact ⟨⟨fun _ => hprice.mono hmid, ⟨by omega, by omega⟩, ⟨by omega, by omega⟩⟩,
    hprice.mono (Int.ediv_le_ediv (by decide) hask_high)⟩

/-- Only what `quoted` keeps is read. -/
theorem Safe.congr {s' : PoolState} (h : Safe s) (hquoted : quoted s' = quoted s) : Safe s' := by
  have hsafe : Safe (quoted s') := by
    rw [hquoted]
    exact ⟨h.bid, h.ask, h.price⟩
  exact ⟨hsafe.bid, hsafe.ask, hsafe.price⟩

/-! ## After a push -/

theorem effect_feeModelled {op : Op} (hm : FeeModelled m) (h : Effect m op m') :
    FeeModelled m' := by
  have hmodel : m'.poolState.creatorFeeOn = m.poolState.creatorFeeOn := by
    cases hop : isPush op with
    | false =>
      have hquoted := congrArg PoolState.creatorFeeOn (effect_quoted hop h)
      exact hquoted
    | true =>
      cases op with
      | updatePoolOracle keeper bid ask exponent fee =>
        cases h with
        | updatePoolOracle _ _ _ => rfl
        | collect _ _ hcollect _ => cases hcollect
      | _ => cases hop
  unfold FeeModelled
  rwa [hmodel]

theorem initial_feeModelled (h : Market.Initial m) : FeeModelled m := by
  have hbody : ∀ {c : AmmConfig} {env creator feeOn enable args payer},
      initializePool c env creator feeOn enable args payer = .ok m → FeeModelled m := by
    intro c env creator feeOn enable args payer h
    simp only [initializePool, bind_eq_ok, pure_eq_ok] at h
    obtain ⟨_, _, _, _, _, _, _, _, _, _, _, _, _, _, _, _, _, _, _, _, rfl⟩ := h
    exact ⟨feeOn, CreatorFeeOn.fromU8_toU8 feeOn⟩
  cases h with
  | permissionless _ h => exact hbody h
  | withPermission _ h =>
    simp only [initializeWithPermission, bind_eq_ok] at h
    obtain ⟨_, _, h⟩ := h
    exact hbody h

theorem replay_feeModelled (hm : Sound m) (hfee : FeeModelled m) (calls : List Call) :
    FeeModelled (replay Market.step m calls) :=
  (replay_invariant (I := fun m => Sound m ∧ FeeModelled m)
    (fun _ _ _ _ hs h => ⟨step_sound hs.1 h, effect_feeModelled hs.2 (step_effect hs.1 h)⟩) calls
    ⟨hm, hfee⟩).2

theorem reachable_feeModelled (h : m.Reachable) : FeeModelled m := by
  obtain ⟨m₀, calls, hinit, rfl⟩ := h
  exact replay_feeModelled (initial_sound hinit) (initial_feeModelled hinit) calls

/-- A push and the market it leaves. -/
theorem updatePoolOracle_spec {env : Env} {keeper : Pubkey} {bid ask exponent : Int} {fee : Nat}
    {event : OracleUpdated}
    (h : updatePoolOracle m env keeper bid ask exponent fee = .ok (m', event)) :
    (0 < bid ∧ bid ≤ ask) ∧ m'.poolState.effectiveBidMantissa = bid ∧
      m'.poolState.effectiveAskMantissa = ask ∧ m'.poolState.priceExponent = exponent ∧
      Market.step m ⟨env, .updatePoolOracle keeper bid ask exponent fee⟩ =
        .ok (m', .oracle event) := by
  have hstep : Market.step m ⟨env, .updatePoolOracle keeper bid ask exponent fee⟩ =
      .ok (m', .oracle event) := by
    simp only [Market.step, h, ok_bind]
    rfl
  simp only [updatePoolOracle, bind_eq_ok, require_eq_ok, pure_eq_ok, Prod.mk.injEq] at h
  obtain ⟨_, _, _, hbid, _, hask, _, _, rfl, _⟩ := h
  exact ⟨⟨hbid, hask⟩, rfl, rfl, rfl, hstep⟩

/-- **An accepted push is usable exactly within the widths its price needs.** After it, and
any calls but another push, either direction is priced exactly when both sides can be
shifted and priced; a direction that is not fails with an error of its own; and a quote
that is safe at the cap of the skew is usable at every inventory. -/
theorem push_usable_iff (m m₁ : Market) (env : Env) (keeper : Pubkey) (bid ask exponent : Int)
    (fee : Nat) (event : OracleUpdated) (hm : m.Reachable) (hask : ask < 2 ^ 63)
    (hpush : updatePoolOracle m env keeper bid ask exponent fee = .ok (m₁, event))
    (calls : List Call) (hcalls : ∀ call ∈ calls, isPush call.op = false) :
    let m' := replay Market.step m₁ calls
    m'.poolState.cachedOracleQuote = some (bid, ask, exponent) ∧
    ((∀ direction : TradeDirection, ∃ p,
        priceSwap m' direction.input direction.output (bid, ask, exponent) = .ok p) ↔
      Usable m'.poolState (m'.net .token0) (m'.net .token1)) ∧
    (∀ (direction : TradeDirection) e,
      priceSwap m' direction.input direction.output (bid, ask, exponent) = .error e →
      e = .code .invalidEffectiveSpread ∨ e = .code .invalidInventorySkewShift) ∧
    (Safe m₁.poolState → ∀ r0 r1, Usable m'.poolState r0 r1) := by
  intro m'
  obtain ⟨⟨hbid, hle⟩, rfl, rfl, rfl, hstep⟩ := updatePoolOracle_spec hpush
  have hsound : Sound m₁ := step_sound (reachable_sound hm) hstep
  have hfee : FeeModelled m₁ :=
    effect_feeModelled (reachable_feeModelled hm) (step_effect (reachable_sound hm) hstep)
  have hquoted : quoted m'.poolState = quoted m₁.poolState := replay_quoted hsound calls hcalls
  have hsame_bid := congrArg PoolState.effectiveBidMantissa hquoted
  have hsame_ask := congrArg PoolState.effectiveAskMantissa hquoted
  have hsame_exp := congrArg PoolState.priceExponent hquoted
  change m'.poolState.effectiveBidMantissa = m₁.poolState.effectiveBidMantissa at hsame_bid
  change m'.poolState.effectiveAskMantissa = m₁.poolState.effectiveAskMantissa at hsame_ask
  change m'.poolState.priceExponent = m₁.poolState.priceExponent at hsame_exp
  rw [← hsame_bid] at hbid hle ⊢
  rw [← hsame_ask] at hle hask ⊢
  rw [← hsame_exp]
  have hs : Cached m'.poolState := ⟨hbid, hle, hask⟩
  have hsound' : Sound m' := replay_sound hsound calls
  have hfee' : FeeModelled m' := replay_feeModelled hsound hfee calls
  refine ⟨hs.cachedOracleQuote, priceSwap_both hsound' hfee' hs, ?_, ?_⟩
  · intro direction e h
    exact priceSwap_error hsound' hfee' hs h
  · intro hsafe r0 r1
    exact (hsafe.congr hquoted).usable hs r0 r1

/-- A price of 10 ^ 100 is pushed, and no swap can use it. -/
theorem push_unusable :
    examplePool.Reachable ∧
    ∃ m₁ event, updatePoolOracle examplePool (exampleEnv 1050) 9 1 1 100 0 = .ok (m₁, event) ∧
      (∀ direction : TradeDirection, priceSwap m₁ direction.input direction.output (1, 1, 100) =
        .error (.code .invalidEffectiveSpread)) ∧
      Instructions.swapBaseInput m₁ (exampleEnv 1100) .token0 .token1 1000000 0 1000000 false =
        .error (.code .invalidEffectiveSpread) := by
  refine ⟨examplePool_reachable, _, _, rfl, ?_, by decide +kernel⟩
  intro direction
  cases direction <;> decide +kernel

/-- At 0.999 / 1.001 the example pool can be traded both ways. -/
theorem push_usable_iff_pool :
    ∃ m₁ event,
      updatePoolOracle examplePool (exampleEnv 1050) 9 99900000 100100000 (-8) 0 =
        .ok (m₁, event) ∧
      ∀ direction : TradeDirection, ∃ p,
        priceSwap m₁ direction.input direction.output (99900000, 100100000, -8) = .ok p := by
  refine ⟨_, _, rfl, ?_⟩
  have h := push_usable_iff examplePool _ (exampleEnv 1050) 9 99900000 100100000 (-8) 0 _
    examplePool_reachable (by norm_num) rfl [] (by simp)
  exact h.2.1.mpr (h.2.2.2 ⟨by decide +kernel, by decide +kernel, by decide +kernel⟩ _ _)

end NomadAmm.Soundness.Usability
