import Mathlib.Algebra.Order.Field.Power
import Mathlib.Algebra.Order.Field.Rat
import NomadAmm.Program
import NomadAmm.Soundness.Imbalance
import NomadAmm.Soundness.Settlement

/-! The inventory skew. It is an odd, bounded, order-reversing function of the imbalance,
and the imbalance is monotone in the inventory; so a pool that holds more of token_0 quotes
no higher, whichever handler asks. The bound on the skew is a bound on what a trader can
be given beyond the cached quote. -/

namespace NomadAmm.Soundness.Skew

open Lib.Checked Lib.Truncation Exec Instructions
open Soundness.Imbalance Soundness.Settlement

/-! ## The skew of an imbalance -/

section

variable {magnitude magnitude' deadzone perPct maxBps : Nat} {i i' : Int}

/-- The size of the skew at an imbalance of this size. -/
def skewMagnitude (magnitude deadzone perPct maxBps : Nat) : Nat :=
  if magnitude ≤ deadzone then 0
  else min (min ((magnitude - deadzone) * perPct) (2 ^ 64 - 1) / 100) maxBps

theorem computeInventorySkewBps_eq (i : Int) (deadzone perPct maxBps : Nat) :
    computeInventorySkewBps i deadzone perPct maxBps =
      if 0 < i then -(skewMagnitude i.natAbs deadzone perPct maxBps : Int)
      else skewMagnitude i.natAbs deadzone perPct maxBps := by
  unfold computeInventorySkewBps skewMagnitude
  dsimp only
  by_cases hzone : i.natAbs ≤ deadzone
  · simp only [hzone, if_true, Nat.cast_zero, neg_zero, ite_self]
  · simp only [hzone, if_false]

theorem skewMagnitude_le (magnitude deadzone perPct maxBps : Nat) :
    skewMagnitude magnitude deadzone perPct maxBps ≤ maxBps := by
  unfold skewMagnitude
  split
  · exact Nat.zero_le _
  · exact Nat.min_le_right _ _

theorem skewMagnitude_mono (h : magnitude ≤ magnitude') :
    skewMagnitude magnitude deadzone perPct maxBps ≤
      skewMagnitude magnitude' deadzone perPct maxBps := by
  unfold skewMagnitude
  by_cases hzone : magnitude ≤ deadzone
  · rw [if_pos hzone]
    exact Nat.zero_le _
  · rw [if_neg hzone, if_neg (by omega)]
    have hexcess : (magnitude - deadzone) * perPct ≤ (magnitude' - deadzone) * perPct :=
      Nat.mul_le_mul_right _ (by omega)
    exact min_le_min_right _ (Nat.div_le_div_right (min_le_min_right _ hexcess))

/-- Within the dead zone there is no skew. -/
theorem computeInventorySkewBps_eq_zero (h : i.natAbs ≤ deadzone) :
    computeInventorySkewBps i deadzone perPct maxBps = 0 := by
  rw [computeInventorySkewBps_eq, skewMagnitude, if_pos h]
  simp

theorem computeInventorySkewBps_bounds (i : Int) (deadzone perPct maxBps : Nat) :
    -(maxBps : Int) ≤ computeInventorySkewBps i deadzone perPct maxBps ∧
      computeInventorySkewBps i deadzone perPct maxBps ≤ maxBps := by
  have hle := skewMagnitude_le i.natAbs deadzone perPct maxBps
  rw [computeInventorySkewBps_eq]
  split <;> omega

/-- A surplus of token_0 never raises the quote. -/
theorem computeInventorySkewBps_nonpos (h : 0 ≤ i) :
    computeInventorySkewBps i deadzone perPct maxBps ≤ 0 := by
  rcases h.lt_or_eq with hpos | rfl
  · rw [computeInventorySkewBps_eq, if_pos hpos]
    omega
  · exact (computeInventorySkewBps_eq_zero (Nat.zero_le _)).le

/-- A surplus of token_1 never lowers it. -/
theorem computeInventorySkewBps_nonneg (h : i ≤ 0) :
    0 ≤ computeInventorySkewBps i deadzone perPct maxBps := by
  rw [computeInventorySkewBps_eq, if_neg (by omega)]
  omega

/-- **The skew is odd.** -/
theorem computeInventorySkewBps_neg (i : Int) (deadzone perPct maxBps : Nat) :
    computeInventorySkewBps (-i) deadzone perPct maxBps =
      -computeInventorySkewBps i deadzone perPct maxBps := by
  rcases lt_trichotomy i 0 with hneg | rfl | hpos
  · rw [computeInventorySkewBps_eq, computeInventorySkewBps_eq, if_pos (by omega),
      if_neg (by omega), Int.natAbs_neg]
  · rw [Int.neg_zero, computeInventorySkewBps_eq_zero (Nat.zero_le _)]
    rfl
  · rw [computeInventorySkewBps_eq, computeInventorySkewBps_eq, if_neg (by omega), if_pos hpos,
      Int.natAbs_neg, neg_neg]

/-- The more token_0, the lower the skew. -/
theorem computeInventorySkewBps_antitone (h : i ≤ i') :
    computeInventorySkewBps i' deadzone perPct maxBps ≤
      computeInventorySkewBps i deadzone perPct maxBps := by
  rcases le_or_gt i 0 with hi | hi
  · rcases le_or_gt i' 0 with hi' | hi'
    · rw [computeInventorySkewBps_eq, computeInventorySkewBps_eq, if_neg (by omega),
        if_neg (by omega)]
      exact_mod_cast skewMagnitude_mono (by omega)
    · exact (computeInventorySkewBps_nonpos hi'.le).trans (computeInventorySkewBps_nonneg hi)
  · rw [computeInventorySkewBps_eq, computeInventorySkewBps_eq, if_pos (by omega), if_pos hi]
    have hmono : skewMagnitude i.natAbs deadzone perPct maxBps ≤
        skewMagnitude i'.natAbs deadzone perPct maxBps := skewMagnitude_mono (by omega)
    omega

end

/-! ## The imbalance of an inventory -/

/-- **The imbalance grows with token_0 and shrinks with token_1.** -/
theorem imbalanceBps_mono {r0 r1 r0' r1' num den : Nat} {i i' : Int} (h0 : r0 ≤ r0')
    (h1 : r1' ≤ r1) (h : imbalanceBps r0 r1 num den = some i)
    (h' : imbalanceBps r0' r1' num den = some i') : i ≤ i' := by
  obtain ⟨_, hpos, rfl⟩ := imbalanceBps_eq_some h
  obtain ⟨_, hpos', rfl⟩ := imbalanceBps_eq_some h'
  have hvalue : r0 * num / den ≤ r0' * num / den :=
    Nat.div_le_div_right (Nat.mul_le_mul_right _ h0)
  generalize r0 * num / den = v at hvalue hpos ⊢
  generalize r0' * num / den = v' at hvalue hpos' ⊢
  refine tdiv_le_tdiv_of_mul_le (by omega) (by omega) ?_
  -- the cross products of the two fractions differ by twice `v' * r1 - v * r1'`
  have hcross : (v : Int) * r1' ≤ v' * r1 := by
    exact_mod_cast Nat.mul_le_mul hvalue h1
  push_cast
  linarith

/-- Its sign is that of the exact surplus. -/
theorem imbalanceBps_sign {r0 r1 num den : Nat} {i : Int}
    (h : imbalanceBps r0 r1 num den = some i) :
    (r1 * den ≤ r0 * num → 0 ≤ i) ∧ (r0 * num < r1 * den → i ≤ 0) := by
  obtain ⟨hden, hpos, rfl⟩ := imbalanceBps_eq_some h
  constructor
  · intro hsurplus
    have hvalue : r1 ≤ r0 * num / den := (Nat.le_div_iff_mul_le (by omega)).mpr hsurplus
    exact Int.tdiv_nonneg (by omega) (by omega)
  · intro hdeficit
    have hvalue : r0 * num / den < r1 := (Nat.div_lt_iff_lt_mul (by omega)).mpr hdeficit
    have hopp : 0 ≤ (-(((r0 * num / den : Nat) - r1 : Int) * 10000)).tdiv
        (r0 * num / den + r1 : Nat) := Int.tdiv_nonneg (by omega) (by omega)
    rw [Int.neg_tdiv] at hopp
    omega

/-! ## The quote of an inventory -/

variable {s : PoolState} {params : SwapParams} {bid ask exponent : Int} {q q' : SkewedQuote}
  {m m' : Market} {r0 r1 r0' r1' : Nat}

/-- Both sides of a cached quote, shifted by one skew. -/
structure Shifted (s : PoolState) (r0 r1 : Nat) (bid ask exponent : Int) (q : SkewedQuote) :
    Prop where
  skew : q.inventorySkewBps = computeInventorySkewBps q.inventoryImbalanceBps
    s.inventorySkewDeadzoneBps s.inventorySkewBpsPerPct s.inventorySkewMaxBps
  shiftedBid : shiftMantissaBySignedBps bid q.inventorySkewBps = some q.bidMantissa
  shiftedAsk : shiftMantissaBySignedBps ask q.inventorySkewBps = some q.askMantissa
  disabled : s.inventorySkewEnabled = 0 → q.inventoryImbalanceBps = 0
  enabled : s.inventorySkewEnabled ≠ 0 → ∃ midNum midDen,
    pythPriceToRawFraction ((bid + ask).tdiv 2) exponent s.mint0Decimals s.mint1Decimals =
        some (midNum, midDen) ∧
      noneOr 0 (computeInventoryImbalanceBps r0 r1 midNum midDen) = .ok q.inventoryImbalanceBps

theorem skewedQuote_spec (h : s.skewedQuote params bid ask exponent = .ok q)
    (horient : params.tradeDirection.orient
      (params.totalInputTokenAmount, params.totalOutputTokenAmount) = (r0, r1)) :
    Shifted s r0 r1 bid ask exponent q := by
  unfold PoolState.skewedQuote at h
  by_cases hon : s.inventorySkewEnabled ≠ 0
  · rw [if_pos hon] at h
    simp only [horient, bind_eq_ok, okOr_eq_ok, pure_eq_ok] at h
    obtain ⟨⟨midNum, midDen⟩, hmid, imbalance, himb, shiftedBid, hbid, shiftedAsk, hask, rfl⟩ := h
    exact ⟨rfl, hbid, hask, fun hoff => absurd hoff hon, fun _ => ⟨midNum, midDen, hmid, himb⟩⟩
  · rw [if_neg hon] at h
    cases h
    exact ⟨(computeInventorySkewBps_eq_zero (Nat.zero_le _)).symm, rfl, rfl, fun _ => rfl,
      fun h => absurd h hon⟩

/-- The quote the pool makes at an inventory of `r0` and `r1`. -/
def effectiveQuote (s : PoolState) (r0 r1 : Nat) (bid ask exponent : Int) : Exec SkewedQuote :=
  s.skewedQuote ⟨.zeroForOne, r0, r1, 0, 0, true⟩ bid ask exponent

theorem effectiveQuote_spec (h : effectiveQuote s r0 r1 bid ask exponent = .ok q) :
    Shifted s r0 r1 bid ask exponent q :=
  skewedQuote_spec h rfl

/-- The relabelling of input and output undoes itself. -/
theorem skewedQuote_eq_effectiveQuote (horient : params.tradeDirection.orient
      (params.totalInputTokenAmount, params.totalOutputTokenAmount) = (r0, r1)) :
    s.skewedQuote params bid ask exponent = effectiveQuote s r0 r1 bid ask exponent := by
  unfold effectiveQuote PoolState.skewedQuote
  rw [horient]
  rfl

/-- **A pricing quotes the inventory**, whichever way it is traded. -/
theorem effectiveQuote_of_price {inputVault outputVault : TokenSide} {p : Pricing}
    (h : priceSwap m inputVault outputVault (bid, ask, exponent) = .ok p) :
    effectiveQuote m.poolState (m.net .token0) (m.net .token1) bid ask exponent = .ok p.quote := by
  obtain ⟨-, -, hquote, -⟩ := priceSwap_spec h
  obtain ⟨-, hx, hy⟩ := priceSwap_reserves h
  refine (skewedQuote_eq_effectiveQuote ?_).symm.trans hquote
  rw [hx, hy]
  cases p.params.tradeDirection <;> rfl

/-- The mid of a positive quote is priced within 128 bits. -/
theorem mid_fits {midNum midDen : Nat} (hbid : 0 < bid) (hle : bid ≤ ask) (hask : ask < 2 ^ 63)
    (h : pythPriceToRawFraction ((bid + ask).tdiv 2) exponent s.mint0Decimals s.mint1Decimals =
      some (midNum, midDen)) : 0 < midDen ∧ midNum < 2 ^ 128 := by
  refine ⟨pythPriceToRawFraction_pos h, ?_⟩
  obtain ⟨_, h⟩ := pythPriceToRawFraction_eq_some.mp h
  split at h
  · exact h.2.1
  · obtain ⟨_, rfl, _⟩ := h
    rw [Int.tdiv_eq_ediv_of_nonneg (by omega)]
    omega

/-- The imbalance of a quote, where there is an inventory. -/
theorem Shifted.imbalance {midNum midDen : Nat} (h : Shifted s r0 r1 bid ask exponent q)
    (hon : s.inventorySkewEnabled ≠ 0) (hbid : 0 < bid) (hle : bid ≤ ask) (hask : ask < 2 ^ 63)
    (hr0 : r0 < 2 ^ 64) (hr1 : r1 < 2 ^ 64) (hpos : 0 < r1)
    (hmid : pythPriceToRawFraction ((bid + ask).tdiv 2) exponent s.mint0Decimals s.mint1Decimals =
      some (midNum, midDen)) :
    imbalanceBps r0 r1 midNum midDen = some q.inventoryImbalanceBps := by
  obtain ⟨n, d, hnd, himb⟩ := h.enabled hon
  obtain ⟨rfl, rfl⟩ := Prod.mk.inj (Option.some.inj (hmid.symm.trans hnd))
  obtain ⟨hden, hnum⟩ := mid_fits hbid hle hask hmid
  rw [computeInventoryImbalanceBps_eq_orNone (fits hr0 hr1 hnum _)] at himb
  cases heq : imbalanceBps r0 r1 midNum midDen with
  | none =>
    rcases imbalanceBps_eq_none.mp heq with hzero | hempty
    · exact absurd hzero hden.ne'
    · exact absurd (Nat.eq_zero_of_add_eq_zero hempty).2 hpos.ne'
  | some i =>
    rw [heq] at himb
    cases himb
    rfl

theorem Shifted.imbalance_mono (h : Shifted s r0 r1 bid ask exponent q)
    (h' : Shifted s r0' r1' bid ask exponent q') (hbid : 0 < bid) (hle : bid ≤ ask)
    (hask : ask < 2 ^ 63) (hr0' : r0' < 2 ^ 64) (hr1 : r1 < 2 ^ 64) (hpos : 0 < r1')
    (h0 : r0 ≤ r0') (h1 : r1' ≤ r1) : q.inventoryImbalanceBps ≤ q'.inventoryImbalanceBps := by
  by_cases hon : s.inventorySkewEnabled = 0
  · rw [h.disabled hon, h'.disabled hon]
  · obtain ⟨midNum, midDen, hmid, -⟩ := h.enabled hon
    exact imbalanceBps_mono h0 h1
      (h.imbalance hon hbid hle hask (by omega) hr1 (by omega) hmid)
      (h'.imbalance hon hbid hle hask hr0' (by omega) hpos hmid)

/-- A skew of zero quotes as cached, one below it lower, one above it higher. -/
theorem Shifted.unskewed (h : Shifted s r0 r1 bid ask exponent q) (hzero : q.inventorySkewBps = 0) :
    q.bidMantissa = bid ∧ q.askMantissa = ask := by
  obtain ⟨-, hbid, hask, -, -⟩ := h
  rw [hzero] at hbid hask
  cases hbid
  cases hask
  exact ⟨rfl, rfl⟩

theorem Shifted.lowered (h : Shifted s r0 r1 bid ask exponent q) (hbid : 0 < bid) (hle : bid ≤ ask)
    (hskew : q.inventorySkewBps ≤ 0) : q.bidMantissa ≤ bid ∧ q.askMantissa ≤ ask :=
  ⟨shiftMantissa_mono_delta hbid.le hskew rfl h.shiftedBid,
    shiftMantissa_mono_delta (by omega) hskew rfl h.shiftedAsk⟩

theorem Shifted.raised (h : Shifted s r0 r1 bid ask exponent q) (hbid : 0 < bid) (hle : bid ≤ ask)
    (hskew : 0 ≤ q.inventorySkewBps) : bid ≤ q.bidMantissa ∧ ask ≤ q.askMantissa :=
  ⟨shiftMantissa_mono_delta hbid.le hskew h.shiftedBid rfl,
    shiftMantissa_mono_delta (by omega) hskew h.shiftedAsk rfl⟩

/-- **The skew rebalances.** More of token_0 and less of token_1 never raise the quote.
Within the dead zone it is the cached one, at a surplus of token_0 no higher, at a surplus
of token_1 no lower; the skew is odd; and a pricing in either direction quotes the same. -/
theorem effectiveQuote_rebalances (s : PoolState) (bid ask exponent : Int) (hbid : 0 < bid)
    (hle : bid ≤ ask) (hask : ask < 2 ^ 63) :
    (∀ r0 r1 r0' r1' q q', 0 < r0 → 0 < r1' → r0' < 2 ^ 64 → r1 < 2 ^ 64 → r0 ≤ r0' → r1' ≤ r1 →
      effectiveQuote s r0 r1 bid ask exponent = .ok q →
      effectiveQuote s r0' r1' bid ask exponent = .ok q' →
      q'.bidMantissa ≤ q.bidMantissa ∧ q'.askMantissa ≤ q.askMantissa) ∧
    (∀ r0 r1 q, 0 < r0 → 0 < r1 → r0 < 2 ^ 64 → r1 < 2 ^ 64 →
      effectiveQuote s r0 r1 bid ask exponent = .ok q →
      (q.inventoryImbalanceBps.natAbs ≤ s.inventorySkewDeadzoneBps →
        q.bidMantissa = bid ∧ q.askMantissa = ask) ∧
      (0 ≤ q.inventoryImbalanceBps → q.bidMantissa ≤ bid ∧ q.askMantissa ≤ ask) ∧
      (q.inventoryImbalanceBps ≤ 0 → bid ≤ q.bidMantissa ∧ ask ≤ q.askMantissa) ∧
      ∀ midNum midDen, pythPriceToRawFraction ((bid + ask).tdiv 2) exponent s.mint0Decimals
          s.mint1Decimals = some (midNum, midDen) →
        (r1 * midDen ≤ r0 * midNum → q.bidMantissa ≤ bid ∧ q.askMantissa ≤ ask) ∧
        (r0 * midNum < r1 * midDen → bid ≤ q.bidMantissa ∧ ask ≤ q.askMantissa)) ∧
    (∀ i, computeInventorySkewBps (-i) s.inventorySkewDeadzoneBps s.inventorySkewBpsPerPct
        s.inventorySkewMaxBps =
      -computeInventorySkewBps i s.inventorySkewDeadzoneBps s.inventorySkewBpsPerPct
        s.inventorySkewMaxBps) ∧
    (∀ m, m.poolState = s → ∀ inputVault outputVault p,
      priceSwap m inputVault outputVault (bid, ask, exponent) = .ok p →
      effectiveQuote s (m.net .token0) (m.net .token1) bid ask exponent = .ok p.quote) := by
  refine ⟨?_, ?_, fun i => computeInventorySkewBps_neg i _ _ _, ?_⟩
  · intro r0 r1 r0' r1' q q' _ hpos hr0' hr1 h0 h1 h h'
    have hs := effectiveQuote_spec h
    have hs' := effectiveQuote_spec h'
    have hskew : q'.inventorySkewBps ≤ q.inventorySkewBps := by
      rw [hs.skew, hs'.skew]
      exact computeInventorySkewBps_antitone
        (hs.imbalance_mono hs' hbid hle hask hr0' hr1 hpos h0 h1)
    exact ⟨shiftMantissa_mono_delta hbid.le hskew hs.shiftedBid hs'.shiftedBid,
      shiftMantissa_mono_delta (by omega) hskew hs.shiftedAsk hs'.shiftedAsk⟩
  · intro r0 r1 q hr0 hr1 hr0' hr1' h
    have hs := effectiveQuote_spec h
    have hsurplus : 0 ≤ q.inventoryImbalanceBps → q.bidMantissa ≤ bid ∧ q.askMantissa ≤ ask := by
      intro himb
      refine hs.lowered hbid hle ?_
      rw [hs.skew]
      exact computeInventorySkewBps_nonpos himb
    have hdeficit : q.inventoryImbalanceBps ≤ 0 → bid ≤ q.bidMantissa ∧ ask ≤ q.askMantissa := by
      intro himb
      refine hs.raised hbid hle ?_
      rw [hs.skew]
      exact computeInventorySkewBps_nonneg himb
    refine ⟨?_, hsurplus, hdeficit, ?_⟩
    · intro hzone
      refine hs.unskewed ?_
      rw [hs.skew]
      exact computeInventorySkewBps_eq_zero hzone
    · intro midNum midDen hmid
      by_cases hon : s.inventorySkewEnabled = 0
      · have hzero := hs.disabled hon
        exact ⟨fun _ => hsurplus hzero.ge, fun _ => hdeficit hzero.le⟩
      · obtain ⟨hup, hdown⟩ :=
          imbalanceBps_sign (hs.imbalance hon hbid hle hask hr0' hr1' hr1 hmid)
        exact ⟨fun h => hsurplus (hup h), fun h => hdeficit (hdown h)⟩
  · intro m hm inputVault outputVault p h
    subst hm
    exact effectiveQuote_of_price h

/-- A pool with skew. -/
def rebalancingPool : PoolState :=
  { examplePool.poolState with
    inventorySkewEnabled := 1, inventorySkewBpsPerPct := 10, inventorySkewMaxBps := 500 }

/-- At mid one, before and after token_0 grows and token_1 shrinks by ten per cent. -/
theorem effectiveQuote_rebalances_pool :
    ∃ q q', effectiveQuote rebalancingPool 1000000000 1000000000 99900000 100100000 (-8) = .ok q ∧
      effectiveQuote rebalancingPool 1100000000 900000000 99900000 100100000 (-8) = .ok q' ∧
      q'.bidMantissa ≤ q.bidMantissa ∧ q'.askMantissa ≤ q.askMantissa := by
  have hq : effectiveQuote rebalancingPool 1000000000 1000000000 99900000 100100000 (-8) =
      .ok ⟨0, 0, 99900000, 100100000⟩ := by decide +kernel
  have hq' : effectiveQuote rebalancingPool 1100000000 900000000 99900000 100100000 (-8) =
      .ok ⟨1000, -100, 98901000, 99099000⟩ := by decide +kernel
  exact ⟨_, _, hq, hq', (effectiveQuote_rebalances rebalancingPool 99900000 100100000 (-8)
    (by norm_num) (by norm_num) (by norm_num)).1 _ _ _ _ _ _ (by norm_num) (by norm_num)
    (by norm_num) (by norm_num) (by norm_num) (by norm_num) hq hq'⟩

/-! ## What the cap of the skew is worth -/

/-- `shifted` is `mantissa` moved by at most `maxBps` and rounded down. -/
structure WithinBps (maxBps : Nat) (mantissa shifted : Int) : Prop where
  lower : (mantissa * (10000 - maxBps) / 10000 - 1 : ℚ) < shifted
  upper : (shifted : ℚ) ≤ mantissa * (10000 + maxBps) / 10000

theorem shiftMantissa_within {maxBps : Nat} {mantissa delta shifted : Int} (hpos : 0 < mantissa)
    (hlow : -(maxBps : Int) ≤ delta) (hhigh : delta ≤ maxBps)
    (h : shiftMantissaBySignedBps mantissa delta = some shifted) :
    WithinBps maxBps mantissa shifted := by
  obtain ⟨hfactor, rfl, -⟩ := shiftMantissa_spec h
  obtain ⟨hfloor, hceil⟩ := tdiv_bounds
    (Int.mul_nonneg hpos.le hfactor.le) (show (0 : Int) < 10000 by norm_num)
  generalize (mantissa * (10000 + delta)).tdiv 10000 = shifted at hfloor hceil
  have hup : mantissa * (10000 + delta) ≤ mantissa * (10000 + maxBps) :=
    Int.mul_le_mul_of_nonneg_left (by omega) hpos.le
  have hdown : mantissa * (10000 - maxBps) ≤ mantissa * (10000 + delta) :=
    Int.mul_le_mul_of_nonneg_left (by omega) hpos.le
  have hlower : mantissa * (10000 - maxBps) < (shifted + 1) * 10000 := hdown.trans_lt hceil
  have hupper : shifted * 10000 ≤ mantissa * (10000 + maxBps) := hfloor.trans hup
  constructor
  · rw [← Int.cast_lt (R := ℚ)] at hlower
    push_cast at hlower
    linarith
  · rw [← Int.cast_le (R := ℚ)] at hupper
    push_cast at hupper
    linarith

theorem Shifted.within (h : Shifted s r0 r1 bid ask exponent q) (hbid : 0 < bid) (hle : bid ≤ ask) :
    q.bidMantissa ≤ q.askMantissa ∧ WithinBps s.inventorySkewMaxBps bid q.bidMantissa ∧
      WithinBps s.inventorySkewMaxBps ask q.askMantissa := by
  have hbounds := computeInventorySkewBps_bounds q.inventoryImbalanceBps s.inventorySkewDeadzoneBps
    s.inventorySkewBpsPerPct s.inventorySkewMaxBps
  rw [← h.skew] at hbounds
  exact ⟨shiftMantissa_mono hle h.shiftedBid h.shiftedAsk,
    shiftMantissa_within hbid hbounds.1 hbounds.2 h.shiftedBid,
    shiftMantissa_within (by omega) hbounds.1 hbounds.2 h.shiftedAsk⟩

/-- The raw price of a mantissa, of token_0 in token_1, exactly. -/
def rawPriceAt (s : PoolState) (mantissa : ℚ) : ℚ :=
  mantissa * 10 ^ (s.priceExponent + s.mint1Decimals - s.mint0Decimals)

theorem rawPriceAt_mono {mantissa mantissa' : ℚ} (h : mantissa ≤ mantissa') :
    rawPriceAt s mantissa ≤ rawPriceAt s mantissa' := by
  unfold rawPriceAt
  exact mul_le_mul_of_nonneg_right h (by positivity)

/-- The integer fraction is the exact price. -/
theorem rawPrice_exact {mantissa : Int} {n d : Nat} (h : pythPriceToRawFraction mantissa
      s.priceExponent s.mint0Decimals s.mint1Decimals = some (n, d)) :
    (n : ℚ) = rawPriceAt s mantissa * d := by
  obtain ⟨hpos, h⟩ := pythPriceToRawFraction_eq_some.mp h
  have hm : ((mantissa.toNat : ℕ) : ℚ) = mantissa := by
    exact_mod_cast Int.toNat_of_nonneg hpos.le
  unfold rawPriceAt
  split at h
  · next hexp =>
    obtain ⟨_, _, rfl, rfl⟩ := h
    rw [Nat.cast_mul, hm, Nat.cast_one, mul_one, Nat.cast_pow, ← zpow_natCast,
      Int.toNat_of_nonneg hexp]
    rfl
  · next hexp =>
    obtain ⟨_, rfl, rfl⟩ := h
    rw [hm, Nat.cast_pow, ← zpow_natCast, Int.toNat_of_nonneg (by omega), mul_assoc,
      Nat.cast_ofNat, ← zpow_add₀ (by norm_num), add_neg_cancel, zpow_zero, mul_one]

/-- An output of at most `input` at a price: what token_0 sells for, or costs. -/
def PaidAt (price : ℚ) (direction : TradeDirection) (input output : Nat) : Prop :=
  match direction with
  | .zeroForOne => (output : ℚ) ≤ input * price
  | .oneForZero => output * price ≤ (input : ℚ)

/-- The curve's spot, turned back to a price of token_0. -/
theorem paidAt_of_spot {price : ℚ} {direction : TradeDirection} {n d spotNum spotDen less
    swapped : Nat} (hexact : (n : ℚ) = price * d) (hd : 0 < d)
    (horient : direction.orient (n, d) = (spotNum, spotDen))
    (hspot : swapped * spotDen ≤ less * spotNum) : PaidAt price direction less swapped := by
  have hdpos : (0 : ℚ) < d := by exact_mod_cast hd
  have hspot' : (swapped * spotDen : ℚ) ≤ less * spotNum := by exact_mod_cast hspot
  cases direction with
  | zeroForOne =>
    obtain ⟨rfl, rfl⟩ := Prod.mk.inj horient
    rw [hexact, ← mul_assoc] at hspot'
    exact le_of_mul_le_mul_right hspot' hdpos
  | oneForZero =>
    obtain ⟨rfl, rfl⟩ := Prod.mk.inj horient
    rw [hexact, ← mul_assoc] at hspot'
    exact le_of_mul_le_mul_right hspot' hdpos

theorem PaidAt.mono {price price' : ℚ} {direction : TradeDirection} {input output : Nat}
    (h : PaidAt price direction input output) (hsell : direction = .zeroForOne → price ≤ price')
    (hbuy : direction = .oneForZero → price' ≤ price) : PaidAt price' direction input output := by
  cases direction with
  | zeroForOne => exact le_trans h (mul_le_mul_of_nonneg_left (hsell rfl) (Nat.cast_nonneg _))
  | oneForZero => exact le_trans (mul_le_mul_of_nonneg_left (hbuy rfl) (Nat.cast_nonneg _)) h

/-- The best mantissa for a trader that the cap of the skew allows. -/
def cappedMantissa (s : PoolState) (bid ask : Int) : TradeDirection → ℚ
  | .zeroForOne => bid * (10000 + s.inventorySkewMaxBps) / 10000
  | .oneForZero => ask * (10000 - s.inventorySkewMaxBps) / 10000 - 1

/-- **The cap of the skew bounds adverse selection.** A pricing quotes within the cap of
the cached quote, and no swap of either kind takes more from the curve than the quote at
the cap allows. -/
theorem skew_bounds_adverse_selection (m : Market) (bid ask exponent : Int) (hbid : 0 < bid)
    (hle : bid ≤ ask) :
    (∀ inputVault outputVault p,
      priceSwap m inputVault outputVault (bid, ask, exponent) = .ok p →
      p.quote.bidMantissa ≤ p.quote.askMantissa ∧
        WithinBps m.poolState.inventorySkewMaxBps bid p.quote.bidMantissa ∧
        WithinBps m.poolState.inventorySkewMaxBps ask p.quote.askMantissa) ∧
    (m.poolState.cachedOracleQuote = some (bid, ask, exponent) →
      ∀ env inputVault outputVault a b userAmount toVault m' receipt,
      Swaps m env inputVault outputVault a b userAmount toVault m' receipt →
      ∃ direction onInput, inputVault = direction.input ∧ outputVault = direction.output ∧
        m.poolState.isCreatorFeeOnInput direction = .ok onInput ∧
        PaidAt (rawPriceAt m.poolState (cappedMantissa m.poolState bid ask direction)) direction
          (curveInput onInput receipt.result) (curveOutput onInput receipt.result)) := by
  have hquote : ∀ inputVault outputVault p,
      priceSwap m inputVault outputVault (bid, ask, exponent) = .ok p →
      p.quote.bidMantissa ≤ p.quote.askMantissa ∧
        WithinBps m.poolState.inventorySkewMaxBps bid p.quote.bidMantissa ∧
        WithinBps m.poolState.inventorySkewMaxBps ask p.quote.askMantissa :=
    fun inputVault outputVault p h =>
      (effectiveQuote_spec (effectiveQuote_of_price h)).within hbid hle
  refine ⟨hquote, ?_⟩
  intro hcached env inputVault outputVault a b userAmount toVault m' receipt h
  obtain ⟨q, hquotes, hsettle⟩ := h.settles
  obtain ⟨less, swapped, hq⟩ := hquotes.quoted
  obtain ⟨cached, hcached', hprice⟩ := hq.cached
  obtain rfl := Option.some.inj (hcached.symm.trans hcached')
  obtain ⟨-, hlow, hhigh⟩ := hquote _ _ _ hprice
  obtain ⟨-, -, -, ⟨⟨n, d⟩, hcanonical, horient⟩, -⟩ := priceSwap_spec hprice
  obtain ⟨hin, hout, hon⟩ := priceSwap_sides hprice
  obtain ⟨hless, hswapped⟩ := covers_curve hq.covers
  obtain ⟨-, -, -, hexp⟩ := PoolState.cachedOracleQuote_eq_some.mp hcached
  refine ⟨_, _, hin, hout, hon, ?_⟩
  rw [settleSwap_result hsettle, hless, hswapped]
  rw [hexp] at hcanonical
  have hpaid := paidAt_of_spot (rawPrice_exact hcanonical) (pythPriceToRawFraction_pos hcanonical)
    horient hq.covers.spot
  refine hpaid.mono ?_ ?_
  · intro hdir
    rw [hdir]
    exact rawPriceAt_mono hlow.upper
  · intro hdir
    rw [hdir]
    exact rawPriceAt_mono hhigh.lower.le

/-- Token_0 sold into the pool with skew, quoted at 0.999 / 1.001, when it holds a tenth too
much of it: the bid is shifted down by 100 bps. -/
theorem skew_bounds_adverse_selection_pool :
    let m := Lib.Transition.replay Market.step
      { examplePool with poolState := rebalancingPool, vault := ⟨1100000000, 900000000⟩ }
      [examplePush 99900000 100100000 0]
    ∃ m' receipt, Instructions.swapBaseInput m (exampleEnv 1100) .token0 .token1 1000000 0 1000000
        false = .ok (m', receipt) ∧ receipt.event.inventorySkewBps = -100 ∧
      ∃ direction onInput, TokenSide.token0 = direction.input ∧
        PaidAt (rawPriceAt m.poolState (cappedMantissa m.poolState 99900000 100100000 direction))
          direction (curveInput onInput receipt.result) (curveOutput onInput receipt.result) := by
  intro m
  have hrun : (Instructions.swapBaseInput m (exampleEnv 1100) .token0 .token1 1000000 0 1000000
      false).toOption.map (·.2.event.inventorySkewBps) = some (-100) := by decide +kernel
  obtain ⟨⟨m', receipt⟩, hsome, hskew⟩ := Option.map_eq_some_iff.mp hrun
  have h : Instructions.swapBaseInput m (exampleEnv 1100) .token0 .token1 1000000 0 1000000 false =
      .ok (m', receipt) := by
    cases hresult : Instructions.swapBaseInput m (exampleEnv 1100) .token0 .token1 1000000 0 1000000
        false with
    | error e =>
      rw [hresult] at hsome
      cases hsome
    | ok r =>
      rw [hresult] at hsome
      rw [Option.some.inj hsome]
  obtain ⟨direction, onInput, hin, -, -, hpaid⟩ :=
    (skew_bounds_adverse_selection m 99900000 100100000 (-8) (by norm_num) (by norm_num)).2
      (by decide +kernel) _ _ _ _ _ _ _ _ _ (.inl h)
  exact ⟨m', receipt, h, hskew, direction, onInput, hin, hpaid⟩

end NomadAmm.Soundness.Skew
