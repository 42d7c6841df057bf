import NomadAmm.Lib.Checked
import NomadAmm.Lib.Truncation

/-! `client/src/oracle_math.rs`: the bid and ask a keeper pushes, from a price, a minimum
spread and what the market publishes. `i64` mantissas and `i128` products are `Int`, basis
points are `Nat`. -/

namespace NomadAmm.Client

open Lib.Checked Lib.Truncation

/-- The published bid where it is positive and below the floor, else the floor. -/
def widenBid (bidFloor : Int) : Option Int → Int
  | some b => if b < bidFloor ∧ 0 < b then b else bidFloor
  | none => bidFloor

/-- The published ask where it is positive and above the floor, else the floor. -/
def widenAsk (askFloor : Int) : Option Int → Int
  | some a => if askFloor < a ∧ 0 < a then a else askFloor
  | none => askFloor

def computeEffectiveBidAskMantissas (priceMantissa : Int)
    (bestBidMantissa bestAskMantissa : Option Int) (minSpreadBps : Nat) : Option (Int × Int) :=
  if priceMantissa ≤ 0 then none
  else do
    let raised ← checkedInt 128 (priceMantissa * (20000 + minSpreadBps))
    let askFloor := raised.tdiv 20000
    let lowered ← checkedInt 128 (priceMantissa * (20000 - minSpreadBps))
    let bidFloor := lowered.tdiv 20000
    let bid := widenBid bidFloor bestBidMantissa
    let ask := widenAsk askFloor bestAskMantissa
    if bid ≤ 0 ∨ ask ≤ 0 ∨ ask < bid then none
    else if 2 ^ 63 - 1 < bid ∨ 2 ^ 63 - 1 < ask then none
    else some (bid, ask)

def confidenceSpreadMultiplier : Nat := 1

def maxConfidenceSpreadBps : Nat := 20

/-- The confidence in basis points of a positive price, capped. -/
def confidenceSpreadBps (confidenceMantissa : Option Int) (priceMantissa : Int) : Nat :=
  match confidenceMantissa with
  | some c =>
    if 0 < c then
      let rawBps := (checkedDiv (saturatingMul 128 c.toNat 10000) priceMantissa.toNat).getD 0
      min (saturatingMul 128 rawBps confidenceSpreadMultiplier) maxConfidenceSpreadBps
    else 0
  | none => 0

def computeConfidenceAdjustedMinSpreadBps (minSpreadBps : Nat) (confidenceMantissa : Option Int)
    (priceMantissa : Int) : Nat :=
  if priceMantissa ≤ 0 then saturatingAdd 16 minSpreadBps maxConfidenceSpreadBps
  else saturatingAdd 16 minSpreadBps (confidenceSpreadBps confidenceMantissa priceMantissa)

/-! ## What a quote is made of -/

section

variable {price bid ask bidFloor askFloor : Int} {bestBid bestAsk : Option Int} {spread : Nat}

theorem widenBid_le (bidFloor : Int) (bestBid : Option Int) :
    widenBid bidFloor bestBid ≤ bidFloor := by
  unfold widenBid
  split
  · split
    · next h => exact h.1.le
    · exact le_rfl
  · exact le_rfl

theorem widenBid_le_best {b : Int} (hb : 0 < b) : widenBid bidFloor (some b) ≤ b := by
  unfold widenBid
  dsimp only
  split
  · exact le_rfl
  · next h => omega

theorem widenBid_mono {bidFloor' : Int} (h : bidFloor ≤ bidFloor') (bestBid : Option Int) :
    widenBid bidFloor bestBid ≤ widenBid bidFloor' bestBid := by
  cases bestBid with
  | none => exact h
  | some b =>
    dsimp only [widenBid]
    split <;> split <;> omega

theorem widenBid_pos (hfloor : 0 < bidFloor) (bestBid : Option Int) :
    0 < widenBid bidFloor bestBid := by
  unfold widenBid
  split
  · split
    · next h => exact h.2
    · exact hfloor
  · exact hfloor

/-- A published ask at or below the floor is left alone. -/
theorem widenAsk_eq_floor (h : ∀ a, bestAsk = some a → a ≤ askFloor) :
    widenAsk askFloor bestAsk = askFloor := by
  cases bestAsk with
  | none => rfl
  | some a =>
    have hle := h a rfl
    exact if_neg (by omega)

theorem le_widenAsk (askFloor : Int) (bestAsk : Option Int) :
    askFloor ≤ widenAsk askFloor bestAsk := by
  unfold widenAsk
  split
  · split
    · next h => exact h.1.le
    · exact le_rfl
  · exact le_rfl

theorem widenAsk_mono {askFloor' : Int} (h : askFloor ≤ askFloor') (bestAsk : Option Int) :
    widenAsk askFloor bestAsk ≤ widenAsk askFloor' bestAsk := by
  cases bestAsk with
  | none => exact h
  | some a =>
    dsimp only [widenAsk]
    split <;> split <;> omega

theorem best_le_widenAsk {a : Int} (ha : 0 < a) : a ≤ widenAsk askFloor (some a) := by
  unfold widenAsk
  dsimp only
  split
  · exact le_rfl
  · next h => omega

/-- A quote is the two floors, each widened by its own side of the market. -/
theorem computeEffective_spec
    (h : computeEffectiveBidAskMantissas price bestBid bestAsk spread = some (bid, ask)) :
    0 < price ∧ bid = widenBid ((price * (20000 - spread)).tdiv 20000) bestBid ∧
      ask = widenAsk ((price * (20000 + spread)).tdiv 20000) bestAsk ∧ 0 < bid ∧ bid ≤ ask ∧
      ask ≤ 2 ^ 63 - 1 := by
  unfold computeEffectiveBidAskMantissas at h
  split at h
  · cases h
  · next hprice =>
    simp only [bind, Option.bind_eq_some_iff, checkedInt_eq_some] at h
    obtain ⟨_, ⟨_, rfl⟩, _, ⟨_, rfl⟩, h⟩ := h
    split at h
    · cases h
    · next hsides =>
      split at h
      · cases h
      · next hrange =>
        simp only [Option.some.injEq, Prod.mk.injEq] at h
        obtain ⟨rfl, rfl⟩ := h
        exact ⟨by omega, rfl, rfl, by omega, by omega, by omega⟩

/-- An absent confidence counts as none, and so does a negative one. -/
theorem confidenceSpreadBps_eq (confidence : Option Int) (hprice : 0 < price) :
    confidenceSpreadBps confidence price =
      min (saturatingMul 128 (saturatingMul 128 (confidence.getD 0).toNat 10000 / price.toNat)
        confidenceSpreadMultiplier) maxConfidenceSpreadBps := by
  have hdiv : ∀ n, checkedDiv n price.toNat = some (n / price.toNat) := fun n =>
    if_neg (by omega)
  have hzero : ∀ c : Int, ¬ 0 < c → min (saturatingMul 128 (saturatingMul 128 c.toNat 10000 /
      price.toNat) confidenceSpreadMultiplier) maxConfidenceSpreadBps = 0 := by
    intro c hc
    rw [Int.toNat_of_nonpos (by omega), zero_saturatingMul, Nat.zero_div, zero_saturatingMul,
      Nat.zero_min]
  cases confidence with
  | none => exact (hzero 0 (by omega)).symm
  | some c =>
    by_cases hc : 0 < c
    · simp only [confidenceSpreadBps, hc, if_true, hdiv, Option.getD_some]
    · simp only [confidenceSpreadBps, hc, if_false, Option.getD_some]
      exact (hzero c hc).symm

/-- **More confidence interval, more spread.** -/
theorem minSpread_mono {confidence confidence' : Option Int} (hprice : 0 < price)
    (h : confidence.getD 0 ≤ confidence'.getD 0) (spread : Nat) :
    computeConfidenceAdjustedMinSpreadBps spread confidence price ≤
      computeConfidenceAdjustedMinSpreadBps spread confidence' price := by
  have hraw : saturatingMul 128 (confidence.getD 0).toNat 10000 ≤
      saturatingMul 128 (confidence'.getD 0).toNat 10000 :=
    min_le_min_right _ (Nat.mul_le_mul_right _ (by omega))
  have hbps : confidenceSpreadBps confidence price ≤ confidenceSpreadBps confidence' price := by
    rw [confidenceSpreadBps_eq _ hprice, confidenceSpreadBps_eq _ hprice]
    exact min_le_min_right _ (min_le_min_right _
      (Nat.mul_le_mul_right _ (Nat.div_le_div_right hraw)))
  rw [computeConfidenceAdjustedMinSpreadBps, computeConfidenceAdjustedMinSpreadBps,
    if_neg (by omega), if_neg (by omega)]
  exact min_le_min_right _ (Nat.add_le_add_left hbps _)

/-- A wider spread never raises the bid nor lowers the ask. -/
theorem computeEffective_widens {bid' ask' : Int} {spread' : Nat} (hle : spread ≤ spread')
    (h : computeEffectiveBidAskMantissas price bestBid bestAsk spread = some (bid, ask))
    (h' : computeEffectiveBidAskMantissas price bestBid bestAsk spread' = some (bid', ask')) :
    bid' ≤ bid ∧ ask ≤ ask' := by
  obtain ⟨hprice, rfl, rfl, -⟩ := computeEffective_spec h
  obtain ⟨-, rfl, rfl, -⟩ := computeEffective_spec h'
  have hbid : price * (20000 - spread') ≤ price * (20000 - spread) :=
    Int.mul_le_mul_of_nonneg_left (by omega) hprice.le
  have hask : price * (20000 + spread) ≤ price * (20000 + spread') :=
    Int.mul_le_mul_of_nonneg_left (by omega) hprice.le
  exact ⟨widenBid_mono (Int.tdiv_le_tdiv (by norm_num) hbid) _,
    widenAsk_mono (Int.tdiv_le_tdiv (by norm_num) hask) _⟩

/-- The products of an `i64` price and a `u16` spread fit, so only the sides can refuse. -/
theorem computeEffective_of_range (hprice : 0 < price) (hlt : price < 2 ^ 63)
    (hspread : spread < 2 ^ 16)
    (hbid : bid = widenBid ((price * (20000 - spread)).tdiv 20000) bestBid)
    (hask : ask = widenAsk ((price * (20000 + spread)).tdiv 20000) bestAsk)
    (hpos : 0 < bid) (hle : bid ≤ ask) (hmax : ask < 2 ^ 63) :
    computeEffectiveBidAskMantissas price bestBid bestAsk spread = some (bid, ask) := by
  have hraised : checkedInt 128 (price * (20000 + spread)) = some (price * (20000 + spread)) := by
    refine checkedInt_eq_some.mpr ⟨⟨?_, ?_⟩, rfl⟩
    · have hnonneg : 0 ≤ price * (20000 + spread) := by positivity
      omega
    · have hle : price * (20000 + spread) ≤ 2 ^ 63 * (20000 + 2 ^ 16) := by gcongr; omega
      omega
  have hlowered : checkedInt 128 (price * (20000 - spread)) = some (price * (20000 - spread)) := by
    refine checkedInt_eq_some.mpr ⟨⟨?_, ?_⟩, rfl⟩
    · have hge : price * (-2 ^ 16) ≤ price * (20000 - spread) := by gcongr; omega
      omega
    · have hle : price * (20000 - spread) ≤ price * 20000 := by gcongr; omega
      omega
  unfold computeEffectiveBidAskMantissas
  rw [if_neg (by omega)]
  simp only [hraised, hlowered, bind, Option.bind_some, ← hbid, ← hask]
  rw [if_neg (by omega), if_neg (by omega)]

end

end NomadAmm.Client
