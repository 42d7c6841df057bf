import NomadAmm.Client.OracleMath

/-! The minimum spread as a floor. A quote lies around its price, its bid never above the
exact floor of the bid. Its ask is below the exact floor of the ask, by less than a unit,
wherever that floor is not a whole mantissa and no published ask reaches it: the division
truncates on both sides, which widens the quote on one of them only. -/

namespace NomadAmm.Soundness.SpreadFloor

open Lib.Truncation Client

variable {price bid ask : Int} {bestBid bestAsk : Option Int} {spread : Nat}

/-! ## A quote around its price -/

theorem bidFloor_le (hprice : 0 < price) (spread : Nat) :
    (price * (20000 - spread)).tdiv 20000 ≤ price := by
  have hle : price * (20000 - spread) ≤ price * 20000 :=
    Int.mul_le_mul_of_nonneg_left (by omega) hprice.le
  calc (price * (20000 - spread)).tdiv 20000 ≤ (price * 20000).tdiv 20000 :=
        Int.tdiv_le_tdiv (by norm_num) hle
    _ = price := Int.mul_tdiv_cancel _ (by norm_num)

theorem le_askFloor (hprice : 0 < price) (spread : Nat) :
    price ≤ (price * (20000 + spread)).tdiv 20000 := by
  have hle : price * 20000 ≤ price * (20000 + spread) :=
    Int.mul_le_mul_of_nonneg_left (by omega) hprice.le
  calc price = (price * 20000).tdiv 20000 := (Int.mul_tdiv_cancel _ (by norm_num)).symm
    _ ≤ (price * (20000 + spread)).tdiv 20000 := Int.tdiv_le_tdiv (by norm_num) hle

theorem quote_around_price
    (h : computeEffectiveBidAskMantissas price bestBid bestAsk spread = some (bid, ask)) :
    bid ≤ price ∧ price ≤ ask ∧ 0 < bid ∧ bid ≤ ask := by
  obtain ⟨hprice, rfl, rfl, hpos, hle, -⟩ := computeEffective_spec h
  exact ⟨(widenBid_le _ _).trans (bidFloor_le hprice spread),
    (le_askFloor hprice spread).trans (le_widenAsk _ _), hpos, hle⟩

/-! ## The floor on each side -/

/-- No quote is inside the minimum spread or inside a published side. -/
def HoldsFloor (price : Int) (bestBid bestAsk : Option Int) (spread : Nat) : Prop :=
  ∀ bid ask, computeEffectiveBidAskMantissas price bestBid bestAsk spread = some (bid, ask) →
    bid * 20000 ≤ price * (20000 - spread) ∧ price * (20000 + spread) ≤ ask * 20000 ∧
      (∀ b, bestBid = some b → 0 < b → bid ≤ b) ∧ ∀ a, bestAsk = some a → 0 < a → a ≤ ask

/-- The bid is cut off downward, and a bid of at least one leaves no sign to lose. -/
theorem bid_mul_le
    (h : computeEffectiveBidAskMantissas price bestBid bestAsk spread = some (bid, ask)) :
    bid * 20000 ≤ price * (20000 - spread) := by
  obtain ⟨-, rfl, -, hpos, -, -⟩ := computeEffective_spec h
  have hle := widenBid_le ((price * (20000 - spread)).tdiv 20000) bestBid
  rcases le_or_gt 0 (price * (20000 - spread)) with hexact | hexact
  · obtain ⟨hfloor, -⟩ := tdiv_bounds hexact (show (0 : Int) < 20000 by norm_num)
    omega
  · have hneg := Int.tdiv_nonneg (show 0 ≤ -(price * (20000 - spread)) by omega)
      (show (0 : Int) ≤ 20000 by norm_num)
    rw [Int.neg_tdiv] at hneg
    omega

/-- The ask is short of its exact floor by less than a unit. -/
theorem lt_ask_add_one_mul
    (h : computeEffectiveBidAskMantissas price bestBid bestAsk spread = some (bid, ask)) :
    price * (20000 + spread) < (ask + 1) * 20000 := by
  obtain ⟨hprice, -, rfl, -, -, -⟩ := computeEffective_spec h
  obtain ⟨-, hlt⟩ := tdiv_bounds (show 0 ≤ price * (20000 + spread) by positivity)
    (show (0 : Int) < 20000 by norm_num)
  have hle := le_widenAsk ((price * (20000 + spread)).tdiv 20000) bestAsk
  omega

/-- Neither side is inside the market. -/
theorem outside_market
    (h : computeEffectiveBidAskMantissas price bestBid bestAsk spread = some (bid, ask)) :
    (∀ b, bestBid = some b → 0 < b → bid ≤ b) ∧ ∀ a, bestAsk = some a → 0 < a → a ≤ ask := by
  obtain ⟨-, rfl, rfl, -, -, -⟩ := computeEffective_spec h
  constructor
  · rintro b rfl hb
    exact widenBid_le_best hb
  · rintro a rfl ha
    exact best_le_widenAsk ha

theorem holdsFloor_iff_ask :
    HoldsFloor price bestBid bestAsk spread ↔
      ∀ bid ask, computeEffectiveBidAskMantissas price bestBid bestAsk spread = some (bid, ask) →
        price * (20000 + spread) ≤ ask * 20000 := by
  constructor
  · intro hfloor bid ask h
    exact (hfloor bid ask h).2.1
  · intro hask bid ask h
    exact ⟨bid_mul_le h, hask bid ask h, outside_market h⟩

/-- **When the spread is a floor.** The quote holds it exactly where the floor of the ask is a
whole mantissa, a published ask reaches that floor, or there is no quote: the bid is below
one mantissa or the ask is out of range. -/
theorem holdsFloor_iff (hprice : 0 < price) (hlt : price < 2 ^ 63) (hspread : spread < 2 ^ 16) :
    HoldsFloor price bestBid bestAsk spread ↔
      20000 ∣ price * (20000 + spread) ∨
      (∃ a, bestAsk = some a ∧ price * (20000 + spread) ≤ a * 20000) ∨
      price * (20000 - spread) < 20000 ∨ 2 ^ 63 * 20000 ≤ price * (20000 + spread) := by
  rw [holdsFloor_iff_ask]
  constructor
  · intro hask
    by_contra hnot
    rw [not_or, not_or, not_or] at hnot
    obtain ⟨hwhole, hmarket, hbid, hrange⟩ := hnot
    -- away from the four cases there is a quote, and its ask is the truncated floor
    have hexact : 0 ≤ price * (20000 + spread) := by positivity
    obtain ⟨hfloor, hnext⟩ := tdiv_bounds hexact (show (0 : Int) < 20000 by norm_num)
    obtain ⟨-, hbidNext⟩ := tdiv_bounds (show 0 ≤ price * (20000 - spread) by omega)
      (show (0 : Int) < 20000 by norm_num)
    have hpos : 0 < (price * (20000 - spread)).tdiv 20000 := by omega
    have hwiden : widenAsk ((price * (20000 + spread)).tdiv 20000) bestAsk =
        (price * (20000 + spread)).tdiv 20000 := by
      refine widenAsk_eq_floor ?_
      intro a ha
      have hshort : ¬ price * (20000 + spread) ≤ a * 20000 := fun hle => hmarket ⟨a, ha, hle⟩
      omega
    have hle := (widenBid_le _ bestBid).trans
      ((bidFloor_le hprice spread).trans (le_askFloor hprice spread))
    have hquote := computeEffective_of_range hprice hlt hspread rfl hwiden.symm
      (widenBid_pos hpos bestBid) hle (by omega)
    have hreached := hask _ _ hquote
    exact hwhole ⟨(price * (20000 + spread)).tdiv 20000, by omega⟩
  · intro hcases bid ask h
    have hnext := lt_ask_add_one_mul h
    obtain ⟨-, -, -, hpos, -, hmax⟩ := computeEffective_spec h
    rcases hcases with hwhole | ⟨a, ha, hle⟩ | hbid | hrange
    · obtain ⟨k, hk⟩ := hwhole
      omega
    · have hexact : 0 < price * (20000 + spread) := by positivity
      have hmarket := (outside_market h).2 a ha (by omega)
      omega
    · have hle := bid_mul_le h
      omega
    · omega

/-- A unit above the price of the tests: the ask stops 40/20000 of a mantissa short. -/
theorem holdsFloor_fails : ¬ HoldsFloor 16000000001 none none 40 := by
  intro hfloor
  have hshort := (hfloor 15968000000 16032000001 (by decide)).2.1
  norm_num at hshort

theorem holdsFloor_iff_sol : HoldsFloor 16000000000 none (some 16001000000) 40 :=
  (holdsFloor_iff (by norm_num) (by norm_num) (by norm_num)).mpr (.inl (by decide))

end NomadAmm.Soundness.SpreadFloor
