import NomadAmm.Lib.Rounding

/-! A proportional fee with a cap, and the amount that still leaves a given one after it.
The fee rounds up and the inverse rounds up too; up to the cap they are the two ends of a
Galois connection, and beyond it the fee is the cap, so charging what the inverse asks for
takes exactly the difference. -/

namespace NomadAmm.Lib.CappedFee

open Lib.Rounding

variable {D r M s a : Nat}

/-- A fee of `r` in `D` on `a`, rounded up and at most `M`. -/
def cappedFee (D r M a : Nat) : Nat :=
  if r = 0 ∨ a = 0 then 0 else min (ceilDiv (a * r) D) M

/-- What to pay so that `s` is left after the fee. At the full rate only the cap leaves
anything. -/
def preFee (D r M s : Nat) : Nat :=
  if r = 0 then s
  else if s = 0 then 0
  else if r = D then s + M
  else if M ≤ grossUp D r s - s then s + M
  else grossUp D r s

/-- The fee of the inverse in closed form. -/
def inverseFee (D r M s : Nat) : Nat := if r = D then M else min (grossUp D r s - s) M

theorem cappedFee_eq (hD : 0 < D) (r M a : Nat) :
    cappedFee D r M a = min (ceilDiv (a * r) D) M := by
  unfold cappedFee
  split
  · next h =>
    have hzero : ceilDiv 0 D = 0 := Nat.le_zero.mp ((ceilDiv_le_iff hD).mpr (Nat.zero_le _))
    rw [Nat.mul_eq_zero.mpr h.symm, hzero, Nat.zero_min]
  · rfl

theorem cappedFee_le (hr : r ≤ D) (hD : 0 < D) (M a : Nat) : cappedFee D r M a ≤ a := by
  rw [cappedFee_eq hD]
  exact (Nat.min_le_left _ _).trans (fee_le hD hr a)

theorem cappedFee_full (hD : 0 < D) (M a : Nat) : cappedFee D D M a = min a M := by
  have hcancel : ceilDiv (a * D) D = a := by
    apply le_antisymm
    · exact (ceilDiv_le_iff hD).mpr le_rfl
    · exact Nat.le_of_mul_le_mul_right (le_ceilDiv_mul (a * D) hD) hD
  rw [cappedFee_eq hD, hcancel]

theorem le_grossUp (hr : r < D) (s : Nat) : s ≤ grossUp D r s := by
  have h := lessFee_le D r (grossUp D r s)
  rwa [lessFee_grossUp hr] at h

theorem lessFee_mono (D r : Nat) {b : Nat} (h : a ≤ b) : lessFee D r a ≤ lessFee D r b :=
  Nat.div_le_div_right (Nat.mul_le_mul_right _ h)

/-- The fee of an inverse, below the full rate. -/
theorem cappedFee_preFee_of_lt (hr : r < D) (M : Nat) (hs : 0 < s) :
    cappedFee D r M (preFee D r M s) = min (grossUp D r s - s) M ∧
      preFee D r M s = s + min (grossUp D r s - s) M := by
  have hD : 0 < D := by omega
  have hge := le_grossUp hr s
  rw [cappedFee_eq hD]
  unfold preFee
  by_cases hzero : r = 0
  · subst hzero
    have hsame : grossUp D 0 s = s := grossUp_zero hD s
    have hfee : ceilDiv (s * 0) D = 0 := Nat.le_zero.mp ((ceilDiv_le_iff hD).mpr (Nat.zero_le _))
    rw [if_pos rfl, hsame, hfee]
    omega
  · rw [if_neg hzero, if_neg (by omega), if_neg (by omega)]
    by_cases hcap : M ≤ grossUp D r s - s
    · -- the remainder of the capped payment is at most what the whole inverse leaves
      rw [if_pos hcap]
      have hkept := sub_fee_eq_lessFee hD hr.le (s + M)
      have hleft : lessFee D r (s + M) ≤ s := by
        calc lessFee D r (s + M) ≤ lessFee D r (grossUp D r s) := lessFee_mono D r (by omega)
          _ = s := lessFee_grossUp hr s
      omega
    · rw [if_neg hcap]
      have hkept := sub_fee_eq_lessFee hD hr.le (grossUp D r s)
      have hle := fee_le hD hr.le (grossUp D r s)
      rw [lessFee_grossUp hr] at hkept
      omega

theorem cappedFee_preFee_full (hD : 0 < D) (M : Nat) (hs : 0 < s) :
    cappedFee D D M (preFee D D M s) = M ∧ preFee D D M s = s + M := by
  have hpre : preFee D D M s = s + M := by
    rw [preFee, if_neg (by omega), if_neg (by omega), if_pos rfl]
  rw [hpre, cappedFee_full hD]
  omega

/-- Nothing leaves nothing, and takes no fee. -/
theorem cappedFee_preFee_zero (hr : r < D) (M : Nat) :
    cappedFee D r M (preFee D r M 0) = inverseFee D r M 0 ∧ preFee D r M 0 = 0 := by
  have hpre : preFee D r M 0 = 0 := by
    unfold preFee
    rw [if_pos rfl, ite_self]
  have hgross : grossUp D r 0 = 0 := by
    rw [grossUp, Nat.zero_mul]
    exact Nat.le_zero.mp ((ceilDiv_le_iff (by omega)).mpr (Nat.zero_le _))
  rw [hpre, inverseFee, if_neg hr.ne, hgross]
  exact ⟨(if_pos (.inr rfl)).trans (Nat.zero_min _).symm, rfl⟩

/-- Below the full rate the closed form is exact on every amount. -/
theorem cappedFee_preFee_lt (hr : r < D) (M s : Nat) :
    cappedFee D r M (preFee D r M s) = inverseFee D r M s ∧
      preFee D r M s = s + inverseFee D r M s := by
  rcases Nat.eq_zero_or_pos s with rfl | hs
  · obtain ⟨hfee, hpre⟩ := cappedFee_preFee_zero hr M
    have hle := cappedFee_le hr.le (by omega) M (preFee D r M 0)
    exact ⟨hfee, by omega⟩
  · rw [inverseFee, if_neg hr.ne]
    exact cappedFee_preFee_of_lt hr M hs

/-- **A capped fee is inverted exactly.** -/
theorem add_cappedFee_preFee (hr : r ≤ D) (hD : 0 < D) (M : Nat) (hs : 0 < s) :
    s + cappedFee D r M (preFee D r M s) = preFee D r M s := by
  rcases hr.lt_or_eq with hlt | rfl
  · obtain ⟨hfee, hpre⟩ := cappedFee_preFee_of_lt hlt M hs
    rw [hfee, hpre]
  · obtain ⟨hfee, hpre⟩ := cappedFee_preFee_full hD M hs
    rw [hfee, hpre]

/-- **Who pays more keeps more.** -/
theorem sub_cappedFee_mono (hr : r ≤ D) (hD : 0 < D) (M : Nat) {b : Nat} (h : a ≤ b) :
    a - cappedFee D r M a ≤ b - cappedFee D r M b := by
  have hkept : lessFee D r a ≤ lessFee D r b := lessFee_mono D r h
  rw [← sub_fee_eq_lessFee hD hr, ← sub_fee_eq_lessFee hD hr] at hkept
  rw [cappedFee_eq hD, cappedFee_eq hD]
  omega

/-! ## When two fees are the same

A fee is known by the numbers it reaches: below its cap, those its rate reaches. -/

/-- A rate of `r` in `D` takes at least `n` of `a`. -/
def Reaches (D r a n : Nat) : Prop := n * D < a * r + D

/-- Grossing `s` up at a rate of `r` in `D` adds at least `n`. The full rate adds without
end. -/
def InverseReaches (D r s n : Nat) : Prop := r = D ∨ n * (D - r) < s * r + (D - r)

instance (D r a n : Nat) : Decidable (Reaches D r a n) := inferInstanceAs (Decidable (_ < _))

instance (D r s n : Nat) : Decidable (InverseReaches D r s n) :=
  inferInstanceAs (Decidable (_ ∨ _))

theorem le_cappedFee_iff (hD : 0 < D) (r M a n : Nat) :
    n ≤ cappedFee D r M a ↔ n ≤ M ∧ Reaches D r a n := by
  rw [cappedFee_eq hD, le_min_iff, and_comm, Reaches]
  refine and_congr_right fun _ => ?_
  cases n with
  | zero => simp only [Nat.zero_le, Nat.zero_mul, true_iff]; omega
  | succ k =>
    have hle := @ceilDiv_le_iff (a * r) D k hD
    rw [Nat.succ_mul, Nat.add_lt_add_iff_right]
    omega

theorem le_inverseFee_iff (hr : r ≤ D) (M s n : Nat) :
    n ≤ inverseFee D r M s ↔ n ≤ M ∧ InverseReaches D r s n := by
  unfold inverseFee InverseReaches
  by_cases hfull : r = D
  · simp only [hfull, if_true, true_or, and_true]
  · have hge := le_grossUp (lt_of_le_of_ne hr hfull) s
    simp only [hfull, if_false, false_or, le_min_iff]
    rw [and_comm]
    refine and_congr_right fun _ => ?_
    cases n with
    | zero => simp only [Nat.zero_le, Nat.zero_mul, true_iff]; omega
    | succ k =>
      have hle := @ceilDiv_le_iff (s * D) (D - r) (s + k) (by omega)
      have hsplit : s * D = s * (D - r) + s * r := by rw [← Nat.mul_add]; congr 1; omega
      rw [← grossUp, Nat.add_mul, hsplit] at hle
      rw [Nat.succ_mul, Nat.add_lt_add_iff_right]
      omega

/-- What a grossed-up payment fits in. -/
theorem add_inverseFee_lt_iff (hr : r < D) (M s B : Nat) (hB : 0 < B) :
    s + inverseFee D r M s < B ↔ s + M < B ∨ s * D ≤ (B - 1) * (D - r) := by
  have hge := le_grossUp hr s
  have hle := @ceilDiv_le_iff (s * D) (D - r) (B - 1) (by omega)
  rw [← grossUp] at hle
  rw [inverseFee, if_neg hr.ne, ← hle]
  omega

/-- Fees capped at `M` and `N` that reach the same numbers: either both reach the smaller
cap, and the one with the larger cap stops there, or neither does and both stop together. -/
def SameUnder (M N : Nat) (reach reach' : Nat → Prop) : Prop :=
  reach (min M N) ∧ reach' (min M N) ∧ (M ≤ N ∨ ¬reach (N + 1)) ∧ (N ≤ M ∨ ¬reach' (M + 1)) ∨
    ¬reach (min M N) ∧ ¬reach' (min M N) ∧ ∀ n < min M N, reach n ↔ reach' n

theorem eq_iff_sameUnder {M N f g : Nat} {reach reach' : Nat → Prop}
    (hf : ∀ n, n ≤ f ↔ n ≤ M ∧ reach n) (hg : ∀ n, n ≤ g ↔ n ≤ N ∧ reach' n) :
    f = g ↔ SameUnder M N reach reach' := by
  have hfM : f ≤ M := ((hf f).mp le_rfl).1
  have hgN : g ≤ N := ((hg g).mp le_rfl).1
  have hminM : min M N ≤ M := Nat.min_le_left M N
  have hminN : min M N ≤ N := Nat.min_le_right M N
  have hreach : reach (min M N) ↔ min M N ≤ f := by rw [hf, and_iff_right hminM]
  have hreach' : reach' (min M N) ↔ min M N ≤ g := by rw [hg, and_iff_right hminN]
  rw [SameUnder, hreach, hreach']
  constructor
  · intro heq
    rcases Nat.lt_or_ge f (min M N) with hbelow | hat
    · refine .inr ⟨by omega, by omega, ?_⟩
      intro n hn
      have hn' := hf n
      have hn'' := hg n
      rw [and_iff_right (by omega)] at hn' hn''
      rw [← hn', ← hn'', heq]
    · refine .inl ⟨hat, by omega, ?_, ?_⟩
      · rcases Nat.lt_or_ge N M with hlt | hle
        · exact .inr fun h => absurd ((hf (N + 1)).mpr ⟨hlt, h⟩) (by omega)
        · exact .inl hle
      · rcases Nat.lt_or_ge M N with hlt | hle
        · exact .inr fun h => absurd ((hg (M + 1)).mpr ⟨hlt, h⟩) (by omega)
        · exact .inl hle
  · rintro (⟨hat, hat', hstop, hstop'⟩ | ⟨hbelow, hbelow', hsame⟩)
    · have hle : f ≤ N := by
        rcases hstop with hle | hnot
        · omega
        · exact Nat.le_of_not_lt fun hlt => hnot ((hf (N + 1)).mp hlt).2
      have hle' : g ≤ M := by
        rcases hstop' with hle' | hnot
        · omega
        · exact Nat.le_of_not_lt fun hlt => hnot ((hg (M + 1)).mp hlt).2
      omega
    · have hfg : f ≤ g := (hg f).mpr ⟨by omega, (hsame f (by omega)).mp ((hf f).mp le_rfl).2⟩
      have hgf : g ≤ f := (hf g).mpr ⟨by omega, (hsame g (by omega)).mpr ((hg g).mp le_rfl).2⟩
      omega

end NomadAmm.Lib.CappedFee
