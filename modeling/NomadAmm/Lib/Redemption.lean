import NomadAmm.Lib.Rounding

/-! Shares of one reserve. What a number of shares is redeemed for depends on the reserve
and the shares by their quotient alone, so it never falls where a share loses nothing, and
buying rounded up costs at most one unit more than what is got back. -/

namespace NomadAmm.Lib.Redemption

open Lib.Rounding

variable {r r' r'' s s' s'' k : Nat}

/-- What `k` of `s` shares of a reserve `r` are redeemed for. -/
def redeem (k r s : Nat) : Nat := k * r / s

/-- A share of `r` in `s` is worth no more than one of `r'` in `s'`. -/
def WorthLe (r s r' s' : Nat) : Prop := r * s' ≤ r' * s

theorem WorthLe.refl (r s : Nat) : WorthLe r s r s := Nat.le_refl _

theorem WorthLe.trans (hs : 0 < s') (h : WorthLe r s r' s') (h' : WorthLe r' s' r'' s'') :
    WorthLe r s r'' s'' := by
  refine Nat.le_of_mul_le_mul_right ?_ hs
  calc r * s'' * s' = r * s' * s'' := by ring
    _ ≤ r' * s * s'' := Nat.mul_le_mul_right _ h
    _ = r' * s'' * s := by ring
    _ ≤ r'' * s' * s := Nat.mul_le_mul_right _ h'
    _ = r'' * s * s' := by ring

theorem WorthLe.of_gift (h : r ≤ r') : WorthLe r s r' s := Nat.mul_le_mul_right _ h

/-- **Shares that are worth more are redeemed for more.** -/
theorem redeem_mono (hs : 0 < s) (hs' : 0 < s') (h : WorthLe r s r' s') (k : Nat) :
    redeem k r s ≤ redeem k r' s' := by
  unfold redeem
  rw [Nat.le_div_iff_mul_le hs']
  refine Nat.le_of_mul_le_mul_right ?_ hs
  calc k * r / s * s' * s = k * r / s * s * s' := by ring
    _ ≤ k * r * s' := Nat.mul_le_mul_right _ (Nat.div_mul_le_self _ _)
    _ = k * (r * s') := by ring
    _ ≤ k * (r' * s) := Nat.mul_le_mul_left _ h
    _ = k * r' * s := by ring

theorem redeem_le (hk : k ≤ s) : redeem k r s ≤ r := by
  refine Nat.div_le_of_le_mul ?_
  exact Nat.mul_le_mul_right _ hk

/-- **Bought and sold at once**: no gain, and a loss of at most one unit. -/
theorem redeem_joined (hs : 0 < s) :
    redeem k (r + ceilDiv (k * r) s) (s + k) ≤ ceilDiv (k * r) s ∧
      ceilDiv (k * r) s ≤ redeem k (r + ceilDiv (k * r) s) (s + k) + 1 := by
  have hle : k * r ≤ ceilDiv (k * r) s * s := le_ceilDiv_mul _ hs
  have hlt : ceilDiv (k * r) s * s < k * r + s := by
    by_contra hge
    have hsmall : ceilDiv (k * r) s ≤ ceilDiv (k * r) s - 1 := by
      refine (ceilDiv_le_iff hs).mpr ?_
      rw [Nat.sub_mul]
      omega
    have hzero : ceilDiv (k * r) s = 0 := by omega
    rw [hzero] at hge
    omega
  generalize ceilDiv (k * r) s = c at hle hlt ⊢
  unfold redeem
  constructor
  · refine Nat.div_le_of_le_mul ?_
    calc k * (r + c) = k * r + c * k := by ring
      _ ≤ c * s + c * k := Nat.add_le_add_right hle _
      _ = (s + k) * c := by ring
  · rcases Nat.eq_zero_or_pos c with rfl | hc
    · exact Nat.zero_le _
    · obtain ⟨n, rfl⟩ : ∃ n, c = n + 1 := ⟨c - 1, by omega⟩
      refine Nat.succ_le_succ ((Nat.le_div_iff_mul_le (by omega)).mpr ?_)
      have hn : n * s ≤ k * r := by
        rw [Nat.add_mul, Nat.one_mul] at hlt
        omega
      calc n * (s + k) = n * s + k * n := by ring
        _ ≤ k * r + k * (n + 1) := Nat.add_le_add hn (Nat.mul_le_mul_left _ (Nat.le_succ n))
        _ = k * (r + (n + 1)) := by ring

end NomadAmm.Lib.Redemption
