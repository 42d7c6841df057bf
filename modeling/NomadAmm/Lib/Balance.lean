import Mathlib.Algebra.BigOperators.Group.Finset.Basic
import Mathlib.Algebra.Order.Group.Nat

/-! Amounts at places, of which finitely many change. What the changes come to is a sum
over any finite set that contains them. -/

namespace NomadAmm.Lib.Balance

open Finset

variable {ι M : Type} [AddCancelCommMonoid M] {f g k : ι → M} {a b c d : M}

/-- `g` is `f` with `down` taken and `up` added at finitely many places. -/
def Shifted (f g : ι → M) (down up : M) : Prop :=
  ∃ T : Finset ι, (∀ i ∉ T, g i = f i) ∧ ∑ i ∈ T, g i + down = ∑ i ∈ T, f i + up

theorem Shifted.refl (f : ι → M) (a : M) : Shifted f f a a := ⟨∅, fun _ _ => rfl, rfl⟩

/-- Only the difference counts. -/
theorem Shifted.congr (h : Shifted f g a b) (hab : a + d = c + b) : Shifted f g c d := by
  obtain ⟨T, hT, hsum⟩ := h
  refine ⟨T, hT, ?_⟩
  have hsame : ∑ i ∈ T, g i + c + b = ∑ i ∈ T, f i + d + b := by
    calc ∑ i ∈ T, g i + c + b
        = ∑ i ∈ T, g i + a + d := by rw [add_assoc, ← hab, add_assoc]
      _ = ∑ i ∈ T, f i + d + b := by rw [hsum, add_right_comm]
  exact add_right_cancel hsame

variable [DecidableEq ι]

theorem sum_superset {T U : Finset ι} (hsub : T ⊆ U) (hout : ∀ i ∉ T, g i = f i) :
    ∑ i ∈ T, g i + a = ∑ i ∈ T, f i + b ↔ ∑ i ∈ U, g i + a = ∑ i ∈ U, f i + b := by
  have hrest : ∑ i ∈ U \ T, g i = ∑ i ∈ U \ T, f i :=
    sum_congr rfl fun i hi => hout i (mem_sdiff.mp hi).2
  rw [← sum_sdiff hsub, ← sum_sdiff hsub, hrest, add_assoc, add_assoc, add_right_inj]

theorem Shifted.update (f : ι → M) (i : ι) (v : M) :
    Shifted f (Function.update f i v) (f i) v := by
  refine ⟨{i}, ?_, ?_⟩
  · intro j hj
    exact Function.update_of_ne (by simpa using hj) _ _
  · rw [sum_singleton, sum_singleton, Function.update_self, add_comm]

theorem Shifted.trans (h : Shifted f g a b) (h' : Shifted g k c d) :
    Shifted f k (a + c) (b + d) := by
  obtain ⟨T, hT, hsum⟩ := h
  obtain ⟨U, hU, hsum'⟩ := h'
  refine ⟨T ∪ U, ?_, ?_⟩
  · intro i hi
    rw [mem_union, not_or] at hi
    rw [hU i hi.2, hT i hi.1]
  · have hsubT : T ⊆ T ∪ U := subset_union_left
    have hsubU : U ⊆ T ∪ U := subset_union_right
    have hleft := (sum_superset hsubT hT).mp hsum
    have hright := (sum_superset hsubU hU).mp hsum'
    calc ∑ i ∈ T ∪ U, k i + (a + c)
        = ∑ i ∈ T ∪ U, k i + c + a := by rw [add_comm a, add_assoc]
      _ = ∑ i ∈ T ∪ U, g i + a + d := by rw [hright, add_right_comm]
      _ = ∑ i ∈ T ∪ U, f i + (b + d) := by rw [hleft, add_assoc]

end NomadAmm.Lib.Balance
