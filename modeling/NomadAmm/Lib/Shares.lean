import Mathlib.Algebra.Order.Field.Basic
import Mathlib.Tactic.Positivity
import Mathlib.Tactic.FieldSimp
import NomadAmm.Lib.Rounding

/-! Two reserves owned by shares. Shares are bought at the reserves rounded up and
redeemed at the reserves rounded down, so neither takes value from the shares that
stay; a trade takes none when its price does not. The statements are about any
weighting of the two reserves in an ordered field. -/

namespace NomadAmm.Lib.Shares

open Lib.Rounding

structure Book where
  x : Nat
  y : Nat
  shares : Nat
  deriving DecidableEq, Repr

namespace Book

/-- Nothing is empty. -/
structure Positive (b : Book) : Prop where
  x : 1 ≤ b.x
  y : 1 ≤ b.y
  shares : 1 ≤ b.shares

/-- What can happen to a book. `sellX a o` and `sellY a o` say at which terms `a`
of one side is traded for `o` of the other. Every constructor is a bound rather
than an equation: the book may always end up with more. -/
inductive Step (sellX sellY : Nat → Nat → Prop) (b b' : Book) : Prop
  | tradeX (a o : Nat) (terms : sellX a o) (left : o < b.y) (hx : b.x + a ≤ b'.x)
      (hy : b.y ≤ b'.y + o) (hs : b'.shares = b.shares)
  | tradeY (a o : Nat) (terms : sellY a o) (left : o < b.x) (hy : b.y + a ≤ b'.y)
      (hx : b.x ≤ b'.x + o) (hs : b'.shares = b.shares)
  | join (k : Nat) (hx : b.x + ceilDiv (k * b.x) b.shares ≤ b'.x)
      (hy : b.y + ceilDiv (k * b.y) b.shares ≤ b'.y) (hs : b'.shares = b.shares + k)
  | leave (k : Nat) (left : k < b.shares) (hx : b.x ≤ b'.x + k * b.x / b.shares)
      (hy : b.y ≤ b'.y + k * b.y / b.shares) (hs : b'.shares + k = b.shares)
  | gift (hx : b.x ≤ b'.x) (hy : b.y ≤ b'.y) (hs : b'.shares = b.shares)

variable {sellX sellY : Nat → Nat → Prop} {b b' : Book}

/-- Redeeming some but not all shares leaves something of every reserve. -/
theorem share_lt {k r s : Nat} (hr : 1 ≤ r) (hk : k < s) : k * r / s < r := by
  rw [Nat.div_lt_iff_lt_mul (by omega), Nat.mul_comm r s]
  exact Nat.mul_lt_mul_of_pos_right hk (by omega)

section Value

variable {K : Type} [Field K] [LinearOrder K] [IsStrictOrderedRing K]

/-- The reserves at weights `p` and `q`. -/
def value (p q : K) (b : Book) : K := b.x * p + b.y * q

/-- One share of `b` is worth no more than one of `b'`, by cross-multiplication. -/
def WorthLe (p q : K) (b b' : Book) : Prop :=
  b.value p q * b'.shares ≤ b'.value p q * b.shares

theorem WorthLe.trans {p q : K} {a b c : Book} (hb : b.Positive) (hab : WorthLe p q a b)
    (hbc : WorthLe p q b c) : WorthLe p q a c := by
  have hpos : (0 : K) < b.shares := by exact_mod_cast hb.shares
  have ha : (0 : K) ≤ a.shares := Nat.cast_nonneg _
  have hc : (0 : K) ≤ c.shares := Nat.cast_nonneg _
  unfold WorthLe at hab hbc ⊢
  refine le_of_mul_le_mul_right ?_ hpos
  calc a.value p q * c.shares * b.shares = a.value p q * b.shares * c.shares := by ring
    _ ≤ b.value p q * a.shares * c.shares := mul_le_mul_of_nonneg_right hab hc
    _ = b.value p q * c.shares * a.shares := by ring
    _ ≤ c.value p q * b.shares * a.shares := mul_le_mul_of_nonneg_right hbc ha
    _ = c.value p q * a.shares * b.shares := by ring

variable {p q : K}

/-- With the shares unchanged, more value is worth more. -/
theorem WorthLe.of_value (hs : b'.shares = b.shares) (h : b.value p q ≤ b'.value p q) :
    WorthLe p q b b' := by
  unfold WorthLe
  rw [hs]
  exact mul_le_mul_of_nonneg_right h (Nat.cast_nonneg _)

/-- Weighted bounds per reserve, put together. -/
theorem WorthLe.of_reserves (hp : 0 ≤ p) (hq : 0 ≤ q) (hx : b.x * b'.shares ≤ b'.x * b.shares)
    (hy : b.y * b'.shares ≤ b'.y * b.shares) : WorthLe p q b b' := by
  have hx' : (b.x : K) * b'.shares ≤ b'.x * b.shares := by exact_mod_cast hx
  have hy' : (b.y : K) * b'.shares ≤ b'.y * b.shares := by exact_mod_cast hy
  unfold WorthLe value
  calc ((b.x : K) * p + b.y * q) * b'.shares
      = b.x * b'.shares * p + b.y * b'.shares * q := by ring
    _ ≤ b'.x * b.shares * p + b'.y * b.shares * q :=
        add_le_add (mul_le_mul_of_nonneg_right hx' hp) (mul_le_mul_of_nonneg_right hy' hq)
    _ = (b'.x * p + b'.y * q) * b.shares := by ring

theorem join_reserve {r r' k s : Nat} (hs : 1 ≤ s) (h : r + ceilDiv (k * r) s ≤ r') :
    r * (s + k) ≤ r' * s := by
  have hceil := le_ceilDiv_mul (k * r) (d := s) hs
  calc r * (s + k) = r * s + k * r := by ring
    _ ≤ r * s + ceilDiv (k * r) s * s := Nat.add_le_add_left hceil _
    _ = (r + ceilDiv (k * r) s) * s := by ring
    _ ≤ r' * s := Nat.mul_le_mul_right _ h

theorem leave_reserve {r r' k s s' : Nat} (hs : s' + k = s) (h : r ≤ r' + k * r / s) :
    r * s' ≤ r' * s := by
  have hfloor := Nat.div_mul_le_self (k * r) s
  have hmul : r * s ≤ r' * s + k * r / s * s := by
    calc r * s ≤ (r' + k * r / s) * s := Nat.mul_le_mul_right _ h
      _ = r' * s + k * r / s * s := Nat.add_mul _ _ _
  have hsplit : r * s = r * s' + k * r := by rw [← hs]; ring
  omega

/-- **No step takes value from a share**, at weights at which no trade gains. -/
theorem Step.worthLe (hp : 0 ≤ p) (hq : 0 ≤ q)
    (hX : ∀ a o : Nat, sellX a o → (o : K) * q ≤ a * p)
    (hY : ∀ a o : Nat, sellY a o → (o : K) * p ≤ a * q)
    (hb : b.Positive) (h : Step sellX sellY b b') : WorthLe p q b b' := by
  cases h with
  | tradeX a o terms left hx hy hs =>
    have hin : ((b.x : K) + a) * p ≤ b'.x * p :=
      mul_le_mul_of_nonneg_right (by exact_mod_cast hx) hp
    have hout : (b.y : K) * q ≤ (b'.y + o) * q :=
      mul_le_mul_of_nonneg_right (by exact_mod_cast hy) hq
    have hterms := hX a o terms
    refine WorthLe.of_value hs ?_
    unfold value
    linarith
  | tradeY a o terms left hy hx hs =>
    have hin : ((b.y : K) + a) * q ≤ b'.y * q :=
      mul_le_mul_of_nonneg_right (by exact_mod_cast hy) hq
    have hout : (b.x : K) * p ≤ (b'.x + o) * p :=
      mul_le_mul_of_nonneg_right (by exact_mod_cast hx) hp
    have hterms := hY a o terms
    refine WorthLe.of_value hs ?_
    unfold value
    linarith
  | join k hx hy hs =>
    refine WorthLe.of_reserves hp hq ?_ ?_
    · rw [hs]; exact join_reserve hb.shares hx
    · rw [hs]; exact join_reserve hb.shares hy
  | leave k left hx hy hs =>
    exact WorthLe.of_reserves hp hq (leave_reserve hs hx) (leave_reserve hs hy)
  | gift hx hy hs =>
    refine WorthLe.of_reserves hp hq ?_ ?_
    · rw [hs]; exact Nat.mul_le_mul_right _ hx
    · rw [hs]; exact Nat.mul_le_mul_right _ hy

end Value

end Book

end NomadAmm.Lib.Shares
