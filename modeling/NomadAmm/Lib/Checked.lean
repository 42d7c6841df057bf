import Mathlib.Algebra.Ring.Int.Defs
import Mathlib.Algebra.Ring.Nat
import Mathlib.Tactic.Common

/-! Fixed-width unsigned arithmetic on `Nat`. The width is a parameter in bits;
a result that does not fit is `none`, as Rust's `checked_*` operations have it.
Each operation comes with the one equation later proofs use. -/

namespace NomadAmm.Lib.Checked

def checkedAdd (w a b : Nat) : Option Nat := if a + b < 2 ^ w then some (a + b) else none

def checkedSub (a b : Nat) : Option Nat := if b ≤ a then some (a - b) else none

def checkedMul (w a b : Nat) : Option Nat := if a * b < 2 ^ w then some (a * b) else none

def checkedDiv (a b : Nat) : Option Nat := if b = 0 then none else some (a / b)

def checkedRem (a b : Nat) : Option Nat := if b = 0 then none else some (a % b)

def checkedPow (w b e : Nat) : Option Nat := if b ^ e < 2 ^ w then some (b ^ e) else none

/-- Results that do not fit are the largest that does. -/
def saturatingAdd (w a b : Nat) : Nat := min (a + b) (2 ^ w - 1)

def saturatingMul (w a b : Nat) : Nat := min (a * b) (2 ^ w - 1)

/-- A conversion to a narrower width that refuses what does not fit. -/
def tryFrom (w a : Nat) : Option Nat := if a < 2 ^ w then some a else none

/-- A signed result of `w` bits, or `none`. -/
def checkedInt (w : Nat) (a : Int) : Option Int :=
  if -2 ^ (w - 1) ≤ a ∧ a < 2 ^ (w - 1) then some a else none

variable {w a b c : Nat}

@[simp] theorem checkedAdd_eq_some : checkedAdd w a b = some c ↔ a + b < 2 ^ w ∧ a + b = c := by
  simp [checkedAdd]

@[simp] theorem checkedSub_eq_some : checkedSub a b = some c ↔ b ≤ a ∧ a - b = c := by
  simp [checkedSub]

@[simp] theorem checkedMul_eq_some : checkedMul w a b = some c ↔ a * b < 2 ^ w ∧ a * b = c := by
  simp [checkedMul]

@[simp] theorem zero_saturatingMul (w b : Nat) : saturatingMul w 0 b = 0 := by
  simp [saturatingMul]

@[simp] theorem checkedDiv_eq_some : checkedDiv a b = some c ↔ b ≠ 0 ∧ a / b = c := by
  simp [checkedDiv]

@[simp] theorem checkedRem_eq_some : checkedRem a b = some c ↔ b ≠ 0 ∧ a % b = c := by
  simp [checkedRem]

@[simp] theorem checkedPow_eq_some : checkedPow w a b = some c ↔ a ^ b < 2 ^ w ∧ a ^ b = c := by
  simp [checkedPow]

@[simp] theorem tryFrom_eq_some : tryFrom w a = some b ↔ a < 2 ^ w ∧ a = b := by
  simp [tryFrom]

@[simp] theorem checkedInt_eq_some {a b : Int} :
    checkedInt w a = some b ↔ (-2 ^ (w - 1) ≤ a ∧ a < 2 ^ (w - 1)) ∧ a = b := by
  simp [checkedInt]

end NomadAmm.Lib.Checked
