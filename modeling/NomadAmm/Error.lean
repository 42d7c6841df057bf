import NomadAmm.Lib.Checked

/-! What a call of the program can end in. A Rust `Option` that cannot panic is
`Option` here; everything else runs in `Exec`, where a `None` travelling through
`?`, a panic, a program error, an anchor check and a failing token instruction
are told apart. -/

namespace NomadAmm

/-- The errors of `error.rs` that the modelled functions raise. -/
inductive ErrorCode
  | notApproved
  | invalidOwner
  | emptySupply
  | invalidInput
  | exceededSlippage
  | zeroTradingTokens
  | invalidVault
  | initLpAmountTooLess
  | transferFeeCalculateNotMatch
  | mathOverflow
  | insufficientVault
  | invalidFeeModel
  | noFeeCollect
  | invalidPythFeedId
  | invalidMinSpreadBps
  | invalidEffectiveSpread
  | invalidInventorySkewParam
  | invalidInventorySkewShift
  | oracleNotInitialized
  | bidNotLessThanAsk
  | invalidDynamicFeeRate
  | invalidOracleKeeper
  deriving DecidableEq, Repr

/-- The anchor checks: `require_*` macros without an error of their own, and
account constraints. -/
inductive AnchorError
  | requireGtViolated
  | requireGteViolated
  | requireEqViolated
  | requireKeysNeqViolated
  | constraintAddress
  | accountNotInitialized
  deriving DecidableEq, Repr

/-- How an instruction of a token program fails. -/
inductive TokenError
  | insufficientFunds
  | overflow
  deriving DecidableEq, Repr

/-- `system` is a transfer of lamports that fails. -/
inductive Fault
  | none
  | panic
  | code (c : ErrorCode)
  | anchor (e : AnchorError)
  | token (e : TokenError)
  | system
  deriving DecidableEq, Repr

abbrev Exec := Except Fault

namespace Exec

/-- The `?` of a function that returns `Option` but may also panic. -/
def orNone {α : Type} : Option α → Exec α
  | some a => .ok a
  | Option.none => .error .none

/-- `unwrap`, and arithmetic under `overflow-checks = true`. -/
def unwrap {α : Type} : Option α → Exec α
  | some a => .ok a
  | Option.none => .error .panic

/-- `ok_or(code)?` on a plain `Option`. -/
def okOr {α : Type} (c : ErrorCode) : Option α → Exec α
  | some a => .ok a
  | Option.none => .error (.code c)

/-- `ok_or(code)?` on an `Option` whose computation may panic. -/
def noneTo {α : Type} (c : ErrorCode) : Exec α → Exec α
  | .error .none => .error (.code c)
  | r => r

/-- `unwrap_or(default)` on an `Option` whose computation may panic. -/
def noneOr {α : Type} (default : α) : Exec α → Exec α
  | .error .none => .ok default
  | r => r

def require (p : Prop) [Decidable p] (f : Fault) : Exec Unit :=
  if p then .ok () else .error f

variable {α β : Type}

@[simp] theorem bind_eq_ok {x : Exec α} {f : α → Exec β} {b : β} :
    (x >>= f) = .ok b ↔ ∃ a, x = .ok a ∧ f a = .ok b := by
  cases x with
  | error e => simp [bind, Except.bind]
  | ok a => simp [bind, Except.bind]

theorem bind_eq_error {x : Exec α} {f : α → Exec β} {e : Fault} :
    (x >>= f) = .error e ↔ x = .error e ∨ ∃ a, x = .ok a ∧ f a = .error e := by
  cases x with
  | error e' => simp [bind, Except.bind]
  | ok a => simp [bind, Except.bind]

@[simp] theorem pure_eq_ok {a b : α} : (pure a : Exec α) = .ok b ↔ a = b := by
  simp [pure, Except.pure]

@[simp] theorem orNone_eq_ok {o : Option α} {a : α} : orNone o = .ok a ↔ o = some a := by
  cases o <;> simp [orNone]

@[simp] theorem unwrap_eq_ok {o : Option α} {a : α} : unwrap o = .ok a ↔ o = some a := by
  cases o <;> simp [unwrap]

@[simp] theorem okOr_eq_ok {c : ErrorCode} {o : Option α} {a : α} :
    okOr c o = .ok a ↔ o = some a := by
  cases o <;> simp [okOr]

theorem okOr_eq_error {c : ErrorCode} {o : Option α} {e : Fault} (h : okOr c o = .error e) :
    e = .code c := by
  cases o with
  | none => exact (Except.error.inj h).symm
  | some a => cases h

@[simp] theorem noneTo_eq_ok {c : ErrorCode} {x : Exec α} {a : α} :
    noneTo c x = .ok a ↔ x = .ok a := by
  unfold noneTo
  split <;> simp

@[simp] theorem require_eq_ok {p : Prop} [Decidable p] {f : Fault} {u : Unit} :
    require p f = .ok u ↔ p := by
  unfold require
  split <;> simp [*]

theorem ok_bind (a : α) (f : α → Exec β) : (Except.ok a >>= f) = f a := rfl

theorem error_bind (e : Fault) (f : α → Exec β) : (Except.error e >>= f) = .error e := rfl

theorem orNone_some (a : α) : orNone (some a) = .ok a := rfl

theorem require_pos {p : Prop} [Decidable p] {f : Fault} (h : p) : require p f = .ok () := if_pos h

theorem require_neg {p : Prop} [Decidable p] {f : Fault} (h : ¬p) : require p f = .error f :=
  if_neg h

theorem exists_of_isOk {x : Exec α} (h : x.toOption.isSome = true) : ∃ a, x = .ok a := by
  cases x with
  | error e => cases h
  | ok a => exact ⟨a, rfl⟩

theorem forall_of_all {x : Exec α} {p : α → Prop} [DecidablePred p]
    (h : x.toOption.all (fun a => decide (p a)) = true) : ∀ a, x = .ok a → p a := by
  intro a hx
  rw [hx] at h
  exact of_decide_eq_true h

end Exec

end NomadAmm
