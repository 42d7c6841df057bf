import Mathlib.Logic.Function.Basic
import NomadAmm.States.Market

/-! The accounts all pools share: who owns them, how an instruction reads them and what
it may find. Two pools can be on one config, hold one token, or hold the LP token of one
another; nothing but the constraints of the instructions keeps them apart. -/

namespace NomadAmm

/-- The addresses the program derives from its seeds, and the associated token address.
Nothing is assumed of the derivation, not even that it is injective. -/
structure Addresses where
  authority : Pubkey
  ammConfig (index : Nat) : Pubkey
  permission (permissionAuthority : Pubkey) : Pubkey
  pool (ammConfig token0Mint token1Mint : Pubkey) : Pubkey
  lpMint (poolState : Pubkey) : Pubkey
  vault (poolState mint : Pubkey) : Pubkey
  observation (poolState : Pubkey) : Pubkey
  associatedToken (wallet : Pubkey) (program : TokenProgram) (mint : Pubkey) : Pubkey

/-- A key that signs a call. The authority of the vaults is off the curve, so it has no
private key and signs nothing but what the program invokes. -/
structure Signer (p : Addresses) where
  key : Pubkey
  key_ne : key ≠ p.authority

/-! ## What an account holds -/

structure TokenAccount where
  mint : Pubkey
  owner : Pubkey
  amount : Nat
  delegate : Option Pubkey
  delegatedAmount : Nat
  withheldAmount : Nat
  deriving DecidableEq, Repr

/-- `permanentDelegate` is the extension of Token-2022 under that name. -/
structure MintAccount where
  mint : Mint
  supply : Nat
  mintAuthority : Option Pubkey
  permanentDelegate : Option Pubkey

/-- The keys a `PoolState` carries. -/
structure PoolKeys where
  ammConfig : Pubkey
  vault : PerToken Pubkey
  lpMint : Pubkey
  tokenMint : PerToken Pubkey
  observationKey : Pubkey
  deriving DecidableEq, Repr

inductive Account
  | ammConfig (c : AmmConfig)
  | poolState (keys : PoolKeys) (state : PoolState)
  | observationState (state : ObservationState)
  | permission (authority : Pubkey)
  | mint (m : MintAccount)
  | token (t : TokenAccount)

/-- Whether a token program owns the account, rather than this one. -/
def Account.ofTokenProgram : Account → Bool
  | .mint _ => true
  | .token _ => true
  | _ => false

/-- Lamports are those beyond the rent of an account, which nothing here pays or gets back. -/
structure World where
  account : Pubkey → Option Account
  lamports : Pubkey → UInt64

/-! ## Faults -/

inductive AccountError
  | accountNotInitialized
  | accountOwnedByWrongProgram
  | accountDiscriminatorMismatch
  | invalidAccountData
  | constraintAddress
  | constraintSeeds
  | constraintHasOne
  | constraintRaw
  | constraintTokenMint
  | constraintTokenOwner
  | constraintAssociated
  | incorrectLpMint
  | notApproved
  | requireEqViolated
  | alreadyInUse
  | mintMismatch
  | ownerMismatch
  | nativeNotSupported
  | nonNativeNotSupported
  | invalidState
  deriving DecidableEq, Repr

inductive WorldFault
  | handler (f : Fault)
  | account (e : AccountError)
  deriving DecidableEq, Repr

abbrev Run := Except WorldFault

namespace Run

/-- A computation of a handler that touches no account. -/
def handler {α : Type} : Exec α → Run α
  | .ok a => .ok a
  | .error f => .error (.handler f)

def check (p : Prop) [Decidable p] (e : AccountError) : Run Unit :=
  if p then .ok () else .error (.account e)

variable {α β : Type}

@[simp] theorem bind_eq_ok {x : Run α} {f : α → Run β} {b : β} :
    (x >>= f) = .ok b ↔ ∃ a, x = .ok a ∧ f a = .ok b := by
  cases x with
  | error e => simp [bind, Except.bind]
  | ok a => simp [bind, Except.bind]

@[simp] theorem pure_eq_ok {a b : α} : (pure a : Run α) = .ok b ↔ a = b := by
  simp [pure, Except.pure]

@[simp] theorem handler_eq_ok {x : Exec α} {a : α} : handler x = .ok a ↔ x = .ok a := by
  cases x <;> simp [handler]

@[simp] theorem check_eq_ok {p : Prop} [Decidable p] {e : AccountError} {u : Unit} :
    check p e = .ok u ↔ p := by
  unfold check
  split <;> simp [*]

theorem exists_of_isOk {x : Run α} (h : x.toOption.isSome = true) : ∃ a, x = .ok a := by
  cases x with
  | error e => cases h
  | ok a => exact ⟨a, rfl⟩

theorem exists_of_map {x : Run α} {f : α → β} {b : β} (h : x.toOption.map f = some b) :
    ∃ a, x = .ok a ∧ f a = b := by
  cases x with
  | error e => cases h
  | ok a => exact ⟨a, rfl, Option.some.inj h⟩

end Run

namespace World

open Run

/-! ## Reading an account

A missing account belongs to the system program; one of another program and one of the
right program but another kind are told apart. -/

def load {α : Type} (w : World) (key : Pubkey) (ofTokenProgram : Bool)
    (missing mismatch : AccountError) (select : Account → Option α) : Run α :=
  match w.account key with
  | none => .error (.account missing)
  | some account =>
    if account.ofTokenProgram = ofTokenProgram then
      match select account with
      | some a => .ok a
      | none => .error (.account mismatch)
    else .error (.account .accountOwnedByWrongProgram)

def ammConfig (w : World) (key : Pubkey) : Run AmmConfig :=
  w.load key false .accountNotInitialized .accountDiscriminatorMismatch fun
    | .ammConfig c => some c
    | _ => none

/-- The authority a permission account was made for. -/
def permission (w : World) (key : Pubkey) : Run Pubkey :=
  w.load key false .accountNotInitialized .accountDiscriminatorMismatch fun
    | .permission authority => some authority
    | _ => none

def poolState (w : World) (key : Pubkey) : Run (PoolKeys × PoolState) :=
  w.load key false .accountOwnedByWrongProgram .accountDiscriminatorMismatch fun
    | .poolState keys state => some (keys, state)
    | _ => none

def observationState (w : World) (key : Pubkey) : Run ObservationState :=
  w.load key false .accountOwnedByWrongProgram .accountDiscriminatorMismatch fun
    | .observationState state => some state
    | _ => none

def mint (w : World) (key : Pubkey) : Run MintAccount :=
  w.load key true .accountNotInitialized .invalidAccountData fun
    | .mint m => some m
    | _ => none

def token (w : World) (key : Pubkey) : Run TokenAccount :=
  w.load key true .accountNotInitialized .invalidAccountData fun
    | .token t => some t
    | _ => none

/-! ## Writing one -/

def put (w : World) (key : Pubkey) (account : Account) : World :=
  { w with account := Function.update w.account key (some account) }

/-- An account that does not exist yet. -/
def create (w : World) (key : Pubkey) (account : Account) : Run World :=
  match w.account key with
  | none => .ok (w.put key account)
  | some _ => .error (.account .alreadyInUse)

def remove (w : World) (key : Pubkey) : World :=
  { w with account := Function.update w.account key none }

variable {w w' : World} {key key' : Pubkey} {account : Account}

/-- A load that selects one kind of account finds exactly the accounts of that kind. -/
theorem load_eq_ok {α : Type} {ofTokenProgram : Bool} {missing mismatch : AccountError}
    {select : Account → Option α} {a : α} (kind : α → Account)
    (hselect : ∀ account a, select account = some a ↔ account = kind a)
    (howner : ∀ a, (kind a).ofTokenProgram = ofTokenProgram) :
    w.load key ofTokenProgram missing mismatch select = .ok a ↔
      w.account key = some (kind a) := by
  unfold load
  cases hkey : w.account key with
  | none => simp
  | some account =>
    rw [Option.some.injEq, ← hselect]
    by_cases h : account.ofTokenProgram = ofTokenProgram
    · cases hsome : select account <;> simp [h, hsome]
    · have hnone : select account ≠ some a := by
        intro hsome
        rw [(hselect account a).mp hsome] at h
        exact h (howner a)
      simp [h, hnone]

@[simp] theorem ammConfig_eq_ok {c : AmmConfig} :
    w.ammConfig key = .ok c ↔ w.account key = some (.ammConfig c) :=
  load_eq_ok .ammConfig (by intro account a; cases account <;> simp) fun _ => rfl

@[simp] theorem permission_eq_ok {authority : Pubkey} :
    w.permission key = .ok authority ↔ w.account key = some (.permission authority) :=
  load_eq_ok .permission (by intro account a; cases account <;> simp) fun _ => rfl

@[simp] theorem poolState_eq_ok {keys : PoolKeys} {state : PoolState} :
    w.poolState key = .ok (keys, state) ↔ w.account key = some (.poolState keys state) :=
  load_eq_ok (fun a : PoolKeys × PoolState => .poolState a.1 a.2)
    (by intro account a; cases account <;> simp [Prod.ext_iff]) fun _ => rfl

@[simp] theorem observationState_eq_ok {state : ObservationState} :
    w.observationState key = .ok state ↔ w.account key = some (.observationState state) :=
  load_eq_ok .observationState (by intro account a; cases account <;> simp) fun _ => rfl

@[simp] theorem mint_eq_ok {m : MintAccount} :
    w.mint key = .ok m ↔ w.account key = some (.mint m) :=
  load_eq_ok .mint (by intro account a; cases account <;> simp) fun _ => rfl

@[simp] theorem token_eq_ok {t : TokenAccount} :
    w.token key = .ok t ↔ w.account key = some (.token t) :=
  load_eq_ok .token (by intro account a; cases account <;> simp) fun _ => rfl

@[simp] theorem put_self : (w.put key account).account key = some account :=
  Function.update_self _ _ _

theorem put_of_ne (h : key' ≠ key) : (w.put key account).account key' = w.account key' :=
  Function.update_of_ne h _ _

@[simp] theorem create_eq_ok :
    w.create key account = .ok w' ↔ w.account key = none ∧ w.put key account = w' := by
  unfold create
  cases w.account key <;> simp

end World

end NomadAmm
