import Mathlib.Logic.Relation
import NomadAmm.World.Instructions

/-! The program among everything else that happens to its accounts. Between two calls
anyone may do with the token programs and the system program whatever they allow. -/

namespace NomadAmm

open Lib.Transition Relation Run

namespace Invocation

variable {p : Addresses}

/-- The pool a call is made on, unless it makes one or is about a config. -/
def pool? : Invocation p → Option Pubkey
  | .updatePoolStatus a _ => some a.poolState
  | .updatePoolOracle a .. => some a.poolState
  | .setOracleKeeper a _ => some a.poolState
  | .collectProtocolFee a _ => some a.poolState
  | .collectFundFee a _ => some a.poolState
  | .collectCreatorFee a => some a.poolState
  | .deposit a .. => some a.poolState
  | .withdraw a .. => some a.poolState
  | .swapBaseInput a .. => some a.poolState
  | .swapBaseOutput a .. => some a.poolState
  | _ => none

/-- Whether a call is on the pool at `key`, or about its config. -/
def Concerns (call : Invocation p) (key config : Pubkey) : Prop :=
  match call with
  | .updateAmmConfig a .. => a.ammConfig = config
  | call => call.pool? = some key

def signer : Invocation p → Signer p
  | .createAmmConfig a .. => a.owner
  | .updateAmmConfig a .. => a.owner
  | .createPermissionPda a => a.owner
  | .closePermissionPda a => a.owner
  | .initializePermissionless a _ => a.payer
  | .initializeWithPermission a .. => a.payer
  | .updatePoolStatus a _ => a.authority
  | .updatePoolOracle a .. => a.oracleKeeper
  | .setOracleKeeper a _ => a.authority
  | .collectProtocolFee a _ => a.owner
  | .collectFundFee a _ => a.owner
  | .collectCreatorFee a => a.creator
  | .deposit a .. => a.owner
  | .withdraw a .. => a.owner
  | .swapBaseInput a .. => a.payer
  | .swapBaseOutput a .. => a.payer

/-- What a call asks of the one pool it is made on. A config is shared, so an update of one
is asked of every pool. The balances are what the accounts happen to hold. -/
inductive Asks : Invocation p → Op → Prop
  | updateAmmConfig {a param value remaining} :
      Asks (.updateAmmConfig a param value remaining)
        (.updateAmmConfig a.owner.key param value remaining)
  | updatePoolStatus {a status} :
      Asks (.updatePoolStatus a status) (.updatePoolStatus a.authority.key status)
  | updatePoolOracle {a bid ask exponent fee} :
      Asks (.updatePoolOracle a bid ask exponent fee)
        (.updatePoolOracle a.oracleKeeper.key bid ask exponent fee)
  | setOracleKeeper {a newKeeper} :
      Asks (.setOracleKeeper a newKeeper) (.setOracleKeeper a.authority.key newKeeper)
  | collectProtocolFee {a requested toVault} :
      Asks (.collectProtocolFee a requested) (.collectProtocolFee a.owner.key requested toVault)
  | collectFundFee {a requested toVault} :
      Asks (.collectFundFee a requested) (.collectFundFee a.owner.key requested toVault)
  | collectCreatorFee {a} : Asks (.collectCreatorFee a) (.collectCreatorFee a.creator.key)
  | deposit {a k max0 max1 ownerAmount} :
      Asks (.deposit a k max0 max1) (.deposit k max0 max1 ownerAmount)
  | withdraw {a k min0 min1 held toVault} :
      Asks (.withdraw a k min0 min1) (.withdraw k min0 min1 held toVault)
  | swapBaseInput {a amountIn minimum input output user toVault} :
      Asks (.swapBaseInput a amountIn minimum)
        (.swapBaseInput input output amountIn minimum user toVault)
  | swapBaseOutput {a maximum amountOut input output user toVault} :
      Asks (.swapBaseOutput a maximum amountOut)
        (.swapBaseOutput input output maximum amountOut user toVault)

variable {call : Invocation p} {key config : Pubkey}

theorem concerns_of_pool (h : call.pool? = some key) : call.Concerns key config := by
  cases call with
  | updateAmmConfig => cases h
  | _ => exact h

/-- A call is on one pool. -/
theorem not_concerns_of_pool {key' : Pubkey} (h : call.pool? = some key') (hne : key' ≠ key) :
    ¬call.Concerns key config := by
  have hother : call.pool? ≠ some key := by
    rw [h]
    simpa using hne
  cases call with
  | updateAmmConfig => cases h
  | _ => exact hother

end Invocation

namespace World

/-- Only mints of `seizable` have a permanent delegate. A mint gets one when it is made or
never. -/
def PermanentIn (seizable : Pubkey → Prop) (w : World) : Prop :=
  ∀ key a, w.account key = some (.mint a) → a.permanentDelegate ≠ none → seizable key

variable (p : Addresses) (seizable : Pubkey → Prop)

/-- What the token programs and the system program allow without the authority's
signature: everything but to write an account of this program, to take from a token
account of the authority, or to mint where the authority may. A permanent delegate may
take from any account of his mint, a vault as well. -/
structure Outside (w w' : World) : Prop where
  owned : ∀ key account, account.ofTokenProgram = false →
    (w'.account key = some account ↔ w.account key = some account)
  vault : ∀ key t, w.account key = some (.token t) → t.owner = p.authority → t.delegate = none →
    ∃ t', w'.account key = some (.token t') ∧ t'.mint = t.mint ∧ t'.owner = p.authority ∧
      t'.delegate = none ∧ (¬seizable t.mint → t.amount ≤ t'.amount) ∧ t'.amount < 2 ^ 64
  lpMint : ∀ key a, w.account key = some (.mint a) → a.mintAuthority = some p.authority →
    ∃ a', w'.account key = some (.mint a') ∧ a'.mintAuthority = some p.authority ∧
      a'.supply ≤ a.supply
  permanent : PermanentIn seizable w'

/-- One thing that happens: a successful call, of those that are allowed, or anything
outside. A failed call has no effect. -/
inductive Happens (allowed : Invocation p → Prop) (w w' : World) : Prop
  | call (clock : Clock) (call : Invocation p) (emitted : Option Emitted) : allowed call →
      w.step clock call = .ok (w', emitted) → Happens allowed w w'
  | outside : Outside p seizable w w' → Happens allowed w w'

/-- A successful call of those that are allowed. -/
def Called (allowed : Invocation p → Prop) (w w' : World) : Prop :=
  ∃ clock call emitted, allowed call ∧ w.step clock call = .ok (w', emitted)

/-- Before the program's first call it owns no account that was initialised. -/
structure Genesis (w : World) : Prop where
  owned : ∀ key account, w.account key = some account → account.ofTokenProgram = true
  permanent : PermanentIn seizable w

/-- A world after any calls of anyone, on any pools, in any order. -/
def Reachable (w : World) : Prop :=
  ∃ w₀, Genesis seizable w₀ ∧ ReflTransGen (Happens p seizable fun _ => True) w₀ w

variable {p}

theorem Called.happens {allowed : Invocation p → Prop} {w w' : World}
    (h : Called p allowed w w') : Happens p seizable allowed w w' := by
  obtain ⟨clock, call, emitted, hallowed, hstep⟩ := h
  exact .call clock call emitted hallowed hstep

def stepAt (w : World) (call : Clock × Invocation p) : Run (World × Option Emitted) :=
  w.step call.1 call.2

/-- Any list of calls can be made, the failed ones without effect. -/
theorem replay_called (allowed : Invocation p → Prop) (calls : List (Clock × Invocation p))
    (hallowed : ∀ call ∈ calls, allowed call.2) (w : World) :
    ReflTransGen (Called p allowed) w (replay stepAt w calls) := by
  induction calls generalizing w with
  | nil => exact .refl
  | cons call calls ih =>
    rcases next_cases stepAt w call with ⟨emitted, hstep⟩ | hsame
    · have hrest := ih (fun c hc => hallowed c (List.mem_cons_of_mem call hc)) (next stepAt w call)
      exact hrest.head ⟨call.1, call.2, emitted, hallowed call List.mem_cons_self, hstep⟩
    · rw [replay_cons, hsame]
      exact ih (fun c hc => hallowed c (List.mem_cons_of_mem call hc)) w

theorem replay_happens (allowed : Invocation p → Prop) (calls : List (Clock × Invocation p))
    (hallowed : ∀ call ∈ calls, allowed call.2) (w : World) :
    ReflTransGen (Happens p seizable allowed) w (replay stepAt w calls) :=
  ReflTransGen.mono (fun _ _ h => Called.happens seizable h) _ _
    (replay_called allowed calls hallowed w)

theorem Reachable.replay {w : World} (h : Reachable p seizable w)
    (calls : List (Clock × Invocation p)) : Reachable p seizable (replay stepAt w calls) := by
  obtain ⟨w₀, hgenesis, hrun⟩ := h
  exact ⟨w₀, hgenesis, hrun.trans (replay_happens seizable _ calls (fun _ _ => trivial) w)⟩

end World

/-! ## A world to look at

A holder of two tokens makes two pools of them under one config. -/

def exampleAddresses : Addresses where
  authority := 1
  ammConfig index := 100 + index
  permission permissionAuthority := 200 + permissionAuthority
  pool _ _ _ := 300
  lpMint poolState := poolState + 1
  vault poolState mint := poolState + mint
  observation poolState := poolState + 2
  associatedToken wallet _ mint := 10000 * wallet + mint

/-- The two tokens, and one whose permanent delegate is 13. -/
def exampleAccounts : List (Pubkey × Account) :=
  [(10, Account.mint ⟨Mint.plain 6, 6000000000, none, none⟩),
    (11, .mint ⟨Mint.plain 6, 6000000000, none, none⟩),
    (12, .mint ⟨⟨6, .token2022, none⟩, 0, none, some 13⟩),
    (20, .token ⟨10, 7, 3000000000, none, 0, 0⟩), (21, .token ⟨11, 7, 3000000000, none, 0, 0⟩),
    (30, .token ⟨10, 8, 3000000000, none, 0, 0⟩), (31, .token ⟨11, 8, 3000000000, none, 0, 0⟩),
    (createPoolFeeReceiver, .token ⟨9, 9, 0, none, 0, 0⟩)]

def exampleGenesis : World := ⟨fun key => exampleAccounts.lookup key, fun _ => 0⟩

def exampleSigner : Signer exampleAddresses := ⟨7, by decide⟩

def exampleInitialize (poolState : Pubkey) : Initialize exampleAddresses where
  payer := exampleSigner
  ammConfig := 100
  poolState
  poolStateSigned := true
  tokenMint := ⟨10, 11⟩
  lpMint := poolState + 1
  payerToken := ⟨20, 21⟩
  payerLpToken := 10000 * 7 + (poolState + 1)
  tokenVault := ⟨poolState + 10, poolState + 11⟩
  createPoolFee := createPoolFeeReceiver
  observationState := poolState + 2

def exampleClock (time : Nat) : Clock := (exampleEnv time).clock

/-- The config, and a pool at 300 and one at 400. -/
def exampleCalls : List (Clock × Invocation exampleAddresses) :=
  [(exampleClock 900, .createAmmConfig ⟨⟨adminId, by decide⟩, 100⟩ 0 2500 120000 40000 0 1000),
    (exampleClock 1000, .initializePermissionless (exampleInitialize 300) exampleArgs),
    (exampleClock 1000, .initializePermissionless (exampleInitialize 400) exampleArgs)]

def exampleWorld : World := replay World.stepAt exampleGenesis exampleCalls

/-- Someone who sells the first token to a pool. -/
def exampleTrader : Swap exampleAddresses where
  payer := ⟨8, by decide⟩
  ammConfig := 100
  poolState := 400
  inputTokenAccount := 30
  outputTokenAccount := 31
  inputVault := 410
  outputVault := 411
  inputTokenMint := 10
  outputTokenMint := 11
  observationState := 402

/-- The maker of the pool at 300 with his LP tokens. -/
def exampleHolder : ChangeLiquidity exampleAddresses where
  owner := exampleSigner
  poolState := 300
  ownerLpToken := 70301
  tokenAccount := ⟨20, 21⟩
  tokenVault := ⟨310, 311⟩
  vaultMint := ⟨10, 11⟩
  lpMint := 301

/-- A quote for the pool at 400, and a trade at it. -/
def exampleTrades : List (Clock × Invocation exampleAddresses) :=
  [(exampleClock 1050, .updatePoolOracle ⟨⟨9, by decide⟩, 400⟩ 99900000 100100000 (-8) 500),
    (exampleClock 1060, .swapBaseInput exampleTrader 1000000 900000)]

theorem exampleGenesis_genesis : World.Genesis (· = 12) exampleGenesis := by
  have hmem : ∀ key account, exampleGenesis.account key = some account →
      (key, account) ∈ exampleAccounts := by
    intro key account h
    obtain ⟨before, after, hlist, -⟩ := List.lookup_eq_some_iff.mp h
    simp [hlist]
  constructor
  · intro key account h
    have hall : ∀ entry ∈ exampleAccounts, entry.2.ofTokenProgram = true := by
      simp [exampleAccounts, Account.ofTokenProgram]
    exact hall _ (hmem key account h)
  · intro key a h hdelegate
    have hall : ∀ entry ∈ exampleAccounts, ∀ a, entry.2 = .mint a →
        a.permanentDelegate = none ∨ entry.1 = 12 := by
      simp [exampleAccounts]
    exact (hall _ (hmem key _ h) a rfl).resolve_left hdelegate

theorem exampleWorld_reachable : World.Reachable exampleAddresses (· = 12) exampleWorld :=
  ⟨exampleGenesis, exampleGenesis_genesis, World.replay_happens _ _ _ (fun _ _ => trivial) _⟩

end NomadAmm
