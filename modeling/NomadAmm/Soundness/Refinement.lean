import NomadAmm.Soundness.PoolCreation
import NomadAmm.World.Runs

/-! Every pool among all the others behaves as if it were alone. What happens to the
accounts of a pool is a run of its market: its own calls, updates of its config, and
beside them only donations to its vaults and LP tokens burned by their holders. -/

namespace NomadAmm.Soundness.Refinement

open Lib.Transition Relation Exec Run World Instructions
open Soundness.Frames Soundness.Representation Soundness.PoolCalls Soundness.PoolCreation
open Soundness.Ledger Soundness.Solvency Soundness.Writes

variable {p : Addresses} {w w' : World} {clock : Clock} {key : Pubkey} {keys : PoolKeys}
  {m : Market} {call : Invocation p} {emitted : Option Emitted}

/-- What is reported of an event of a pool. -/
def reported (key : Pubkey) : Event → Option Emitted
  | .done => none
  | event => some ⟨key, event⟩

theorem quiet_eq_ok {r : Exec Market} {m' : Market} (h : r = .ok m') :
    Market.quiet r = .ok (m', .done) := by
  subst h
  rfl

/-- The step of its market that a call on a pool is. -/
def IsStep (w : World) (clock : Clock) (call : Invocation p) (emitted : Option Emitted)
    (key : Pubkey) (keys : PoolKeys) (m m' : Market) : Prop :=
  ∃ op event, call.Asks op ∧ m.step ⟨⟨clock, mintsOf w keys⟩, op⟩ = .ok (m', event) ∧
    emitted = reported key event

/-- What a call does to the market of its pool: it writes what a step does, and is that step
where no permanent delegate can make it another. -/
structure Acts (w : World) (clock : Clock) (call : Invocation p) (emitted : Option Emitted)
    (key : Pubkey) (keys : PoolKeys) (m m' : Market) : Prop where
  write : ∃ op, call.Asks op ∧ Write m op m'
  isStep : Undelegated w keys → IsStep w clock call emitted key keys m m'

theorem IsStep.acts (h : IsStep w clock call emitted key keys m m') :
    Acts w clock call emitted key keys m m' := by
  obtain ⟨op, event, hasks, hstep, hevent⟩ := h
  exact ⟨⟨op, hasks, step_write hstep⟩, fun _ => ⟨op, event, hasks, hstep, hevent⟩⟩

/-- **A call on a pool serves it, and is one step of its market**, with the same event. -/
theorem step_served (hm : Holds p w key keys m) (hcall : call.pool? = some key)
    (h : w.step clock call = .ok (w', emitted)) :
    ∃ m', Served p w w' call.signer.key key keys m' ∧
      Acts w clock call emitted key keys m m' := by
  cases call with
  | createAmmConfig => cases hcall
  | updateAmmConfig => cases hcall
  | createPermissionPda => cases hcall
  | closePermissionPda => cases hcall
  | initializePermissionless => cases hcall
  | initializeWithPermission => cases hcall
  | updatePoolStatus a status =>
    cases hcall
    simp only [World.step, silent, Run.bind_eq_ok, Run.pure_eq_ok, Prod.mk.injEq] at h
    obtain ⟨_, h, rfl, rfl⟩ := h
    obtain ⟨m', hm', hserved⟩ := updatePoolStatus_served (mintsOf w keys) hm h
    exact ⟨m', hserved, IsStep.acts ⟨_, .done, .updatePoolStatus, quiet_eq_ok hm', rfl⟩⟩
  | updatePoolOracle a bid ask exponent fee =>
    cases hcall
    simp only [World.step, reporting, Run.bind_eq_ok, Prod.exists, Run.pure_eq_ok,
      Prod.mk.injEq] at h
    obtain ⟨_, event, h, rfl, rfl⟩ := h
    obtain ⟨m', hm', hserved⟩ := updatePoolOracle_served (mintsOf w keys) hm h
    refine ⟨m', hserved, IsStep.acts ⟨_, .oracle event, .updatePoolOracle, ?_, rfl⟩⟩
    simp only [Market.step, hm', Exec.ok_bind]
    rfl
  | setOracleKeeper a newKeeper =>
    cases hcall
    simp only [World.step, silent, Run.bind_eq_ok, Run.pure_eq_ok, Prod.mk.injEq] at h
    obtain ⟨_, h, rfl, rfl⟩ := h
    obtain ⟨m', hm', hserved⟩ := setOracleKeeper_served hm h
    exact ⟨m', hserved, IsStep.acts ⟨_, .done, .setOracleKeeper, quiet_eq_ok hm', rfl⟩⟩
  | collectProtocolFee a requested =>
    cases hcall
    simp only [World.step, silent, Run.bind_eq_ok, Run.pure_eq_ok, Prod.mk.injEq] at h
    obtain ⟨_, h, rfl, rfl⟩ := h
    obtain ⟨toVault, m', hm', hserved⟩ := collectFee_served (mintsOf w keys) hm h
    exact ⟨m', hserved, IsStep.acts ⟨_, .done, .collectProtocolFee, quiet_eq_ok hm', rfl⟩⟩
  | collectFundFee a requested =>
    cases hcall
    simp only [World.step, silent, Run.bind_eq_ok, Run.pure_eq_ok, Prod.mk.injEq] at h
    obtain ⟨_, h, rfl, rfl⟩ := h
    obtain ⟨toVault, m', hm', hserved⟩ := collectFee_served (mintsOf w keys) hm h
    exact ⟨m', hserved, IsStep.acts ⟨_, .done, .collectFundFee, quiet_eq_ok hm', rfl⟩⟩
  | collectCreatorFee a =>
    cases hcall
    simp only [World.step, silent, Run.bind_eq_ok, Run.pure_eq_ok, Prod.mk.injEq] at h
    obtain ⟨_, h, rfl, rfl⟩ := h
    obtain ⟨m', hm', hserved⟩ := collectCreatorFee_served (mintsOf w keys) hm h
    exact ⟨m', hserved, IsStep.acts ⟨_, .done, .collectCreatorFee, quiet_eq_ok hm', rfl⟩⟩
  | deposit a k max0 max1 =>
    cases hcall
    simp only [World.step, reporting, Run.bind_eq_ok, Prod.exists, Run.pure_eq_ok,
      Prod.mk.injEq] at h
    obtain ⟨_, event, h, rfl, rfl⟩ := h
    obtain ⟨ownerAmount, m', hm', hserved⟩ := deposit_served hm h
    refine ⟨m', hserved, IsStep.acts ⟨.deposit k max0 max1 ownerAmount, .lpChange event,
      .deposit, ?_, rfl⟩⟩
    simp only [Market.step, hm', Exec.ok_bind]
    rfl
  | withdraw a k min0 min1 =>
    cases hcall
    simp only [World.step, reporting, Run.bind_eq_ok, Prod.exists, Run.pure_eq_ok,
      Prod.mk.injEq] at h
    obtain ⟨_, event, h, rfl, rfl⟩ := h
    obtain ⟨held, toVault, m', hm', hserved⟩ := withdraw_served hm h
    refine ⟨m', hserved, IsStep.acts ⟨.withdraw k min0 min1 held toVault, .lpChange event,
      .withdraw, ?_, rfl⟩⟩
    simp only [Market.step, hm', Exec.ok_bind]
    rfl
  | swapBaseInput a amountIn minimum =>
    cases hcall
    simp only [World.step, reporting, Run.bind_eq_ok, Prod.exists, Run.pure_eq_ok,
      Prod.mk.injEq] at h
    obtain ⟨_, receipt, h, rfl, rfl⟩ := h
    obtain ⟨m', hserved, hwrite, hsame⟩ := swapBaseInput_served hm h
    refine ⟨m', hserved, ⟨.swapBaseInput .token0 .token1 amountIn minimum 0 false,
      .swapBaseInput, hwrite _⟩, ?_⟩
    intro hnone
    obtain ⟨input, output, user, toVault, hm'⟩ := hsame hnone
    refine ⟨.swapBaseInput input output amountIn minimum user toVault, .swap receipt,
      .swapBaseInput, ?_, rfl⟩
    simp only [Market.step, hm', Exec.ok_bind]
    rfl
  | swapBaseOutput a maximum amountOut =>
    cases hcall
    simp only [World.step, reporting, Run.bind_eq_ok, Prod.exists, Run.pure_eq_ok,
      Prod.mk.injEq] at h
    obtain ⟨_, receipt, h, rfl, rfl⟩ := h
    obtain ⟨m', hserved, hwrite, hsame⟩ := swapBaseOutput_served hm h
    refine ⟨m', hserved, ⟨.swapBaseOutput .token0 .token1 maximum amountOut 0 false,
      .swapBaseOutput, hwrite _⟩, ?_⟩
    intro hnone
    obtain ⟨input, output, user, toVault, hm'⟩ := hsame hnone
    refine ⟨.swapBaseOutput input output maximum amountOut user toVault, .swap receipt,
      .swapBaseOutput, ?_, rfl⟩
    simp only [Market.step, hm', Exec.ok_bind]
    rfl

/-! ## All pools at once -/

/-- Two pools with nothing to write in common. -/
structure Apart (key : Pubkey) (keys : PoolKeys) (key₂ : Pubkey) (keys₂ : PoolKeys) : Prop where
  written : ∀ k, writes key keys k → ¬writes key₂ keys₂ k
  vault : ∀ side side', keys.vault.get side ≠ keys₂.vault.get side'

/-- Neither token of a pool can be seized. -/
def Unseizable (seizable : Pubkey → Prop) (keys : PoolKeys) : Prop :=
  ∀ side, ¬seizable (keys.tokenMint.get side)

/-- **The pools of a world.** Each has its accounts, and is a market that calls can lead to
if its tokens cannot be seized; no two of them share an account that either writes. -/
structure Wired (p : Addresses) (seizable : Pubkey → Prop) (w : World) : Prop where
  pool : ∀ key keys s, w.account key = some (.poolState keys s) →
    ∃ m, Holds p w key keys m ∧ (Unseizable seizable keys → m.Reachable)
  apart : ∀ key keys s key₂ keys₂ s₂, w.account key = some (.poolState keys s) →
    w.account key₂ = some (.poolState keys₂ s₂) → key ≠ key₂ → Apart key keys key₂ keys₂
  config : ∀ key c, w.account key = some (.ammConfig c) → c.Reachable
  permanent : PermanentIn seizable w

/-- What can reach the market of a pool. The calls are `made` somewhere at some time, which
is whose mints and clock they see. -/
inductive Reaches (made : World → Clock → Invocation p → Prop) (key : Pubkey)
    (keys : PoolKeys) : Call → Prop
  | call {u clock asked op} : made u clock asked → asked.Concerns key keys.ammConfig →
      asked.Asks op → Reaches made key keys ⟨⟨clock, mintsOf u keys⟩, op⟩
  | gift {donation} : isGift donation → Reaches made key keys donation
  | burn {env amount held} : Reaches made key keys ⟨env, .burnLp amount held⟩

/-- The calls of a run from `w` to `w'`. -/
def Made (p : Addresses) (seizable : Pubkey → Prop) (allowed : Invocation p → Prop)
    (w w' u : World) (clock : Clock) (asked : Invocation p) : Prop :=
  ∃ u' emitted, ReflTransGen (Happens p seizable allowed) w u ∧ allowed asked ∧
    u.step clock asked = .ok (u', emitted) ∧ ReflTransGen (Happens p seizable allowed) u' w'

variable {key₂ : Pubkey} {keys₂ : PoolKeys} {m₂ : Market} {signer : Pubkey}
  {allowed : Invocation p → Prop} {seizable : Pubkey → Prop}

theorem Apart.symm (h : Apart key keys key₂ keys₂) : Apart key₂ keys₂ key keys where
  written k hk hk₂ := h.written k hk₂ hk
  vault side side' heq := h.vault side' side heq.symm

theorem Wired.undelegated (hw : Wired p seizable w) (h : Unseizable seizable keys) :
    Undelegated w keys := by
  intro side a ha
  by_contra hdelegate
  exact h side (hw.permanent _ a ha hdelegate)

/-- Nobody is appointed by what frames. -/
theorem permanentIn_of_frame {written debited : Pubkey → Prop} (h : PermanentIn seizable w)
    (hf : Frame written debited w w') : PermanentIn seizable w' := by
  intro k a ha hdelegate
  obtain ⟨d, hd⟩ := Option.ne_none_iff_exists'.mp hdelegate
  obtain ⟨a₀, ha₀, hd₀⟩ := hf.permanent k _ ha a d rfl hd
  exact h k a₀ ha₀ (by simp [hd₀])

/-- **What a pool sees of a call**: a change of its own, which is a step of its market unless
a permanent delegate made it, or else nothing but its vaults changing. -/
inductive Sees (p : Addresses) (w w' : World) (clock : Clock) (call : Invocation p)
    (key : Pubkey) (keys : PoolKeys) (m : Market) : Prop
  | own {m' emitted} : Holds p w' key keys m' → call.Concerns key keys.ammConfig →
      Acts w clock call emitted key keys m m' → Sees p w w' clock call key keys m
  | framed {written debited} : Frame written debited w w' →
      (∀ k, uses key keys k → ¬written k) →
      (Undelegated w keys → ∀ side, ¬debited (keys.vault.get side)) →
      Sees p w w' clock call key keys m

/-- A pool is served as if the others were not there. -/
theorem served_other (hserved : Served p w w' signer key keys m) (hsigner : signer ≠ p.authority)
    (hm₂ : Holds p w key₂ keys₂ m₂) (hapart : Apart key keys key₂ keys₂)
    (hconfig : ¬writes key keys keys₂.ammConfig) : Sees p w w' clock call key₂ keys₂ m₂ := by
  refine .framed hserved.frame ?_ ?_
  · rintro k (rfl | hk) hwritten
    · exact hconfig hwritten
    · exact hapart.written k hwritten hk
  · intro hnone side htaken
    rcases htaken with hspends | ⟨side', heq⟩
    · exact (hm₂.vault side).not_spends hsigner (hnone side) hspends
    · exact hapart.vault side' side heq.symm

/-- No pool account appears or changes its keys when a pool is served. -/
theorem served_old (hserved : Served p w w' signer key keys m) {s : PoolState}
    (h : w'.account key₂ = some (.poolState keys₂ s)) :
    key₂ = key ∧ keys₂ = keys ∨ w.account key₂ = some (.poolState keys₂ s) := by
  by_cases hk : writes key keys key₂
  · rcases hk with rfl | rfl | rfl
    · exact .inl ⟨rfl, (hserved.holds.poolState_eq h).1.symm⟩
    · obtain ⟨a, ha, -⟩ := hserved.holds.lpMint
      rw [ha] at h
      cases h
    · rw [hserved.holds.observation] at h
      cases h
  · exact .inr (hserved.frame.fresh _ _ h rfl hk)

/-- Nor a config. -/
theorem served_config (hserved : Served p w w' signer key keys m) {c : AmmConfig}
    (h : w'.account key₂ = some (.ammConfig c)) : w.account key₂ = some (.ammConfig c) := by
  refine hserved.frame.fresh _ _ h rfl ?_
  intro hk
  obtain ⟨account, haccount, -, -, hconfig⟩ := hserved.holds.used (.inr hk)
  rw [h, Option.some.injEq] at haccount
  have heq := hconfig c haccount.symm
  exact hserved.holds.config_ne_written (heq ▸ hk)

/-! ## Calls -/

/-- A call on a pool found one there. -/
theorem pool_found (hcall : call.pool? = some key)
    (h : w.step clock call = .ok (w', emitted)) :
    ∃ keys s, w.account key = some (.poolState keys s) := by
  cases call with
  | createAmmConfig => cases hcall
  | updateAmmConfig => cases hcall
  | createPermissionPda => cases hcall
  | closePermissionPda => cases hcall
  | initializePermissionless => cases hcall
  | initializeWithPermission => cases hcall
  | updatePoolStatus =>
    cases hcall
    simp only [World.step, silent, World.updatePoolStatus, Run.bind_eq_ok, Prod.exists,
      poolState_eq_ok] at h
    obtain ⟨_, ⟨keys, s, hkey, -⟩, -⟩ := h
    exact ⟨keys, s, hkey⟩
  | updatePoolOracle =>
    cases hcall
    simp only [World.step, reporting, World.updatePoolOracle, Run.bind_eq_ok, Prod.exists,
      poolState_eq_ok] at h
    obtain ⟨_, _, ⟨keys, s, hkey, -⟩, -⟩ := h
    exact ⟨keys, s, hkey⟩
  | setOracleKeeper =>
    cases hcall
    simp only [World.step, silent, World.setOracleKeeper, Run.bind_eq_ok, Prod.exists,
      poolState_eq_ok] at h
    obtain ⟨_, ⟨keys, s, hkey, -⟩, -⟩ := h
    exact ⟨keys, s, hkey⟩
  | collectProtocolFee =>
    cases hcall
    simp only [World.step, silent, World.collectProtocolFee, World.collectFee, Run.bind_eq_ok,
      Prod.exists, poolState_eq_ok] at h
    obtain ⟨_, ⟨keys, s, hkey, -⟩, -⟩ := h
    exact ⟨keys, s, hkey⟩
  | collectFundFee =>
    cases hcall
    simp only [World.step, silent, World.collectFundFee, World.collectFee, Run.bind_eq_ok,
      Prod.exists, poolState_eq_ok] at h
    obtain ⟨_, ⟨keys, s, hkey, -⟩, -⟩ := h
    exact ⟨keys, s, hkey⟩
  | collectCreatorFee =>
    cases hcall
    simp only [World.step, silent, World.collectCreatorFee, Run.bind_eq_ok, Prod.exists,
      poolState_eq_ok] at h
    obtain ⟨_, ⟨keys, s, hkey, -⟩, -⟩ := h
    exact ⟨keys, s, hkey⟩
  | deposit =>
    cases hcall
    simp only [World.step, reporting, World.deposit, Run.bind_eq_ok, Prod.exists,
      poolState_eq_ok] at h
    obtain ⟨_, _, ⟨keys, s, hkey, -⟩, -⟩ := h
    exact ⟨keys, s, hkey⟩
  | withdraw =>
    cases hcall
    simp only [World.step, reporting, World.withdraw, Run.bind_eq_ok, Prod.exists,
      poolState_eq_ok] at h
    obtain ⟨_, _, ⟨keys, s, hkey, -⟩, -⟩ := h
    exact ⟨keys, s, hkey⟩
  | swapBaseInput =>
    cases hcall
    simp only [World.step, reporting, World.swapBaseInput, World.swapAccounts, Run.bind_eq_ok,
      Prod.exists, poolState_eq_ok] at h
    obtain ⟨_, _, ⟨_, ⟨_, -, keys, s, hkey, -⟩, -⟩, -⟩ := h
    exact ⟨keys, s, hkey⟩
  | swapBaseOutput =>
    cases hcall
    simp only [World.step, reporting, World.swapBaseOutput, World.swapAccounts, Run.bind_eq_ok,
      Prod.exists, poolState_eq_ok] at h
    obtain ⟨_, _, ⟨_, ⟨_, -, keys, s, hkey, -⟩, -⟩, -⟩ := h
    exact ⟨keys, s, hkey⟩

/-- What a successful call was: on a pool, the creation of one, a change of a config, or
about an account that no pool uses. -/
inductive Outcome (p : Addresses) (w w' : World) (clock : Clock) (call : Invocation p)
    (emitted : Option Emitted) : Prop
  | pool {key keys m m'} : Holds p w key keys m → call.pool? = some key →
      Served p w w' call.signer.key key keys m' → Acts w clock call emitted key keys m m' →
      Outcome p w w' clock call emitted
  | creation {a m} : Market.Initial m → Created p w w' a m → call.signer = a.payer →
      Outcome p w w' clock call emitted
  | config {a param value remaining c c'} : call = .updateAmmConfig a param value remaining →
      w.account a.ammConfig = some (.ammConfig c) →
      updateAmmConfig a.owner.key c param value remaining = .ok c' →
      w' = w.put a.ammConfig (.ammConfig c') → Outcome p w w' clock call emitted
  | elsewhere {k} : (∀ account, w.account k = some account → ∃ a, account = .permission a) →
      (∀ account, w'.account k = some account →
        (∃ a, account = .permission a) ∨ ∃ c, account = .ammConfig c ∧ c.Reachable) →
      Frame (· = k) (fun _ => False) w w' → Outcome p w w' clock call emitted

/-- **Every successful call**, whichever instruction it is. -/
theorem step_outcome (hw : Wired p seizable w) (h : w.step clock call = .ok (w', emitted)) :
    Outcome p w w' clock call emitted := by
  cases hcall : call.pool? with
  | some key =>
    obtain ⟨keys, s, hkey⟩ := pool_found hcall h
    obtain ⟨m, hm, -⟩ := hw.pool key keys s hkey
    obtain ⟨m', hserved, hacts⟩ := step_served hm hcall h
    exact .pool hm hcall hserved hacts
  | none =>
    cases call with
    | createAmmConfig a index trade protocol fund poolFee creator =>
      simp only [World.step, silent, World.createAmmConfig, Run.bind_eq_ok, check_eq_ok,
        handler_eq_ok, Run.pure_eq_ok, Prod.mk.injEq] at h
      obtain ⟨_, ⟨_, _, c, hc, hcreate⟩, rfl, -⟩ := h
      obtain ⟨hnone, hput⟩ := create_eq_ok.mp hcreate
      refine .elsewhere ?_ ?_ (create_frame hcreate (.of_program rfl))
      · intro account hk
        rw [hnone] at hk
        cases hk
      · intro account hk
        rw [← hput, put_self, Option.some.injEq] at hk
        exact .inr ⟨c, hk.symm, .create hc⟩
    | updateAmmConfig a param value remaining =>
      simp only [World.step, silent, World.updateAmmConfig, Run.bind_eq_ok, ammConfig_eq_ok,
        handler_eq_ok, Run.pure_eq_ok, Prod.mk.injEq] at h
      obtain ⟨_, ⟨c, hc, c', hc', rfl⟩, rfl, -⟩ := h
      exact .config rfl hc hc' rfl
    | createPermissionPda a =>
      simp only [World.step, silent, World.createPermissionPda, Run.bind_eq_ok, check_eq_ok,
        handler_eq_ok, Run.pure_eq_ok, Prod.mk.injEq] at h
      obtain ⟨_, ⟨_, _, _, _, hcreate⟩, rfl, -⟩ := h
      obtain ⟨hnone, hput⟩ := create_eq_ok.mp hcreate
      refine .elsewhere ?_ ?_ (create_frame hcreate (.of_program rfl))
      · intro account hk
        rw [hnone] at hk
        cases hk
      · intro account hk
        rw [← hput, put_self, Option.some.injEq] at hk
        exact .inl ⟨_, hk.symm⟩
    | closePermissionPda a =>
      simp only [World.step, silent, World.closePermissionPda, Run.bind_eq_ok, check_eq_ok,
        handler_eq_ok, permission_eq_ok, Run.pure_eq_ok, Prod.mk.injEq] at h
      obtain ⟨_, ⟨_, hpermission, _, _, _, _, rfl⟩, rfl, -⟩ := h
      have hf : Frame (· = a.permission) (fun _ => False) w (w.remove a.permission) := by
        refine remove_frame ?_
        intro t ht
        rw [hpermission] at ht
        cases ht
      refine .elsewhere ?_ ?_ hf
      · intro account hk
        rw [hpermission, Option.some.injEq] at hk
        exact ⟨_, hk.symm⟩
      · intro account hk
        simp [World.remove] at hk
    | initializePermissionless a args =>
      simp only [World.step, silent, World.initializePermissionless, Run.bind_eq_ok,
        Run.pure_eq_ok, Prod.mk.injEq] at h
      obtain ⟨_, h, rfl, -⟩ := h
      obtain ⟨c, env, args, payer, m, hc, hm, hcreated⟩ := initializePool_created h
      exact .creation (.permissionless (hw.config _ _ hc) hm) hcreated rfl
    | initializeWithPermission a creator permission creatorFeeOn args =>
      simp only [World.step, silent, World.initializeWithPermission, Run.bind_eq_ok,
        Run.pure_eq_ok, Prod.mk.injEq] at h
      obtain ⟨_, ⟨_, _, _, _, h⟩, rfl, -⟩ := h
      obtain ⟨c, env, args, payer, m, hc, hm, hcreated⟩ := initializePool_created h
      have hinit : Instructions.initializeWithPermission c env creator creatorFeeOn args true
          payer = .ok m := by
        simp only [Instructions.initializeWithPermission, Exec.bind_eq_ok, Exec.require_eq_ok]
        exact ⟨(), trivial, hm⟩
      exact .creation (.withPermission (hw.config _ _ hc) hinit) hcreated rfl
    | updatePoolStatus => cases hcall
    | updatePoolOracle => cases hcall
    | setOracleKeeper => cases hcall
    | collectProtocolFee => cases hcall
    | collectFundFee => cases hcall
    | collectCreatorFee => cases hcall
    | deposit => cases hcall
    | withdraw => cases hcall
    | swapBaseInput => cases hcall
    | swapBaseOutput => cases hcall

/-! ## What happens to all pools -/

theorem config_step {a : UpdateAmmConfig p} {param value : Nat} {remaining : Option Pubkey}
    {c' : AmmConfig} (m : Market) (mints : PerToken Mint)
    (h : updateAmmConfig a.owner.key m.ammConfig param value remaining = .ok c') :
    m.step ⟨⟨clock, mints⟩, .updateAmmConfig a.owner.key param value remaining⟩ =
      .ok ({ m with ammConfig := c' }, .done) := by
  refine quiet_eq_ok ?_
  simp only [Exec.bind_eq_ok, Exec.pure_eq_ok]
  exact ⟨c', h, rfl⟩

/-- A new pool has nothing in common with one that was there. -/
theorem created_apart {a : Initialize p} {m₁ : Market} (hcreated : Created p w w' a m₁)
    (hm : Holds p w key keys m) : Apart a.poolState (Initialize.keys a) key keys where
  written k hk hk₂ := by
    obtain ⟨account, haccount, -⟩ := hm.used (.inr hk₂)
    rw [hcreated.written_none k hk] at haccount
    cases haccount
  vault side side' heq := by
    obtain ⟨t, ht, -⟩ := hm.vault side'
    rw [← heq, hcreated.vault_none side] at ht
    cases ht

theorem config_frame {k : Pubkey} {c c' : AmmConfig} (hc : w.account k = some (.ammConfig c)) :
    Frame (· = k) (fun _ => False) w (w.put k (.ammConfig c')) := by
  refine put_frame ?_ (.of_program rfl)
  intro t ht
  rw [hc] at ht
  cases ht

/-- What a pool sees of a call. -/
theorem outcome_sees (hw : Wired p seizable w) (h : Outcome p w w' clock call emitted)
    (hm : Holds p w key keys m) : Sees p w w' clock call key keys m := by
  cases h with
  | @pool key₁ keys₁ m₁ m₁' hm₁ hcall hserved hacts =>
    by_cases hkey : key = key₁
    · subst hkey
      -- the pool that is called
      obtain ⟨rfl, -⟩ := hm.poolState_eq hm₁.pool
      obtain rfl := Holds.unique hm hm₁
      exact .own hserved.holds (Invocation.concerns_of_pool hcall) hacts
    · refine served_other hserved call.signer.key_ne hm ?_ ?_
      · exact hw.apart _ _ _ _ _ _ hm₁.pool hm.pool (Ne.symm hkey)
      · intro hwritten
        obtain ⟨account, haccount, -, -, hconfig⟩ := hm₁.used (.inr hwritten)
        rw [hm.config, Option.some.injEq] at haccount
        have heq := hconfig _ haccount.symm
        exact hm₁.config_ne_written (heq ▸ hwritten)
  | @creation a m₁ hinit hcreated hsigner =>
    refine served_other hcreated.served a.payer.key_ne hm (created_apart hcreated hm) ?_
    intro hwritten
    have hnone := hcreated.written_none _ hwritten
    rw [hm.config] at hnone
    cases hnone
  | @config a param value remaining c c' hcall hc hc' hput =>
    subst hput
    by_cases hkey : a.ammConfig = keys.ammConfig
    · rw [hkey, hm.config, Option.some.injEq, Account.ammConfig.injEq] at hc
      subst hc hcall
      have hstep : IsStep w clock (.updateAmmConfig a param value remaining) none key keys m
          { m with ammConfig := c' } :=
        ⟨_, .done, .updateAmmConfig, config_step m _ hc', rfl⟩
      exact .own (hkey ▸ hm.putConfig c') hkey hstep.acts
    · refine .framed (config_frame hc) ?_ fun _ _ => id
      rintro k hk rfl
      obtain ⟨account, haccount, -, -, hconfig⟩ := hm.used hk
      rw [hc, Option.some.injEq] at haccount
      exact hkey (hconfig c haccount.symm)
  | @elsewhere k hold hnew hf =>
    refine .framed hf ?_ fun _ _ => id
    rintro k' hk rfl
    obtain ⟨account, haccount, -, hpermission, -⟩ := hm.used hk
    obtain ⟨authority, heq⟩ := hold account haccount
    exact hpermission authority heq

/-- A pool keeps its accounts, whoever takes from its vaults. -/
theorem Sees.holds (h : Sees p w w' clock call key keys m) (hm : Holds p w key keys m) :
    ∃ m', Holds p w' key keys m' := by
  cases h with
  | own hm' hconcerns hacts => exact ⟨_, hm'⟩
  | framed hf huses _ =>
    obtain ⟨held, hheld, -⟩ := hm.framed hf huses
    exact ⟨_, hheld⟩

/-- **What a call is to a pool** whose tokens cannot be seized: a step of its market if it is
about it, or else nothing but donations. -/
theorem Sees.market (h : Sees p w w' clock call key keys m) (hm : Holds p w key keys m)
    (hnone : Undelegated w keys) (hlt : ∀ side, m.vault.get side < 2 ^ 64) :
    ∃ calls, (∀ c ∈ calls, Reaches (fun u t asked => u = w ∧ t = clock ∧ asked = call)
      key keys c) ∧ Holds p w' key keys (replay Market.step m calls) := by
  cases h with
  | @own m' _ hm' hconcerns hacts =>
    obtain ⟨op, event, hasks, hstep, -⟩ := hacts.isStep hnone
    refine ⟨[⟨⟨clock, mintsOf w keys⟩, op⟩], ?_, ?_⟩
    · intro c hc
      obtain rfl := List.mem_singleton.mp hc
      exact .call ⟨rfl, rfl, rfl⟩ hconcerns hasks
    · have hnext : replay Market.step m [⟨⟨clock, mintsOf w keys⟩, op⟩] = m' := by
        simp [replay, next, hstep]
      rwa [hnext]
  | framed hf huses hvault =>
    obtain ⟨more, hheld⟩ := hm.frame hlt hf huses (hvault hnone)
    exact ⟨gifts more, fun c hc => .gift (isGift_of_mem c hc), hheld⟩

/-- What a pool keeps of what happens outside. -/
theorem outside_holds (ho : Outside p seizable w w') (hm : Holds p w key keys m) :
    ∃ held supply, Holds p w' key keys { m with vault := held, lpMintSupply := supply } ∧
      supply ≤ m.lpMintSupply ∧ ∀ side, held.get side < 2 ^ 64 ∧
        (¬seizable (keys.tokenMint.get side) → m.vault.get side ≤ held.get side) := by
  have hvault : ∀ side, ∃ held,
      IsVault p w' (keys.vault.get side) (keys.tokenMint.get side) held ∧ (held < 2 ^ 64 ∧
        (¬seizable (keys.tokenMint.get side) → m.vault.get side ≤ held)) := by
    intro side
    obtain ⟨t, ht, howner, hmint, hnone, hamount⟩ := hm.vault side
    obtain ⟨t', ht', hmint', howner', hnone', hle, hlt⟩ := ho.vault _ t ht howner hnone
    rw [hmint, hamount] at hle
    exact ⟨t'.amount, ⟨t', ht', howner', hmint'.trans hmint, hnone', rfl⟩, hlt, hle⟩
  obtain ⟨held, hheld⟩ := exists_vaults hvault
  obtain ⟨a, ha, hauthority, hsupply⟩ := hm.lpMint
  obtain ⟨a', ha', hauthority', hle⟩ := ho.lpMint _ a ha hauthority
  refine ⟨held, a'.supply, ⟨(ho.owned _ _ rfl).mpr hm.pool, (ho.owned _ _ rfl).mpr hm.config,
    fun side => (hheld side).1, ⟨a', ha', hauthority', rfl⟩, (ho.owned _ _ rfl).mpr hm.observation,
    hm.mints_ne, hm.lpMint_ne⟩, hsupply ▸ hle, fun side => (hheld side).2⟩

/-- Outside the program a pool is given tokens, and LP tokens of it are burned. -/
theorem outside_market (made : World → Clock → Invocation p → Prop)
    (ho : Outside p seizable w w') (hfree : Unseizable seizable keys)
    (hm : Holds p w key keys m) :
    ∃ calls, (∀ c ∈ calls, Reaches made key keys c) ∧
      Holds p w' key keys (replay Market.step m calls) := by
  obtain ⟨held, supply, hheld, hle, hgrown⟩ := outside_holds ho hm
  let burned : Call := ⟨⟨⟨0, 0, 0⟩, ⟨Mint.plain 0, Mint.plain 0⟩⟩,
    .burnLp (m.lpMintSupply - supply) (m.lpMintSupply - supply)⟩
  have hburn : next Market.step m burned = { m with lpMintSupply := supply } := by
    have hstep : m.step burned = .ok ({ m with lpMintSupply := supply }, .done) := by
      refine quiet_eq_ok ?_
      simp only [Market.burnLp, Exec.bind_eq_ok, tokenBurn_eq_ok, Exec.pure_eq_ok]
      exact ⟨supply, ⟨le_rfl, by omega, by omega⟩, rfl⟩
    simp [next, hstep]
  obtain ⟨more, hmore⟩ := gifts_of_le (m := { m with lpMintSupply := supply })
    (fun side => (hgrown side).2 (hfree side)) fun side => (hgrown side).1
  refine ⟨burned :: gifts more, ?_, ?_⟩
  · intro c hc
    rcases List.mem_cons.mp hc with rfl | hc
    · exact .burn
    · exact .gift (isGift_of_mem c hc)
  · rwa [replay_cons, hburn, hmore]

/-- A change to a config account that is a change of the config keeps it reachable. -/
theorem outcome_config (hw : Wired p seizable w) (h : Outcome p w w' clock call emitted)
    {c : AmmConfig} (hkey : w'.account key = some (.ammConfig c)) : c.Reachable := by
  cases h with
  | pool hm hcall hserved hacts =>
    exact hw.config _ _ (served_config hserved hkey)
  | creation hinit hcreated hsigner => exact hw.config _ _ (served_config hcreated.served hkey)
  | @config a param value remaining c₁ c' hcall hc hc' hput =>
    subst hput
    by_cases heq : key = a.ammConfig
    · rw [heq, put_self, Option.some.injEq, Account.ammConfig.injEq] at hkey
      subst hkey
      exact .update (hw.config _ _ hc) hc'
    · rw [put_of_ne heq] at hkey
      exact hw.config _ _ hkey
  | @elsewhere k hold hnew hf =>
    by_cases heq : key = k
    · subst heq
      rcases hnew _ hkey with ⟨a, ha⟩ | ⟨c', hc', hreach⟩
      · cases ha
      · cases hc'
        exact hreach
    · exact hw.config _ _ (hf.fresh _ _ hkey rfl heq)

/-- A pool account after a call is an old one, with its keys, or the one just created. -/
theorem outcome_old (h : Outcome p w w' clock call emitted) {s : PoolState}
    (hkey : w'.account key = some (.poolState keys s)) :
    (∃ s', w.account key = some (.poolState keys s')) ∨
      ∃ (a : Initialize p) (m : Market), key = a.poolState ∧ keys = Initialize.keys a ∧
        Market.Initial m ∧ Created p w w' a m := by
  cases h with
  | pool hm hcall hserved hacts =>
    rcases served_old hserved hkey with ⟨rfl, rfl⟩ | hold
    · exact .inl ⟨_, hm.pool⟩
    · exact .inl ⟨_, hold⟩
  | creation hinit hcreated hsigner =>
    rcases served_old hcreated.served hkey with ⟨rfl, rfl⟩ | hold
    · exact .inr ⟨_, _, rfl, rfl, hinit, hcreated⟩
    · exact .inl ⟨_, hold⟩
  | @config a param value remaining c₁ c' hcall hc hc' hput =>
    subst hput
    by_cases heq : key = a.ammConfig
    · rw [heq, put_self] at hkey
      cases hkey
    · rw [put_of_ne heq] at hkey
      exact .inl ⟨_, hkey⟩
  | @elsewhere k hold hnew hf =>
    by_cases heq : key = k
    · subst heq
      rcases hnew _ hkey with ⟨a, ha⟩ | ⟨c', hc', -⟩
      · cases ha
      · cases hc'
    · exact .inl ⟨_, hf.fresh _ _ hkey rfl heq⟩

/-- No call appoints a permanent delegate. -/
theorem outcome_permanent (hw : Wired p seizable w) (h : Outcome p w w' clock call emitted) :
    PermanentIn seizable w' := by
  cases h with
  | pool hm hcall hserved hacts => exact permanentIn_of_frame hw.permanent hserved.frame
  | creation hinit hcreated hsigner =>
    exact permanentIn_of_frame hw.permanent hcreated.served.frame
  | config hcall hc hc' hput =>
    rw [hput]
    exact permanentIn_of_frame hw.permanent (config_frame hc)
  | elsewhere hold hnew hf => exact permanentIn_of_frame hw.permanent hf

/-- **Every call keeps the pools wired.** -/
theorem outcome_wired (hw : Wired p seizable w) (h : Outcome p w w' clock call emitted) :
    Wired p seizable w' where
  pool := by
    intro key keys s hkey
    rcases outcome_old h hkey with ⟨s', hold⟩ | ⟨a, m, rfl, rfl, hinit, hcreated⟩
    · obtain ⟨m, hm, hreach⟩ := hw.pool _ _ _ hold
      have hsees := outcome_sees hw h hm
      by_cases hfree : Unseizable seizable keys
      · have hsound := reachable_sound (hreach hfree)
        obtain ⟨calls, -, hheld⟩ := hsees.market hm (hw.undelegated hfree) hsound.vault_lt
        exact ⟨_, hheld, fun _ => (hreach hfree).replay calls⟩
      · obtain ⟨m', hm'⟩ := hsees.holds hm
        exact ⟨m', hm', fun h => absurd h hfree⟩
    · exact ⟨m, hcreated.served.holds, fun _ => ⟨m, [], hinit, rfl⟩⟩
  apart := by
    intro key keys s key₂ keys₂ s₂ hkey hkey₂ hne
    rcases outcome_old h hkey with ⟨s', hold⟩ | ⟨a, m, rfl, rfl, -, hcreated⟩
    · rcases outcome_old h hkey₂ with ⟨s₂', hold₂⟩ | ⟨a, m, rfl, rfl, -, hcreated⟩
      · exact hw.apart _ _ _ _ _ _ hold hold₂ hne
      · obtain ⟨_, hm, -⟩ := hw.pool _ _ _ hold
        exact (created_apart hcreated hm).symm
    · rcases served_old hcreated.served hkey₂ with ⟨rfl, -⟩ | hold₂
      · exact absurd rfl hne
      · obtain ⟨_, hm, -⟩ := hw.pool _ _ _ hold₂
        exact created_apart hcreated hm
  config _ _ hkey := outcome_config hw h hkey
  permanent := outcome_permanent hw h

theorem outside_wired (hw : Wired p seizable w) (ho : Outside p seizable w w') :
    Wired p seizable w' where
  pool := by
    intro key keys s hkey
    obtain ⟨m, hm, hreach⟩ := hw.pool _ _ _ ((ho.owned _ _ rfl).mp hkey)
    by_cases hfree : Unseizable seizable keys
    · obtain ⟨calls, -, hheld⟩ := outside_market (fun _ _ _ => True) ho hfree hm
      exact ⟨_, hheld, fun _ => (hreach hfree).replay calls⟩
    · obtain ⟨held, supply, hheld, -⟩ := outside_holds ho hm
      exact ⟨_, hheld, fun h => absurd h hfree⟩
  apart := by
    intro key keys s key₂ keys₂ s₂ hkey hkey₂ hne
    exact hw.apart _ _ _ _ _ _ ((ho.owned _ _ rfl).mp hkey) ((ho.owned _ _ rfl).mp hkey₂) hne
  config key c hkey := hw.config _ _ ((ho.owned _ _ rfl).mp hkey)
  permanent := ho.permanent

/-! ## Runs -/

theorem happens_wired (hw : Wired p seizable w) (h : Happens p seizable allowed w w') :
    Wired p seizable w' := by
  cases h with
  | call clock call emitted _ hstep => exact outcome_wired hw (step_outcome hw hstep)
  | outside ho => exact outside_wired hw ho

/-- What reaches a pool of the calls of one run reaches it of those of a longer one. -/
theorem Reaches.mono {made made' : World → Clock → Invocation p → Prop} {asked : Call}
    (h : Reaches made key keys asked) (hmade : ∀ u clock call, made u clock call →
      made' u clock call) : Reaches made' key keys asked := by
  cases h with
  | call hcall hconcerns hasks => exact .call (hmade _ _ _ hcall) hconcerns hasks
  | gift hgift => exact .gift hgift
  | burn => exact .burn

/-- The calls of a part of a run are calls of the run. -/
theorem Made.mono {w₁ w₂ u : World} {asked : Invocation p}
    (hbefore : ReflTransGen (Happens p seizable allowed) w w₁)
    (hafter : ReflTransGen (Happens p seizable allowed) w₂ w')
    (h : Made p seizable allowed w₁ w₂ u clock asked) :
    Made p seizable allowed w w' u clock asked := by
  obtain ⟨u', emitted, hfrom, hallowed, hstep, hto⟩ := h
  exact ⟨u', emitted, hbefore.trans hfrom, hallowed, hstep, hto.trans hafter⟩

/-- **One thing that happens**, seen from a pool. -/
theorem happens_market (hw : Wired p seizable w) (h : Happens p seizable allowed w w')
    (hfree : Unseizable seizable keys) (hm : Holds p w key keys m)
    (hlt : ∀ side, m.vault.get side < 2 ^ 64) :
    ∃ calls, (∀ c ∈ calls, Reaches (Made p seizable allowed w w') key keys c) ∧
      Holds p w' key keys (replay Market.step m calls) := by
  cases h with
  | call clock call emitted hallowed hstep =>
    have hsees := outcome_sees hw (step_outcome hw hstep) hm
    obtain ⟨calls, hcalls, hheld⟩ := hsees.market hm (hw.undelegated hfree) hlt
    refine ⟨calls, ?_, hheld⟩
    intro c hc
    refine (hcalls c hc).mono ?_
    rintro u t asked ⟨rfl, rfl, rfl⟩
    exact ⟨w', emitted, .refl, hallowed, hstep, .refl⟩
  | outside ho => exact outside_market _ ho hfree hm

theorem run_wired (hw : Wired p seizable w)
    (h : ReflTransGen (Happens p seizable allowed) w w') : Wired p seizable w' := by
  induction h with
  | refl => exact hw
  | tail _ hlast ih => exact happens_wired ih hlast

/-- **A run of everything is a run of each pool.** -/
theorem run_market (hw : Wired p seizable w)
    (h : ReflTransGen (Happens p seizable allowed) w w') (hfree : Unseizable seizable keys)
    (hreach : m.Reachable) (hm : Holds p w key keys m) :
    ∃ calls, (∀ c ∈ calls, Reaches (Made p seizable allowed w w') key keys c) ∧
      Holds p w' key keys (replay Market.step m calls) := by
  induction h with
  | refl => exact ⟨[], by simp, hm⟩
  | @tail w₁ w₂ hrun hlast ih =>
    obtain ⟨calls, hcalls, hheld⟩ := ih
    have hlt := (reachable_sound (hreach.replay calls)).vault_lt
    obtain ⟨more, hmore, hheld'⟩ := happens_market (run_wired hw hrun) hlast hfree hheld hlt
    refine ⟨calls ++ more, ?_, ?_⟩
    · intro c hc
      rcases List.mem_append.mp hc with hc | hc
      · exact (hcalls c hc).mono fun _ _ _ => .mono .refl (.single hlast)
      · exact (hmore c hc).mono fun _ _ _ => .mono hrun .refl
    · rwa [replay_append]

/-- A world the program owns nothing in has no pools to be wrong. -/
theorem genesis_wired (h : Genesis seizable w) : Wired p seizable w where
  pool _ _ _ hkey := by cases h.owned _ _ hkey
  apart _ _ _ _ _ _ hkey _ := by cases h.owned _ _ hkey
  config _ _ hkey := by cases h.owned _ _ hkey
  permanent := h.permanent

theorem reachable_wired (h : Reachable p seizable w) : Wired p seizable w := by
  obtain ⟨w₀, hgenesis, hrun⟩ := h
  exact run_wired (genesis_wired hgenesis) hrun

end NomadAmm.Soundness.Refinement
