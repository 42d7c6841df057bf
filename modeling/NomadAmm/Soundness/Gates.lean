import NomadAmm.Soundness.Refinement

/-! What waits for the admin. Until he has signed, the program owns no initialised account; until
he has opened a permission, no pool charges for its creator. -/

namespace NomadAmm.Soundness.Gates

open Lib.Checked Lib.Transition Relation Exec Run World Instructions
open Soundness.Frames Soundness.Representation Soundness.PoolCalls Soundness.PoolCreation
open Soundness.Refinement Soundness.Writes

variable {p : Addresses} {w w' : World} {clock : Clock} {call : Invocation p}
  {emitted : Option Emitted} {allowed : Invocation p → Prop} {key : Pubkey} {keys : PoolKeys}
  {m m' : Market} {seizable : Pubkey → Prop}

/-! ## Nothing without the admin -/

theorem config_none (hg : Genesis seizable w) {c : AmmConfig} :
    w.account key ≠ some (.ammConfig c) := by
  intro h
  cases hg.owned _ _ h

/-- Every other instruction needs an account that only one of the admin's makes. -/
theorem genesis_signed (hg : Genesis seizable w) (h : w.step clock call = .ok (w', emitted)) :
    call.signer.key = adminId := by
  cases hcall : call.pool? with
  | some key =>
    obtain ⟨keys, s, hkey⟩ := pool_found hcall h
    cases hg.owned _ _ hkey
  | none =>
    cases call with
    | createAmmConfig =>
      simp only [World.step, silent, World.createAmmConfig, NomadAmm.createAmmConfig,
        Run.bind_eq_ok, Exec.bind_eq_ok, handler_eq_ok, Exec.require_eq_ok] at h
      obtain ⟨_, ⟨_, -, _, ⟨_, howner, -⟩, -⟩, -⟩ := h
      exact howner
    | updateAmmConfig =>
      simp only [World.step, silent, World.updateAmmConfig, Run.bind_eq_ok,
        ammConfig_eq_ok] at h
      obtain ⟨_, ⟨c, hc, -⟩, -⟩ := h
      exact absurd hc (config_none hg)
    | createPermissionPda =>
      simp only [World.step, silent, World.createPermissionPda, Run.bind_eq_ok, handler_eq_ok,
        Exec.require_eq_ok] at h
      obtain ⟨_, ⟨_, howner, -⟩, -⟩ := h
      exact howner
    | closePermissionPda =>
      simp only [World.step, silent, World.closePermissionPda, Run.bind_eq_ok, handler_eq_ok,
        Exec.require_eq_ok] at h
      obtain ⟨_, ⟨_, -, _, howner, -⟩, -⟩ := h
      exact howner
    | initializePermissionless =>
      simp only [World.step, silent, World.initializePermissionless, World.initializePool,
        Run.bind_eq_ok, ammConfig_eq_ok] at h
      obtain ⟨_, ⟨c, hc, -⟩, -⟩ := h
      exact absurd hc (config_none hg)
    | initializeWithPermission =>
      simp only [World.step, silent, World.initializeWithPermission, World.initializePool,
        Run.bind_eq_ok, ammConfig_eq_ok] at h
      obtain ⟨_, ⟨_, -, _, -, c, hc, -⟩, -⟩ := h
      exact absurd hc (config_none hg)
    | _ => cases hcall

theorem happens_genesis (hg : Genesis seizable w)
    (hadmin : ∀ call, allowed call → call.signer.key ≠ adminId)
    (h : Happens p seizable allowed w w') : Genesis seizable w' := by
  cases h with
  | call clock call emitted hallowed hstep =>
    exact absurd (genesis_signed hg hstep) (hadmin call hallowed)
  | outside ho =>
    refine ⟨?_, ho.permanent⟩
    intro key account hkey
    by_contra hplain
    rw [Bool.not_eq_true] at hplain
    exact absurd (hg.owned _ _ ((ho.owned _ _ hplain).mp hkey)) (by simp [hplain])

/-! ## No creator fee without a permission -/

/-- A pool that charges nothing for its creator. -/
def Free (s : PoolState) : Prop := s.enableCreatorFee = false ∧ s.creatorFees = ⟨0, 0⟩

/-- Adding nothing to an empty counter. -/
theorem set_zero (side : TokenSide) :
    (⟨0, 0⟩ : PerToken Nat).set side ((⟨0, 0⟩ : PerToken Nat).get side + 0) = ⟨0, 0⟩ := by
  cases side <;> rfl

theorem write_free {op : Op} (hfree : Free m.poolState) (h : Write m op m') :
    Free m'.poolState := by
  obtain ⟨hdisabled, hnone⟩ := hfree
  cases h with
  | creatorFees => exact ⟨hdisabled, rfl⟩
  | swap henabled =>
    -- `update_fees` takes no creator fee where it is not enabled
    rcases henabled with henabled | rfl
    · rw [hdisabled] at henabled
      cases henabled
    · refine ⟨hdisabled, ?_⟩
      dsimp only
      rw [hnone]
      exact set_zero _
  | plain lpSupply epoch hconfig hstate =>
    rw [hstate]
    exact ⟨hdisabled, hnone⟩
  | _ => exact ⟨hdisabled, hnone⟩

/-- No permission is open and no pool charges for its creator. -/
structure Unpermitted (w : World) : Prop where
  permission : ∀ key authority, w.account key ≠ some (.permission authority)
  pool : ∀ key keys s, w.account key = some (.poolState keys s) → Free s

/-- Neither does serving a pool open a permission. -/
theorem served_permission {signer : Pubkey} (hserved : Served p w w' signer key keys m)
    {key' authority : Pubkey} (h : w'.account key' = some (.permission authority)) :
    w.account key' = some (.permission authority) := by
  refine hserved.frame.fresh _ _ h rfl ?_
  intro hk
  obtain ⟨account, haccount, -, hnot, -⟩ := hserved.holds.used (.inr hk)
  rw [h, Option.some.injEq] at haccount
  exact hnot authority haccount.symm

theorem served_unpermitted {signer : Pubkey} (hu : Unpermitted w)
    (hserved : Served p w w' signer key keys m) (hfree : Free m.poolState) : Unpermitted w' where
  permission _ _ h := hu.permission _ _ (served_permission hserved h)
  pool := by
    intro key' keys' s h
    rcases served_old hserved h with ⟨rfl, rfl⟩ | hold
    · rw [← (hserved.holds.poolState_eq h).2]
      exact hfree
    · exact hu.pool _ _ _ hold

/-- Writing a config, or closing an account, opens nothing. -/
theorem Unpermitted.of_config (hu : Unpermitted w) {c : AmmConfig} (key : Pubkey) :
    Unpermitted (w.put key (.ammConfig c)) where
  permission := by
    intro key' authority h
    by_cases heq : key' = key
    · rw [heq, put_self] at h
      cases h
    · rw [put_of_ne heq] at h
      exact hu.permission _ _ h
  pool := by
    intro key' keys s h
    by_cases heq : key' = key
    · rw [heq, put_self] at h
      cases h
    · rw [put_of_ne heq] at h
      exact hu.pool _ _ _ h

/-- A pool as the instruction anyone may call creates it. -/
theorem initialize_free {c : AmmConfig} {env : Env} {creator : Pubkey} {args : InitializeArgs}
    {payer : Funds}
    (h : Instructions.initializePool c env creator .bothToken false args payer = .ok m) :
    Free m.poolState := by
  simp only [Instructions.initializePool, Exec.bind_eq_ok, Exec.pure_eq_ok] at h
  obtain ⟨_, -, openTime, -, _, -, _, -, _, -, _, -, liquidity, -, _, -, _, -, _, -, rfl⟩ := h
  exact ⟨rfl, rfl⟩

theorem step_unpermitted (hw : Wired p seizable w) (hu : Unpermitted w)
    (hnone : ∀ a, call ≠ .createPermissionPda a) (h : w.step clock call = .ok (w', emitted)) :
    Unpermitted w' := by
  cases hcall : call.pool? with
  | some key =>
    obtain ⟨keys, s, hkey⟩ := pool_found hcall h
    obtain ⟨m, hm, -⟩ := hw.pool key keys s hkey
    obtain ⟨m', hserved, hacts⟩ := step_served hm hcall h
    obtain ⟨op, -, hwrite⟩ := hacts.write
    exact served_unpermitted hu hserved (write_free (hu.pool _ _ _ hm.pool) hwrite)
  | none =>
    cases call with
    | createAmmConfig =>
      simp only [World.step, silent, World.createAmmConfig, Run.bind_eq_ok, handler_eq_ok,
        create_eq_ok, Run.pure_eq_ok, Prod.mk.injEq] at h
      obtain ⟨_, ⟨_, -, c, -, -, rfl⟩, rfl, -⟩ := h
      exact hu.of_config _
    | updateAmmConfig =>
      simp only [World.step, silent, World.updateAmmConfig, Run.bind_eq_ok, handler_eq_ok,
        Run.pure_eq_ok, Prod.mk.injEq] at h
      obtain ⟨_, ⟨_, -, c, -, rfl⟩, rfl, -⟩ := h
      exact hu.of_config _
    | createPermissionPda a => exact absurd rfl (hnone a)
    | closePermissionPda =>
      simp only [World.step, silent, World.closePermissionPda, Run.bind_eq_ok,
        permission_eq_ok] at h
      obtain ⟨_, ⟨authority, hpermission, -⟩, -⟩ := h
      exact absurd hpermission (hu.permission _ _)
    | initializePermissionless a args =>
      simp only [World.step, silent, World.initializePermissionless, Run.bind_eq_ok,
        Run.pure_eq_ok, Prod.mk.injEq] at h
      obtain ⟨_, h, rfl, -⟩ := h
      obtain ⟨c, env, args', payer, m, -, hm, hcreated⟩ := initializePool_created h
      exact served_unpermitted hu hcreated.served (initialize_free hm)
    | initializeWithPermission =>
      simp only [World.step, silent, World.initializeWithPermission, Run.bind_eq_ok,
        permission_eq_ok] at h
      obtain ⟨_, ⟨authority, hpermission, -⟩, -⟩ := h
      exact absurd hpermission (hu.permission _ _)
    | _ => cases hcall

theorem happens_unpermitted (hw : Wired p seizable w) (hu : Unpermitted w)
    (hnone : ∀ call, allowed call → ∀ a, call ≠ .createPermissionPda a)
    (h : Happens p seizable allowed w w') : Unpermitted w' := by
  cases h with
  | call clock call emitted hallowed hstep =>
    exact step_unpermitted hw hu (hnone call hallowed) hstep
  | outside ho =>
    exact ⟨fun _ _ h => hu.permission _ _ ((ho.owned _ _ rfl).mp h),
      fun _ _ _ h => hu.pool _ _ _ ((ho.owned _ _ rfl).mp h)⟩

/-- **Gates.** In a run from a world the program owns nothing in: without a call signed by
the admin it never owns an initialised account; without a permission created by him no pool
there ever is owes its creator a fee, or can. -/
theorem gated (w₀ w : World) (hgenesis : Genesis seizable w₀)
    (hrun : ReflTransGen (Happens p seizable allowed) w₀ w) :
    ((∀ call, allowed call → call.signer.key ≠ adminId) → Genesis seizable w) ∧
    ((∀ call, allowed call → ∀ a, call ≠ .createPermissionPda a) →
      ∀ key keys s, w.account key = some (.poolState keys s) →
        s.enableCreatorFee = false ∧ s.creatorFees = ⟨0, 0⟩) := by
  constructor
  · intro hadmin
    induction hrun with
    | refl => exact hgenesis
    | tail _ hlast ih => exact happens_genesis ih hadmin hlast
  · intro hnone
    have hall : Wired p seizable w ∧ Unpermitted w := by
      induction hrun with
      | refl =>
        refine ⟨genesis_wired hgenesis, ?_, ?_⟩
        · intro key authority h
          cases hgenesis.owned _ _ h
        · intro key keys s h
          cases hgenesis.owned _ _ h
      | tail _ hlast ih =>
        obtain ⟨hw, hu⟩ := ih
        exact ⟨happens_wired hw hlast, happens_unpermitted hw hu hnone hlast⟩
    exact hall.2.pool

/-- The pool at 300 was made without a permission. -/
theorem gated_exampleWorld : ∃ keys s, exampleWorld.account 300 = some (.poolState keys s) ∧
    s.enableCreatorFee = false ∧ s.creatorFees = ⟨0, 0⟩ := by
  obtain ⟨⟨keys, s⟩, h⟩ := exists_of_isOk
    (show (exampleWorld.poolState 300).toOption.isSome = true by decide +kernel)
  have hkey := poolState_eq_ok.mp h
  have hallowed : ∀ call ∈ exampleCalls,
      ∀ a, call.2 ≠ (.createPermissionPda a : Invocation exampleAddresses) := by
    simp [exampleCalls]
  have hrun := replay_happens (· = 12)
    (fun call : Invocation exampleAddresses => ∀ a, call ≠ .createPermissionPda a)
    exampleCalls hallowed exampleGenesis
  exact ⟨keys, s, hkey, (gated exampleGenesis exampleWorld exampleGenesis_genesis hrun).2
    (fun _ => id) 300 keys s hkey⟩

end NomadAmm.Soundness.Gates
