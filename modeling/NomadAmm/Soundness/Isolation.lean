import NomadAmm.Soundness.Refinement

/-! Nobody's business on other pools reaches a pool. Calls that are neither on it nor
about its config leave what it is quoted at, what it owes and what it counts alone. -/

namespace NomadAmm.Soundness.Isolation

open Lib.Transition Relation World
open Soundness.Representation Soundness.Ledger Soundness.Solvency Soundness.Refinement

variable {p : Addresses} {key : Pubkey} {keys : PoolKeys} {m m' : Market}
  {made : World → Clock → Invocation p → Prop} {allowed : Invocation p → Prop}
  {seizable : Pubkey → Prop}

/-- Nothing but a vault that gained and LP tokens that are gone. -/
structure Spared (m m' : Market) : Prop where
  ammConfig : m'.ammConfig = m.ammConfig
  poolState : m'.poolState = m.poolState
  observationState : m'.observationState = m.observationState
  vault : ∀ side, m.vault.get side ≤ m'.vault.get side
  lpMintSupply : m'.lpMintSupply ≤ m.lpMintSupply

theorem Spared.refl (m : Market) : Spared m m := ⟨rfl, rfl, rfl, fun _ => le_rfl, le_rfl⟩

theorem Spared.trans {m'' : Market} (h : Spared m m') (h' : Spared m' m'') : Spared m m'' where
  ammConfig := h'.ammConfig.trans h.ammConfig
  poolState := h'.poolState.trans h.poolState
  observationState := h'.observationState.trans h.observationState
  vault side := (h.vault side).trans (h'.vault side)
  lpMintSupply := h'.lpMintSupply.trans h.lpMintSupply

/-- What reaches a pool unasked spares it. -/
theorem reaches_spared {call : Call} {event : Event} (hm : Sound m)
    (hnone : ∀ u clock asked, made u clock asked → ¬asked.Concerns key keys.ammConfig)
    (hreach : Reaches made key keys call) (h : m.step call = .ok (m', event)) :
    Spared m m' := by
  cases hreach with
  | call hmade hconcerns _ => exact absurd hconcerns (hnone _ _ _ hmade)
  | gift hgift =>
    obtain ⟨side, amount, rfl⟩ := hgift
    simp only [Market.step, gift, Market.quiet, Market.donate, Exec.bind_eq_ok,
      Exec.pure_eq_ok, Prod.mk.injEq] at h
    obtain ⟨_, ⟨held, hheld, rfl⟩, rfl, -⟩ := h
    refine ⟨rfl, rfl, rfl, ?_, le_rfl⟩
    intro side'
    rw [PerToken.get_set]
    split
    · next heq =>
      rw [heq]
      obtain ⟨credited, -, -, rfl⟩ := transferFromUserToPoolVault_spec (hm.vault_lt side) hheld
      exact Nat.le_add_right _ _
    · exact le_rfl
  | burn =>
    simp only [Market.step, Market.quiet, Market.burnLp, Exec.bind_eq_ok, tokenBurn_eq_ok,
      Exec.pure_eq_ok, Prod.mk.injEq] at h
    obtain ⟨_, ⟨supply, ⟨-, -, rfl⟩, rfl⟩, rfl, -⟩ := h
    exact ⟨rfl, rfl, rfl, fun _ => le_rfl, Nat.sub_le _ _⟩

theorem run_spared (hm : Sound m)
    (hnone : ∀ u clock asked, made u clock asked → ¬asked.Concerns key keys.ammConfig)
    (calls : List Call) (hcalls : ∀ call ∈ calls, Reaches made key keys call) :
    Spared m (replay Market.step m calls) := by
  refine replay_related (I := Sound) (R := Spared) (fun _ _ _ _ hs h => step_sound hs h) ?_ ?_ ?_
    calls hm hcalls
  · exact fun s _ => .refl s
  · exact fun _ _ _ _ _ _ => .trans
  · exact fun _ _ _ _ hs hreach h => reaches_spared hs hnone hreach h

/-- There is a pool at 300, of the tokens 10 and 11. -/
theorem exampleWorld_pool : ∃ keys s, exampleWorld.account 300 = some (.poolState keys s) ∧
    Unseizable (· = 12) keys := by
  have hmints : (exampleWorld.poolState 300).toOption.map (fun r => r.1.tokenMint) =
      some ⟨10, 11⟩ := by
    decide +kernel
  obtain ⟨⟨keys, s⟩, h, hkeys⟩ := Run.exists_of_map hmints
  refine ⟨keys, s, poolState_eq_ok.mp h, ?_⟩
  intro side
  rw [hkeys]
  cases side <;> decide

/-- **Isolation.** A run in which no call is on a pool or about its config leaves the pool,
its config and its observations as they were, its vaults with at least what they held and
its LP tokens at most as many, as long as no mint of the pool has a permanent delegate. -/
theorem isolated (w w' : World) (hw : w.Reachable p seizable)
    (hrun : ReflTransGen (Happens p seizable allowed) w w') (key : Pubkey) (keys : PoolKeys)
    (s : PoolState) (hkey : w.account key = some (.poolState keys s))
    (hfree : Unseizable seizable keys)
    (hnone : ∀ call, allowed call → ¬call.Concerns key keys.ammConfig) :
    ∃ m m', Holds p w key keys m ∧ Holds p w' key keys m' ∧ m.poolState = s ∧ Spared m m' := by
  have hwired := reachable_wired hw
  obtain ⟨m, hm, hreach⟩ := hwired.pool key keys s hkey
  obtain ⟨calls, hcalls, hheld⟩ := run_market hwired hrun hfree (hreach hfree) hm
  have hspared : Spared m (replay Market.step m calls) := by
    refine run_spared (reachable_sound (hreach hfree)) ?_ calls hcalls
    rintro u clock asked ⟨_, _, _, hallowed, -⟩
    exact hnone asked hallowed
  exact ⟨m, _, hm, hheld, (hm.poolState_eq hkey).2, hspared⟩

/-- A trade on the pool at 400 leaves the one at 300 alone. -/
theorem isolated_exampleTrades : ∃ keys s m m',
    exampleWorld.account 300 = some (.poolState keys s) ∧
      Holds exampleAddresses exampleWorld 300 keys m ∧
      Holds exampleAddresses (replay World.stepAt exampleWorld exampleTrades) 300 keys m' ∧
      m.poolState = s ∧ Spared m m' := by
  obtain ⟨keys, s, hkey, hfree⟩ := exampleWorld_pool
  have hallowed : ∀ call ∈ exampleTrades, call.2.pool? = some 400 := by
    simp [exampleTrades, Invocation.pool?, exampleTrader]
  obtain ⟨m, m', hm, hm', hstate, hspared⟩ := isolated exampleWorld _ exampleWorld_reachable
    (replay_happens _ _ exampleTrades hallowed exampleWorld) 300 keys s hkey hfree
    fun call hcall => Invocation.not_concerns_of_pool hcall (by decide)
  exact ⟨keys, s, m, m', hkey, hm, hm', hstate, hspared⟩

end NomadAmm.Soundness.Isolation
