import NomadAmm.Soundness.Refinement

/-! Whose tokens the program can move. A call takes from accounts its signer may spend
from, as owner, delegate or permanent delegate of the mint, and from vaults of the pool it
is on; everyone else can only be given tokens. -/

namespace NomadAmm.Soundness.Custody

open Lib.Transition Relation World
open Soundness.Frames Soundness.Representation Soundness.PoolCalls Soundness.PoolCreation
open Soundness.Refinement

variable {p : Addresses} {w w' : World} {clock : Clock} {call : Invocation p}
  {emitted : Option Emitted} {allowed : Invocation p → Prop} {seizable : Pubkey → Prop}

/-- A vault of a pool. -/
def IsPoolVault (w : World) (k : Pubkey) : Prop :=
  ∃ key keys s side, w.account key = some (.poolState keys s) ∧ k = keys.vault.get side

/-- **What a call takes from whom.** -/
theorem outcome_frame (h : Outcome p w w' clock call emitted) :
    ∃ written, Frame written (fun k => Spends w call.signer.key k ∨ IsPoolVault w k) w w' := by
  cases h with
  | @pool key keys m m' hm hcall hserved hacts =>
    refine ⟨_, hserved.frame.mono (fun _ => id) ?_⟩
    rintro k (hspends | ⟨side, hside⟩)
    · exact .inl hspends
    · exact .inr ⟨key, keys, _, side, hm.pool, hside⟩
  | @creation a m hinit hcreated hsigner =>
    refine ⟨_, (Frame.refl w).trans_of hcreated.served.frame ?_⟩
    rintro k t ht (hspends | ⟨side, rfl⟩)
    · rw [hsigner]
      exact .inl hspends
    · rw [hcreated.vault_none side] at ht
      cases ht
  | @config a param value remaining c c' hcall hc hc' hput =>
    subst hput
    exact ⟨_, (config_frame hc).mono (fun _ => id) fun _ => False.elim⟩
  | elsewhere hold hnew hf => exact ⟨_, hf.mono (fun _ => id) fun _ => False.elim⟩

/-- A token account between two moments: still there, with nothing taken and nobody let in. -/
structure Safe (t t' : TokenAccount) : Prop where
  mint : t'.mint = t.mint
  owner : t'.owner = t.owner
  delegate : t'.delegate = t.delegate ∨ t'.delegate = none
  amount : t.amount ≤ t'.amount

theorem Safe.trans {t t' t'' : TokenAccount} (h : Safe t t') (h' : Safe t' t'') : Safe t t'' where
  mint := h'.mint.trans h.mint
  owner := h'.owner.trans h.owner
  delegate := by
    rcases h'.delegate with hsame | hnone
    · rw [hsame]
      exact h.delegate
    · exact .inr hnone
  amount := h.amount.trans h'.amount

/-- Someone who signs nothing loses nothing, and those who may spend do not get more. -/
theorem called_safe (hw : Wired p seizable w) (h : Called p allowed w w') {key : Pubkey}
    {t : TokenAccount} (ht : w.account key = some (.token t)) (howner : t.owner ≠ p.authority)
    (hsigner : ∀ call, allowed call → ¬Spends w call.signer.key key) :
    (∃ t', w'.account key = some (.token t') ∧ Safe t t') ∧
      ∀ signer, Spends w' signer key → Spends w signer key := by
  obtain ⟨clock, call, emitted, hallowed, hstep⟩ := h
  obtain ⟨written, hf⟩ := outcome_frame (step_outcome hw hstep)
  refine ⟨?_, fun signer hspends => hspends.of_frame hf ht⟩
  obtain ⟨t', ht', hmint, howner', hdelegate, hle, -⟩ := hf.token key t ht
  refine ⟨t', ht', hmint, howner', hdelegate, hle ?_⟩
  rintro (hspends | ⟨key₁, keys, s, side, hkey, rfl⟩)
  · exact hsigner call hallowed hspends
  · obtain ⟨m, hm, -⟩ := hw.pool _ _ _ hkey
    exact (hm.vault side).ne_of_owner ht howner rfl

/-- **Custody.** In any run of calls that nobody signs who may spend from a token account,
neither its owner nor its delegate nor the permanent delegate of its mint, on whatever pools
and whatever accounts are passed to them, the account keeps its mint and owner, gets no
other delegate and loses no token. -/
theorem custody (w w' : World) (hw : w.Reachable p seizable)
    (hrun : ReflTransGen (Called p allowed) w w') (key : Pubkey) (t : TokenAccount)
    (ht : w.account key = some (.token t)) (howner : t.owner ≠ p.authority)
    (hsigner : ∀ call, allowed call → ¬Spends w call.signer.key key) :
    ∃ t', w'.account key = some (.token t') ∧ Safe t t' := by
  have hall : Wired p seizable w' ∧ (∃ t', w'.account key = some (.token t') ∧ Safe t t') ∧
      ∀ signer, Spends w' signer key → Spends w signer key := by
    induction hrun with
    | refl => exact ⟨reachable_wired hw, ⟨t, ht, rfl, rfl, .inl rfl, le_rfl⟩, fun _ => id⟩
    | tail _ hlast ih =>
      obtain ⟨hwired, ⟨t₁, ht₁, hsafe⟩, hspends⟩ := ih
      obtain ⟨⟨t', ht', hsafe'⟩, hspends'⟩ := called_safe hwired hlast ht₁ (hsafe.owner ▸ howner)
        fun call hallowed h => hsigner call hallowed (hspends _ h)
      exact ⟨happens_wired hwired (hlast.happens seizable), ⟨t', ht', hsafe.trans hsafe'⟩,
        fun signer h => hspends signer (hspends' signer h)⟩
  exact hall.2.1

/-- The maker of the pools, while another trades. -/
theorem custody_exampleTrades : ∃ t', (replay stepAt exampleWorld exampleTrades).account 20 =
    some (.token t') ∧ Safe ⟨10, 7, 1000000000, none, 0, 0⟩ t' := by
  have htoken : exampleWorld.token 20 = .ok ⟨10, 7, 1000000000, none, 0, 0⟩ := by decide +kernel
  have hmint : (exampleWorld.mint 10).toOption.map (·.permanentDelegate) = some none := by
    decide +kernel
  obtain ⟨mint, hmint, hnone⟩ := Run.exists_of_map hmint
  have hkey := token_eq_ok.mp htoken
  have hallowed : ∀ call ∈ exampleTrades, call.2.signer.key ≠ 7 := by
    simp [exampleTrades, Invocation.signer, exampleTrader]
  refine custody exampleWorld _ exampleWorld_reachable
    (replay_called (·.signer.key ≠ 7) exampleTrades hallowed exampleWorld) 20 _ hkey (by decide) ?_
  rintro call hcall ⟨t, ht, hmay⟩
  rw [hkey, Option.some.injEq, Account.token.injEq] at ht
  subst ht
  rcases hmay with howner | hdelegate | ⟨a, ha, hpermanent⟩
  · exact hcall howner.symm
  · cases hdelegate
  · rw [mint_eq_ok.mp hmint, Option.some.injEq, Account.mint.injEq] at ha
    rw [← ha, hnone] at hpermanent
    cases hpermanent

end NomadAmm.Soundness.Custody
