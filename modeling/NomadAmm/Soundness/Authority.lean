import NomadAmm.Soundness.Refinement

/-! Who can change what of a pool, over whole runs. What a pool was created with stays; the
config, the status and the keeper are the admin's; the quote is the keeper's; and what is
owed to somebody only falls when he, or the admin for the first two kinds, collects it. -/

namespace NomadAmm.Soundness.Authority

open Lib.Transition Relation
open Soundness.Representation Soundness.Refinement Soundness.Writes

variable {p : Addresses} {w w' : World} {clock : Clock} {call : Invocation p} {key : Pubkey}
  {keys : PoolKeys} {m m' : Market} {signs seizable : Pubkey → Prop}
  {allowed : Invocation p → Prop}

/-- A pool without what trading and liquidity write. -/
def administered (s : PoolState) : PoolState :=
  { s with
    lpSupply := 0, recentEpoch := 0
    protocolFees := ⟨0, 0⟩, fundFees := ⟨0, 0⟩, creatorFees := ⟨0, 0⟩ }

/-- A pool with nothing but what it was created with. -/
def created (s : PoolState) : PoolState :=
  { administered s with
    status := 0, oracleKeeper := 0
    effectiveBidMantissa := 0, effectiveAskMantissa := 0, priceExponent := 0
    dynamicFeeRate := 0, lastOracleUpdateSlot := 0, lastOracleUpdateUnix := 0 }

/-- **What can have changed**, by who signed. -/
structure Governed (signs : Pubkey → Prop) (m m' : Market) : Prop where
  created : created m'.poolState = created m.poolState
  admin : ¬signs adminId → m'.ammConfig = m.ammConfig ∧
    m'.poolState.status = m.poolState.status ∧
    m'.poolState.oracleKeeper = m.poolState.oracleKeeper
  quote : ¬signs adminId → ¬signs m.poolState.oracleKeeper →
    administered m'.poolState = administered m.poolState
  protocolFees : ¬signs adminId → ¬signs m.ammConfig.protocolOwner →
    ∀ side, m.poolState.protocolFees.get side ≤ m'.poolState.protocolFees.get side
  fundFees : ¬signs adminId → ¬signs m.ammConfig.fundOwner →
    ∀ side, m.poolState.fundFees.get side ≤ m'.poolState.fundFees.get side
  creatorFees : ¬signs m.poolState.poolCreator →
    ∀ side, m.poolState.creatorFees.get side ≤ m'.poolState.creatorFees.get side

theorem Governed.refl (m : Market) : Governed signs m m where
  created := rfl
  admin _ := ⟨rfl, rfl, rfl⟩
  quote _ _ := rfl
  protocolFees _ _ _ := le_rfl
  fundFees _ _ _ := le_rfl
  creatorFees _ _ := le_rfl

theorem Governed.poolCreator (h : Governed signs m m') :
    m'.poolState.poolCreator = m.poolState.poolCreator := by
  have hsame : (Authority.created m'.poolState).poolCreator =
      (Authority.created m.poolState).poolCreator := by rw [h.created]
  exact hsame

/-- The owners are those of the config, which only the admin changes. -/
theorem Governed.trans {m'' : Market} (h : Governed signs m m') (h' : Governed signs m' m'') :
    Governed signs m m'' where
  created := h'.created.trans h.created
  admin hadmin := by
    obtain ⟨hconfig, hstatus, hkeeper⟩ := h.admin hadmin
    obtain ⟨hconfig', hstatus', hkeeper'⟩ := h'.admin hadmin
    exact ⟨hconfig'.trans hconfig, hstatus'.trans hstatus, hkeeper'.trans hkeeper⟩
  quote hadmin hkeeper := by
    have hkeeper' : ¬signs m'.poolState.oracleKeeper := by rwa [(h.admin hadmin).2.2]
    exact (h'.quote hadmin hkeeper').trans (h.quote hadmin hkeeper)
  protocolFees hadmin howner side := by
    have howner' : ¬signs m'.ammConfig.protocolOwner := by rwa [(h.admin hadmin).1]
    exact (h.protocolFees hadmin howner side).trans (h'.protocolFees hadmin howner' side)
  fundFees hadmin howner side := by
    have howner' : ¬signs m'.ammConfig.fundOwner := by rwa [(h.admin hadmin).1]
    exact (h.fundFees hadmin howner side).trans (h'.fundFees hadmin howner' side)
  creatorFees hcreator side := by
    have hcreator' : ¬signs m'.poolState.poolCreator := by rwa [h.poolCreator]
    exact (h.creatorFees hcreator side).trans (h'.creatorFees hcreator' side)

/-- Trading and liquidity, which nobody in particular signs: counters only grow. -/
theorem Governed.of_administered (hconfig : m'.ammConfig = m.ammConfig)
    (hsame : administered m'.poolState = administered m.poolState)
    (hp : ∀ side, m.poolState.protocolFees.get side ≤ m'.poolState.protocolFees.get side)
    (hf : ∀ side, m.poolState.fundFees.get side ≤ m'.poolState.fundFees.get side)
    (hc : ∀ side, m.poolState.creatorFees.get side ≤ m'.poolState.creatorFees.get side) :
    Governed signs m m' where
  created := by
    have hcreated : Authority.created (administered m'.poolState) =
        Authority.created (administered m.poolState) := by rw [hsame]
    exact hcreated
  admin _ := by
    have hstatus : (administered m'.poolState).status = (administered m.poolState).status := by
      rw [hsame]
    have hkeeper : (administered m'.poolState).oracleKeeper =
        (administered m.poolState).oracleKeeper := by rw [hsame]
    exact ⟨hconfig, hstatus, hkeeper⟩
  quote _ _ := hsame
  protocolFees _ _ := hp
  fundFees _ _ := hf
  creatorFees _ := hc

/-- A counter that a swap adds to. -/
theorem le_set_add (fees : PerToken Nat) (side : TokenSide) (fee : Nat) (side' : TokenSide) :
    fees.get side' ≤ (fees.set side (fees.get side + fee)).get side' := by
  rw [PerToken.get_set]
  split
  · next h =>
    rw [h]
    exact Nat.le_add_right _ _
  · exact le_rfl

/-- **One step**, by whom it is signed. -/
theorem write_governed {op : Op} (hsigner : ∀ k, signer? op = some k → signs k)
    (h : Write m op m') : Governed signs m m' := by
  cases h with
  | ammConfig =>
    have hadmin := hsigner adminId rfl
    exact ⟨rfl, fun hn => absurd hadmin hn, fun _ _ => rfl, fun _ _ _ => le_rfl,
      fun _ _ _ => le_rfl, fun _ _ => le_rfl⟩
  | status =>
    have hadmin := hsigner adminId rfl
    exact ⟨rfl, fun hn => absurd hadmin hn, fun hn => absurd hadmin hn, fun _ _ _ => le_rfl,
      fun _ _ _ => le_rfl, fun _ _ => le_rfl⟩
  | quote =>
    have hkeeper := hsigner _ rfl
    exact ⟨rfl, fun _ => ⟨rfl, rfl, rfl⟩, fun _ hn => absurd hkeeper hn, fun _ _ _ => le_rfl,
      fun _ _ _ => le_rfl, fun _ _ => le_rfl⟩
  | oracleKeeper =>
    have hadmin := hsigner adminId rfl
    exact ⟨rfl, fun hn => absurd hadmin hn, fun hn => absurd hadmin hn, fun _ _ _ => le_rfl,
      fun _ _ _ => le_rfl, fun _ _ => le_rfl⟩
  | protocolFees howner =>
    have hsigned := hsigner _ rfl
    refine ⟨rfl, fun _ => ⟨rfl, rfl, rfl⟩, fun _ _ => rfl, ?_, fun _ _ _ => le_rfl,
      fun _ _ => le_rfl⟩
    intro hadmin hn
    rcases howner with rfl | rfl
    · exact absurd hsigned hn
    · exact absurd hsigned hadmin
  | fundFees howner =>
    have hsigned := hsigner _ rfl
    refine ⟨rfl, fun _ => ⟨rfl, rfl, rfl⟩, fun _ _ => rfl, fun _ _ _ => le_rfl, ?_,
      fun _ _ => le_rfl⟩
    intro hadmin hn
    rcases howner with rfl | rfl
    · exact absurd hsigned hn
    · exact absurd hsigned hadmin
  | creatorFees =>
    have hsigned := hsigner _ rfl
    exact ⟨rfl, fun _ => ⟨rfl, rfl, rfl⟩, fun _ _ => rfl, fun _ _ _ => le_rfl,
      fun _ _ _ => le_rfl, fun hn => absurd hsigned hn⟩
  | swap => exact .of_administered rfl rfl (le_set_add _ _ _) (le_set_add _ _ _) (le_set_add _ _ _)
  | plain lpSupply epoch hconfig hstate =>
    obtain ⟨_, _, _, _, _⟩ := m'
    subst hstate
    exact .of_administered hconfig rfl (fun _ => le_rfl) (fun _ => le_rfl) fun _ => le_rfl

/-- The signature a pool checks is the one on the call. -/
theorem asks_signer {op : Op} (h : call.Asks op) {k : Pubkey} (hk : signer? op = some k) :
    k = call.signer.key := by
  cases h <;> simp_all [signer?, Invocation.signer]

/-- Who can sign a call on the pool, or about its config. -/
def Signs (allowed : Invocation p → Prop) (key : Pubkey) (keys : PoolKeys) (k : Pubkey) : Prop :=
  ∃ call, allowed call ∧ call.Concerns key keys.ammConfig ∧ call.signer.key = k

/-- Vaults and LP tokens are nobody's entitlement here. -/
theorem Governed.of_vault (held : PerToken Nat) (supply : Nat) :
    Governed signs m { m with vault := held, lpMintSupply := supply } :=
  .of_administered rfl rfl (fun _ => le_rfl) (fun _ => le_rfl) fun _ => le_rfl

/-- What a call changes of a pool, its signer is entitled to. -/
theorem sees_governed (h : Sees p w w' clock call key keys m) (hm : Holds p w key keys m)
    (hallowed : allowed call) :
    ∃ m', Holds p w' key keys m' ∧ Governed (Signs allowed key keys) m m' := by
  cases h with
  | @own m' _ hm' hconcerns hacts =>
    obtain ⟨op, hasks, hwrite⟩ := hacts.write
    refine ⟨m', hm', write_governed ?_ hwrite⟩
    intro k hk
    exact ⟨call, hallowed, hconcerns, (asks_signer hasks hk).symm⟩
  | framed hf huses hvault =>
    obtain ⟨held, hheld, -⟩ := hm.framed hf huses
    exact ⟨_, hheld, .of_vault held m.lpMintSupply⟩

theorem happens_governed (hw : Wired p seizable w) (h : World.Happens p seizable allowed w w')
    (hm : Holds p w key keys m) :
    ∃ m', Holds p w' key keys m' ∧ Governed (Signs allowed key keys) m m' := by
  cases h with
  | call clock call emitted hallowed hstep =>
    exact sees_governed (outcome_sees hw (step_outcome hw hstep) hm) hm hallowed
  | outside ho =>
    obtain ⟨held, supply, hheld, -⟩ := outside_holds ho hm
    exact ⟨_, hheld, .of_vault held supply⟩

theorem run_governed (hw : Wired p seizable w)
    (hrun : ReflTransGen (World.Happens p seizable allowed) w w') (hm : Holds p w key keys m) :
    ∃ m', Holds p w' key keys m' ∧ Governed (Signs allowed key keys) m m' := by
  induction hrun with
  | refl => exact ⟨m, hm, .refl m⟩
  | tail hbefore hlast ih =>
    obtain ⟨m₁, hm₁, hgoverned⟩ := ih
    obtain ⟨m₂, hm₂, hgoverned'⟩ := happens_governed (run_wired hw hbefore) hlast hm₁
    exact ⟨m₂, hm₂, hgoverned.trans hgoverned'⟩

/-- **Authority.** Over any run, among all other pools and everything outside the program,
a pool changes only by what those who signed calls on it are entitled to, and what a
permanent delegate of one of its mints does to its vaults changes nothing of that. -/
theorem governed (w w' : World) (hw : w.Reachable p seizable)
    (hrun : ReflTransGen (World.Happens p seizable allowed) w w')
    (key : Pubkey) (keys : PoolKeys) (s : PoolState)
    (hkey : w.account key = some (.poolState keys s)) :
    ∃ m m', Holds p w key keys m ∧ Holds p w' key keys m' ∧ m.poolState = s ∧
      Governed (Signs allowed key keys) m m' := by
  have hwired := reachable_wired hw
  obtain ⟨m, hm, -⟩ := hwired.pool key keys s hkey
  obtain ⟨m', hm', hgoverned⟩ := run_governed hwired hrun hm
  exact ⟨m, m', hm, hm', (hm.poolState_eq hkey).2, hgoverned⟩

/-- A keeper and a trader can do nothing to the config, the status or the keeper of the pool
at 400, and the creator is owed no less. -/
theorem governed_exampleTrades : ∃ keys s m', exampleWorld.account 400 = some (.poolState keys s) ∧
    Holds exampleAddresses (replay World.stepAt exampleWorld exampleTrades) 400 keys m' ∧
    m'.poolState.status = s.status ∧ m'.poolState.oracleKeeper = s.oracleKeeper ∧
    ∀ side, s.creatorFees.get side ≤ m'.poolState.creatorFees.get side := by
  have hread : (exampleWorld.poolState 400).toOption.map (fun r => r.2.poolCreator) = some 7 := by
    decide +kernel
  obtain ⟨⟨keys, s⟩, h, hcreator⟩ := Run.exists_of_map hread
  have hkey := World.poolState_eq_ok.mp h
  have hallowed : ∀ call ∈ exampleTrades, call.2.signer.key = 8 ∨ call.2.signer.key = 9 := by
    simp [exampleTrades, Invocation.signer, exampleTrader]
  obtain ⟨m, m', -, hm', rfl, hgoverned⟩ := governed exampleWorld _ exampleWorld_reachable
    (World.replay_happens _ (fun call => call.signer.key = 8 ∨ call.signer.key = 9) exampleTrades
      hallowed exampleWorld) 400 keys s hkey
  obtain ⟨-, hstatus, hkeeper⟩ := hgoverned.admin (by
    rintro ⟨call, hcall, -, heq⟩
    rw [heq] at hcall
    exact absurd hcall (by decide))
  refine ⟨keys, _, m', hkey, hm', hstatus, hkeeper, hgoverned.creatorFees ?_⟩
  rintro ⟨call, hcall, -, heq⟩
  rw [heq, hcreator] at hcall
  exact absurd hcall (by decide)

end NomadAmm.Soundness.Authority
