import NomadAmm.Soundness.Solvency

/-! Where the LP tokens are. The pool counts every LP token that was ever minted and not
redeemed; the mint counts those that still exist. The difference is the locked amount
and what holders burned, and since the locked amount is never redeemed, neither reserve
can be emptied. -/

namespace NomadAmm.Soundness.Supply

open Lib.Transition Exec Instructions
open Soundness.Settlement Soundness.Ledger Soundness.Solvency

variable {m m' : Market}

/-- LP tokens a call burns outside the program. -/
def burnAmount : Op → Nat
  | .burnLp amount _ => amount
  | _ => 0

theorem burnAmount_of_collect {op : Op} (h : isCollect op = true) : burnAmount op = 0 := by
  cases op with
  | burnLp amount held => cases h
  | _ => rfl

/-- The two counts drift apart by burning only. -/
theorem effect_supply {op : Op} (h : Effect m op m') :
    m'.poolState.lpSupply + m.lpMintSupply =
      m.poolState.lpSupply + m'.lpMintSupply + burnAmount op := by
  cases h with
  | updateAmmConfig _ => rfl
  | updatePoolStatus => rfl
  | updatePoolOracle _ _ _ => rfl
  | setOracleKeeper => rfl
  | collect amount toVault hop h =>
    rw [burnAmount_of_collect hop, h.supply, h.mint, Nat.add_zero]
  | deposit h =>
    have hs := h.supply
    have hmint := h.mint
    simp only [burnAmount]
    omega
  | withdraw h =>
    have hs := h.supply
    have hmint := h.mint
    simp only [burnAmount]
    omega
  | swapBaseInput _ hs =>
    rw [hs.supply, hs.mint]
    rfl
  | swapBaseOutput _ hs =>
    rw [hs.supply, hs.mint]
    rfl
  | donate _ _ => rfl
  | burnLp hle =>
    simp only [burnAmount]
    omega

/-- LP tokens burned outside the program in a run. -/
def burned (m : Market) (calls : List Call) : Nat :=
  tally Market.step (fun call => burnAmount call.op) m calls

/-- The books with the burned LP tokens accounted for. -/
structure Accounted (m : Market) (n : Nat) : Prop where
  sound : Sound m
  supply : m.poolState.lpSupply = m.lpMintSupply + lockLpAmount + n

theorem initial_accounted (h : Market.Initial m) : Accounted m 0 := by
  obtain ⟨c, -, hopen⟩ := initial_opened h
  exact ⟨initial_sound h, hopen.supply⟩

theorem step_accounted {call : Call} {e : Event} {n : Nat} (hm : Accounted m n)
    (h : m.step call = .ok (m', e)) : Accounted m' (n + burnAmount call.op) := by
  have heffect := effect_supply (step_effect hm.sound h)
  have hsup := hm.supply
  exact ⟨step_sound hm.sound h, by omega⟩

/-- **LP supply accounting.** Throughout every run the pool counts the LP tokens of the
mint, the locked ones and the burned ones; both reserves stay positive, whatever call
comes next; so no share and no price ever divides by zero. -/
theorem lpSupply_accounted (m₀ : Market) (calls : List Call) (hinit : Market.Initial m₀) :
    let m := replay Market.step m₀ calls
    m.poolState.lpSupply = m.lpMintSupply + lockLpAmount + burned m₀ calls ∧
    lockLpAmount ≤ m.poolState.lpSupply ∧
    (∀ side, 1 ≤ m.net side) ∧
    (∀ call m' e, m.step call = .ok (m', e) → ∀ side, 1 ≤ m'.net side) ∧
    (∃ price, m.poolState.tokenPriceX32 m.vault.token0 m.vault.token1 = .ok price) ∧
    ∀ k dir, k * m.net .token0 < 2 ^ 128 → k * m.net .token1 < 2 ^ 128 →
      ∃ results, CurveCalculator.lpTokensToTradingTokens k m.poolState.lpSupply (m.net .token0)
        (m.net .token1) dir = some results := by
  intro m
  have hrun : Accounted m (0 + burned m₀ calls) :=
    replay_tally (fun _ _ _ _ _ hs h => step_accounted hs h) calls (initial_accounted hinit)
  obtain ⟨hm, hsup⟩ := hrun
  rw [Nat.zero_add] at hsup
  have hlock : lockLpAmount ≤ m.poolState.lpSupply := by omega
  refine ⟨hsup, hlock, hm.net_pos, ?_, ⟨_, tokenPriceX32_of_sound hm⟩, ?_⟩
  · intro call m' e h
    exact (step_sound hm h).net_pos
  · intro k dir h0 h1
    have hne : m.poolState.lpSupply ≠ 0 := Nat.ne_of_gt (Nat.lt_of_lt_of_le (by decide) hlock)
    obtain ⟨share0, hs0⟩ := ConstantProductCurve.tokenShare_of_fits h0 hne dir
    obtain ⟨share1, hs1⟩ := ConstantProductCurve.tokenShare_of_fits h1 hne dir
    exact ⟨⟨share0, share1⟩,
      ConstantProductCurve.lpTokensToTradingTokens_eq_some.mpr ⟨hs0, hs1⟩⟩

/-- Of the example pool's LP tokens 999 999 895 exist once five were burned; all of them
are redeemed, and the pool keeps something of both tokens. -/
theorem lpSupply_accounted_examplePool :
    let calls : List Call := [⟨exampleEnv 1010, .burnLp 5 5⟩,
      ⟨exampleEnv 1020, .withdraw 999999895 0 0 999999895 ⟨false, false⟩⟩]
    let m := replay Market.step examplePool calls
    burned examplePool calls = 5 ∧ m.lpMintSupply = 0 ∧ m.poolState.lpSupply = 105 ∧
      1 ≤ m.net .token0 ∧ 1 ≤ m.net .token1 := by
  intro calls m
  obtain ⟨hsup, -, hnet, -⟩ := lpSupply_accounted examplePool calls examplePool_initial
  have hburned : burned examplePool calls = 5 := by decide +kernel
  have hmint : m.lpMintSupply = 0 := by decide +kernel
  refine ⟨hburned, hmint, ?_, hnet .token0, hnet .token1⟩
  rw [hburned] at hsup
  exact hsup.trans (by rw [hmint]; rfl)

end NomadAmm.Soundness.Supply
