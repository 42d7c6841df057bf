import NomadAmm.Lib.Shares
import NomadAmm.Soundness.Solvency

/-! What an LP token is worth between two oracle pushes. The market refines a book of
shares: every call but a push is a step of the book, and its trades are made at the raw
bid or the raw ask. At any price between the two no step takes value from a share. -/

namespace NomadAmm.Soundness.ShareValue

open Lib.Shares Lib.Transition Exec Instructions
open Soundness.Settlement Soundness.Ledger Soundness.Solvency

variable {m m' : Market} {K : Type} [Field K] [LinearOrder K] [IsStrictOrderedRing K]

/-- The calls that push a quote. -/
def isPush : Op → Bool
  | .updatePoolOracle .. => true
  | _ => false

/-- The market as its LP holders see it. -/
def book (m : Market) : Book := ⟨m.net .token0, m.net .token1, m.poolState.lpSupply⟩

theorem book_positive (hm : Sound m) : (book m).Positive := by
  have hsup := hm.supply
  refine ⟨hm.net_pos .token0, hm.net_pos .token1, ?_⟩
  change 1 ≤ m.poolState.lpSupply
  unfold lockLpAmount at hsup
  omega

/-- The cached quote as raw fractions, with inventory skew off. -/
structure RawQuote (s : PoolState) (bidNum bidDen askNum askDen : Nat) : Prop where
  noSkew : s.inventorySkewEnabled = 0
  bid : s.rawPrice s.effectiveBidMantissa = some (bidNum, bidDen)
  ask : s.rawPrice s.effectiveAskMantissa = some (askNum, askDen)

variable {bidNum bidDen askNum askDen : Nat}

/-- Only what `quoted` keeps is read. -/
theorem RawQuote.congr {s s' : PoolState} (h : RawQuote s bidNum bidDen askNum askDen)
    (hquoted : quoted s' = quoted s) : RawQuote s' bidNum bidDen askNum askDen where
  noSkew := (congrArg PoolState.inventorySkewEnabled hquoted).trans h.noSkew
  bid := (congrArg (fun s => s.rawPrice s.effectiveBidMantissa) hquoted).trans h.bid
  ask := (congrArg (fun s => s.rawPrice s.effectiveAskMantissa) hquoted).trans h.ask

/-- Selling `a` of a token at `n / d` for `o` of the other. -/
def sellsAt (n d a o : Nat) : Prop := o * d ≤ a * n

/-- Without skew a swap is priced at the cached quote of its direction. -/
theorem rawSpot_of_price {inputVault outputVault : TokenSide} {cached : Int × Int × Int}
    {p : Pricing} (hskew : m.poolState.inventorySkewEnabled = 0)
    (hcached : m.poolState.cachedOracleQuote = some cached)
    (hprice : priceSwap m inputVault outputVault cached = .ok p) :
    m.poolState.rawSpot p.params.tradeDirection = some (p.spotNum, p.spotDen) := by
  obtain ⟨-, -, hquote, ⟨canonical, hcanonical, horient⟩, -⟩ := priceSwap_spec hprice
  obtain ⟨-, hbid, hask, hexp⟩ := PoolState.cachedOracleQuote_eq_some.mp hcached
  simp only [PoolState.skewedQuote, hskew, ne_eq, not_true_eq_false, if_false,
    pure_eq_ok] at hquote
  rw [← hquote] at hcanonical
  unfold PoolState.rawSpot
  cases hdir : p.params.tradeDirection with
  | zeroForOne =>
    rw [hdir] at hcanonical horient
    simp only [SkewedQuote.effectiveMantissa, hbid, hexp] at hcanonical
    change (m.poolState.rawPrice m.poolState.effectiveBidMantissa).map _ = _
    rw [PoolState.rawPrice, hcanonical, Option.map_some, horient]
  | oneForZero =>
    rw [hdir] at hcanonical horient
    simp only [SkewedQuote.effectiveMantissa, hask, hexp] at hcanonical
    change (m.poolState.rawPrice m.poolState.effectiveAskMantissa).map _ = _
    rw [PoolState.rawPrice, hcanonical, Option.map_some, horient]

/-- Without skew a swap is priced at the raw bid or at the raw ask. -/
theorem pricing_of_rawQuote {env : Env} {inputVault outputVault : TokenSide} {q : SwapQuote}
    {less swapped : Nat} (hraw : RawQuote m.poolState bidNum bidDen askNum askDen)
    (hq : Quoted m env inputVault outputVault q less swapped) :
    q.pricing.params.tradeDirection = .zeroForOne ∧ q.pricing.spotNum = bidNum ∧
        q.pricing.spotDen = bidDen ∨
      q.pricing.params.tradeDirection = .oneForZero ∧ q.pricing.spotNum = askDen ∧
        q.pricing.spotDen = askNum := by
  obtain ⟨cached, hcached, hprice⟩ := hq.cached
  have hspot := rawSpot_of_price hraw.noSkew hcached hprice
  cases hdir : q.pricing.params.tradeDirection with
  | zeroForOne =>
    simp only [hdir, PoolState.rawSpot, hraw.bid, Option.map_some, TradeDirection.orient,
      Option.some.injEq, Prod.mk.injEq] at hspot
    exact .inl ⟨rfl, hspot.1.symm, hspot.2.symm⟩
  | oneForZero =>
    simp only [hdir, PoolState.rawSpot, hraw.ask, Option.map_some, TradeDirection.orient,
      Option.some.injEq, Prod.mk.injEq] at hspot
    exact .inr ⟨rfl, hspot.1.symm, hspot.2.symm⟩

/-- A swap is a trade of the book. -/
theorem trade_book {env : Env} {inputVault outputVault : TokenSide} {q : SwapQuote}
    {less swapped : Nat} {toVault : Bool} (hm : Sound m)
    (hraw : RawQuote m.poolState bidNum bidDen askNum askDen)
    (hq : Quoted m env inputVault outputVault q less swapped)
    (hs : SwapEffect m m' q.pricing.params.tradeDirection q.pricing.params.isCreatorFeeOnInput
      toVault q.result) :
    Book.Step (sellsAt bidNum bidDen) (sellsAt askDen askNum) (book m) (book m') := by
  obtain ⟨-, htrade⟩ := swap_sound hm hq hs
  obtain ⟨hin, hout, hleft, hspot⟩ := htrade
  rcases pricing_of_rawQuote hraw hq with ⟨hdir, hn, hd⟩ | ⟨hdir, hn, hd⟩
  · rw [hdir] at hin hout hleft
    rw [hn, hd] at hspot
    exact .tradeX less swapped hspot hleft hin hout hs.supply
  · rw [hdir] at hin hout hleft
    rw [hn, hd] at hspot
    exact .tradeY less swapped hspot hleft hin hout hs.supply

/-- **The market refines the book**: every effect but a push is a step of it. -/
theorem effect_book {op : Op} (hm : Sound m)
    (hraw : RawQuote m.poolState bidNum bidDen askNum askDen) (h : Effect m op m') :
    Book.Step (sellsAt bidNum bidDen) (sellsAt askDen askNum) (book m) (book m') := by
  have hm' := effect_sound hm h
  cases h with
  | updateAmmConfig _ => exact .gift le_rfl le_rfl rfl
  | updatePoolStatus => exact .gift le_rfl le_rfl rfl
  | updatePoolOracle _ _ _ => exact .gift le_rfl le_rfl rfl
  | setOracleKeeper => exact .gift le_rfl le_rfl rfl
  | collect amount toVault _ h =>
    have hnet : ∀ side, m.net side ≤ m'.net side := by
      intro side
      have hcov := hm.net_add_owed side
      have hcov' := hm'.net_add_owed side
      have hvault := h.vault side
      have howed := h.owed side
      split at hvault <;> omega
    exact .gift (hnet .token0) (hnet .token1) h.supply
  | @deposit k _ _ _ _ h =>
    have hnet : ∀ side, m.net side + Lib.Rounding.ceilDiv (k * m.net side) m.poolState.lpSupply ≤
        m'.net side := by
      intro side
      have hcov := hm.net_add_owed side
      have hcov' := hm'.net_add_owed side
      have hvault := h.vault side
      have howed := h.owed side
      omega
    exact .join k (hnet .token0) (hnet .token1) h.supply
  | @withdraw k _ _ _ _ _ h =>
    have hnet : ∀ side, m.net side ≤ m'.net side + k * m.net side / m.poolState.lpSupply := by
      intro side
      have hcov := hm.net_add_owed side
      have hcov' := hm'.net_add_owed side
      have hvault := h.vault side
      have howed := h.owed side
      generalize k * m.net side / m.poolState.lpSupply = share at hvault ⊢
      omega
    have hsup := hm.supply
    have hs := h.supply
    have hmint := h.mint
    unfold lockLpAmount at hsup
    refine .leave k ?_ (hnet .token0) (hnet .token1) h.supply
    change k < m.poolState.lpSupply
    omega
  | swapBaseInput hq hs => exact trade_book hm hraw hq hs
  | swapBaseOutput hq hs => exact trade_book hm hraw hq hs
  | @donate given _ _ credited _ =>
    have hnet : ∀ side, m.net side ≤
        ({ m with vault := m.vault.set given (m.vault.get given + credited) } : Market).net
          side := by
      intro side
      simp only [Market.net, Market.owed, PerToken.get_set]
      by_cases hside : side = given
      · rw [if_pos hside, hside]
        omega
      · rw [if_neg hside]
    exact .gift (hnet .token0) (hnet .token1) rfl
  | burnLp _ => exact .gift le_rfl le_rfl rfl

/-- No effect but a push changes what prices depend on. -/
theorem effect_quoted {op : Op} (hop : isPush op = false) (h : Effect m op m') :
    quoted m'.poolState = quoted m.poolState := by
  cases h with
  | updateAmmConfig _ => rfl
  | updatePoolStatus => rfl
  | updatePoolOracle _ _ _ => cases hop
  | setOracleKeeper => rfl
  | collect _ _ _ h => exact h.quoted
  | deposit h => exact h.quoted
  | withdraw h => exact h.quoted
  | swapBaseInput _ hs => exact hs.quoted
  | swapBaseOutput _ hs => exact hs.quoted
  | donate _ _ => rfl
  | burnLp _ => rfl

/-- Nor does a run without a push. -/
theorem replay_quoted (hm : Sound m) (calls : List Call)
    (hpush : ∀ call ∈ calls, isPush call.op = false) :
    quoted (replay Market.step m calls).poolState = quoted m.poolState := by
  refine replay_related (I := Sound) (R := fun m m' => quoted m'.poolState = quoted m.poolState)
    (fun _ _ _ _ hs h => step_sound hs h) ?_ ?_ ?_ calls hm hpush
  · intro m _
    rfl
  · intro r s t _ _ _ hrs hst
    exact hst.trans hrs
  · intro s call s' w hs hop h
    exact effect_quoted hop (step_effect hs h)

/-! ## The value of a share over a run -/

/-- A price no lower than the raw bid and no higher than the raw ask. -/
structure Between (p : K) (bidNum bidDen askNum askDen : Nat) : Prop where
  bid : (bidNum : K) ≤ p * bidDen
  ask : p * askDen ≤ askNum
  bid_pos : 0 < bidDen
  ask_pos : 0 < askDen

theorem Between.nonneg {p : K} (hp : Between p bidNum bidDen askNum askDen) : 0 ≤ p := by
  have hden : (0 : K) < bidDen := by exact_mod_cast hp.bid_pos
  have hnum : (0 : K) ≤ p * bidDen := (Nat.cast_nonneg _).trans hp.bid
  exact nonneg_of_mul_nonneg_left hnum hden

/-- Selling token_0 at the raw bid gains nothing at a price from the bid up. -/
theorem Between.sellX {p : K} (hp : Between p bidNum bidDen askNum askDen) {a o : Nat}
    (h : sellsAt bidNum bidDen a o) : (o : K) * 1 ≤ a * p := by
  have hden : (0 : K) < bidDen := by exact_mod_cast hp.bid_pos
  have hterms : (o : K) * bidDen ≤ a * bidNum := by exact_mod_cast h
  have hbid : (a : K) * bidNum ≤ a * (p * bidDen) :=
    mul_le_mul_of_nonneg_left hp.bid (Nat.cast_nonneg _)
  refine le_of_mul_le_mul_right ?_ hden
  linarith

/-- Buying token_0 at the raw ask gains nothing at a price from the ask down. -/
theorem Between.sellY {p : K} (hp : Between p bidNum bidDen askNum askDen) {a o : Nat}
    (h : sellsAt askDen askNum a o) : (o : K) * p ≤ a * 1 := by
  have hden : (0 : K) < askDen := by exact_mod_cast hp.ask_pos
  have hterms : (o : K) * askNum ≤ a * askDen := by exact_mod_cast h
  have hask : (o : K) * (p * askDen) ≤ o * askNum :=
    mul_le_mul_of_nonneg_left hp.ask (Nat.cast_nonneg _)
  refine le_of_mul_le_mul_right ?_ hden
  linarith

/-- What two markets of a run have to do with each other: the same prices, and at the
quote of the first no loss per share. -/
def Keeps (bidNum bidDen askNum askDen : Nat) (p : K) (m m' : Market) : Prop :=
  quoted m'.poolState = quoted m.poolState ∧
    (RawQuote m.poolState bidNum bidDen askNum askDen → Book.WorthLe p 1 (book m) (book m'))

theorem replay_keeps {p : K} (hp : Between p bidNum bidDen askNum askDen) (hm : Sound m)
    (calls : List Call) (hpush : ∀ call ∈ calls, isPush call.op = false) :
    Keeps bidNum bidDen askNum askDen p m (replay Market.step m calls) := by
  refine replay_related (I := Sound)
    (fun _ _ _ _ hs h => step_sound hs h) ?_ ?_ ?_ calls hm hpush
  · intro m hm
    exact ⟨rfl, fun _ => le_rfl⟩
  · intro r s t _ hs _ hrs hst
    refine ⟨hst.1.trans hrs.1, ?_⟩
    intro hraw
    exact (hrs.2 hraw).trans (book_positive hs) (hst.2 (hraw.congr hrs.1))
  · intro s call s' w hs hop h
    have heffect := step_effect hs h
    refine ⟨effect_quoted hop heffect, ?_⟩
    intro hraw
    exact (effect_book hs hraw heffect).worthLe hp.nonneg zero_le_one (fun _ _ => hp.sellX)
      (fun _ _ => hp.sellY) (book_positive hs)

/-- **LP share value never falls between oracle pushes.** In a reachable pool without
skew, at any price from the raw bid to the raw ask, one LP token is worth no less after
more calls than after fewer, as long as none of them pushes a quote. -/
theorem shareValue_mono (m : Market) (hm : m.Reachable)
    (hskew : m.poolState.inventorySkewEnabled = 0) (bidNum bidDen askNum askDen : Nat)
    (hbid : m.poolState.rawPrice m.poolState.effectiveBidMantissa = some (bidNum, bidDen))
    (hask : m.poolState.rawPrice m.poolState.effectiveAskMantissa = some (askNum, askDen))
    (p : K) (hpbid : (bidNum : K) / bidDen ≤ p) (hpask : p ≤ (askNum : K) / askDen)
    (before after : List Call) (hpush : ∀ call ∈ before ++ after, isPush call.op = false) :
    let m₁ := replay Market.step m before
    let m₂ := replay Market.step m (before ++ after)
    (m₁.net .token0 * p + m₁.net .token1) * m₂.poolState.lpSupply ≤
      (m₂.net .token0 * p + m₂.net .token1) * m₁.poolState.lpSupply := by
  intro m₁ m₂
  have hbden : (0 : K) < bidDen := by exact_mod_cast pythPriceToRawFraction_pos hbid
  have haden : (0 : K) < askDen := by exact_mod_cast pythPriceToRawFraction_pos hask
  have hp : Between p bidNum bidDen askNum askDen :=
    ⟨(div_le_iff₀ hbden).mp hpbid, (le_div_iff₀ haden).mp hpask,
      pythPriceToRawFraction_pos hbid, pythPriceToRawFraction_pos hask⟩
  have hsound := reachable_sound hm
  have hfirst := replay_keeps hp hsound before fun call hcall =>
    hpush call (List.mem_append_left _ hcall)
  have hsecond := replay_keeps hp (replay_sound hsound before) after fun call hcall =>
    hpush call (List.mem_append_right _ hcall)
  rw [← replay_append] at hsecond
  have hraw : RawQuote m₁.poolState bidNum bidDen askNum askDen :=
    RawQuote.congr ⟨hskew, hbid, hask⟩ hfirst.1
  have hworth := hsecond.2 hraw
  simpa [Book.WorthLe, Book.value, book, m₁, m₂] using hworth

/-- Quoted at 0.999 / 1.001, at the price one: a swap, a deposit and a withdrawal after it
leave an LP token worth no less. -/
theorem shareValue_mono_examplePool :
    let m := replay Market.step examplePool [examplePush 99900000 100100000 0]
    let swap := exampleSwap 1100 .token0 .token1 50000000
    let m₁ := replay Market.step m [swap]
    let m₂ := replay Market.step m
      [swap, ⟨exampleEnv 1110, .deposit 1000 2000 2000 ⟨2000, 2000⟩⟩,
        ⟨exampleEnv 1120, .withdraw 700 0 0 1000 ⟨false, false⟩⟩]
    ((m₁.net .token0 * 1 + m₁.net .token1 : ℚ)) * m₂.poolState.lpSupply ≤
      (m₂.net .token0 * 1 + m₂.net .token1) * m₁.poolState.lpSupply := by
  intro m swap
  exact shareValue_mono m (examplePool_reachable.replay [_]) rfl 99900000 100000000 100100000
    100000000 (by decide +kernel) (by decide +kernel) (1 : ℚ) (by norm_num) (by norm_num) [swap]
    [_, _] (by decide +kernel)

end NomadAmm.Soundness.ShareValue
