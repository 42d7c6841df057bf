import Mathlib.Data.Int.ModEq
import NomadAmm.Soundness.ObservationRing

/-! What the difference of two stored observations measures. An entry is amended in
place for fifteen seconds without moving its timestamp, so its sums reach to the end
of that window; the difference of two entries is the weight between their timestamps
exactly when the two windows weigh the same. -/

namespace NomadAmm.Soundness.TimeWeighted

open Lib.RingLog
open Soundness.Timeline Soundness.ObservationRing

/-- The sums of `newer` minus those of `older` are the prices times the elapsed time
fed in from the timestamp of one to that of the other. -/
def Consistent (ticks : List Tick) (older newer : Observation) : Prop :=
  Nat.ModEq (2 ^ 128) newer.cumulativeToken0PriceX32 (older.cumulativeToken0PriceX32 +
    weightBetween Span.weight0 (older.blockTimestamp + 1) (newer.blockTimestamp + 1)
      (schedule ticks).spans) ∧
  Nat.ModEq (2 ^ 128) newer.cumulativeToken1PriceX32 (older.cumulativeToken1PriceX32 +
    weightBetween Span.weight1 (older.blockTimestamp + 1) (newer.blockTimestamp + 1)
      (schedule ticks).spans)

instance (ticks : List Tick) (older newer : Observation) :
    Decidable (Consistent ticks older newer) :=
  inferInstanceAs (Decidable (Nat.ModEq _ _ _ ∧ Nat.ModEq _ _ _))

/-- The weight fed in during the fifteen seconds after an opening at `a`. -/
def windowWeight (weight : Span → Nat) (ticks : List Tick) (a : Nat) : Nat :=
  weightBetween weight (a + 1) (a + observationUpdateDurationDefault) (schedule ticks).spans

def WindowsAgree (ticks : List Tick) (a b : Nat) : Prop :=
  Nat.ModEq (2 ^ 128) (windowWeight Span.weight0 ticks a) (windowWeight Span.weight0 ticks b) ∧
  Nat.ModEq (2 ^ 128) (windowWeight Span.weight1 ticks a) (windowWeight Span.weight1 ticks b)

/-- The weight between two times lies between `lo` and `hi` times their distance. -/
def Averages (weight : Span → Nat) (ticks : List Tick) (lo hi a b : Nat) : Prop :=
  lo * (b - a) ≤ weightBetween weight (a + 1) (b + 1) (schedule ticks).spans ∧
    weightBetween weight (a + 1) (b + 1) (schedule ticks).spans ≤ hi * (b - a)

/-- The sums of an entry, split at its timestamp. -/
theorem weightBefore_window (weight : Span → Nat) (ticks : List Tick) (a : Nat) :
    weightBefore weight (a + observationUpdateDurationDefault) (schedule ticks).spans =
      weightBefore weight (a + 1) (schedule ticks).spans + windowWeight weight ticks a :=
  weightBefore_split _ (Nat.add_le_add_left (by decide) a) _

/-- Calls fifteen seconds apart leave every window empty. -/
theorem windowsAgree_of_apart {ticks : List Tick} {a b : Nat}
    (hapart : ticks.Pairwise fun t u => t.time + observationUpdateDurationDefault ≤ u.time)
    (ha : a ∈ (schedule ticks).openings) (hb : b ∈ (schedule ticks).openings) :
    WindowsAgree ticks a b := by
  have hempty : ∀ weight, ∀ c ∈ (schedule ticks).openings, windowWeight weight ticks c = 0 := by
    intro weight c hc
    unfold windowWeight weightBetween
    rw [List.filter_eq_nil_iff.mpr, List.map_nil, List.sum_nil]
    intro sp hsp
    have hout := stop_outside_window hapart hc hsp
    rw [decide_eq_true_eq]
    omega
  unfold WindowsAgree
  rw [hempty _ a ha, hempty _ b hb, hempty _ a ha, hempty _ b hb]
  exact ⟨rfl, rfl⟩

/-- For one token: equal windows are what is left of the difference. -/
theorem modEq_iff_windows (weight : Span → Nat) (ticks : List Tick) {a b : Nat} (h : a ≤ b) :
    Nat.ModEq (2 ^ 128)
        (weightBefore weight (b + observationUpdateDurationDefault) (schedule ticks).spans %
          2 ^ 128)
        (weightBefore weight (a + observationUpdateDurationDefault) (schedule ticks).spans % 2 ^ 128
          + weightBetween weight (a + 1) (b + 1) (schedule ticks).spans) ↔
      Nat.ModEq (2 ^ 128) (windowWeight weight ticks a) (windowWeight weight ticks b) := by
  have hsplit := weightBefore_split weight (show a + 1 ≤ b + 1 by omega)
    (schedule ticks).spans
  rw [weightBefore_window, weightBefore_window, hsplit]
  unfold Nat.ModEq
  rw [Nat.mod_mod, Nat.mod_add_mod]
  set before := weightBefore weight (a + 1) (schedule ticks).spans
  set between := weightBetween weight (a + 1) (b + 1) (schedule ticks).spans
  rw [show before + windowWeight weight ticks a + between =
    before + between + windowWeight weight ticks a by omega]
  constructor
  · intro heq
    exact (Nat.ModEq.add_left_cancel' (before + between) heq).symm
  · intro heq
    exact (Nat.ModEq.add_left (before + between) heq).symm

/-- **When a pair of observations is consistent.** For any two written entries,
`i` further back than `j`: their difference is the weight between their timestamps
if and only if the windows after the two timestamps weigh the same. The weight itself
always is an average of the prices fed in, times the difference of the timestamps. -/
theorem consistent_iff_windowsAgree (ticks : List Tick) (hfit : ProductsFit ticks)
    (s : ObservationState) (hs : updates .default ticks = .ok s) (i j : Nat) (hji : j < i)
    (hi : i < observationNum)
    (hwritten : Written ticks (back observationNum s.observationIndex i)) :
    ∃ older newer, s.observations[back observationNum s.observationIndex i]? = some older ∧
      s.observations[back observationNum s.observationIndex j]? = some newer ∧
      (schedule ticks).openings[i]? = some older.blockTimestamp ∧
      (schedule ticks).openings[j]? = some newer.blockTimestamp ∧
      (Consistent ticks older newer ↔
        WindowsAgree ticks older.blockTimestamp newer.blockTimestamp) ∧
      ∀ lo hi,
        ((∀ t ∈ ticks, lo ≤ t.token0PriceX32 ∧ t.token0PriceX32 ≤ hi) →
          Averages Span.weight0 ticks lo hi older.blockTimestamp newer.blockTimestamp) ∧
        ((∀ t ∈ ticks, lo ≤ t.token1PriceX32 ∧ t.token1PriceX32 ≤ hi) →
          Averages Span.weight1 ticks lo hi older.blockTimestamp newer.blockTimestamp) := by
  have hne : ticks ≠ [] := by
    rintro rfl
    obtain ⟨before, _, hbefore, hpre, _⟩ := hwritten
    exact hbefore (List.prefix_nil.mp hpre)
  obtain ⟨s', hs', htracks⟩ := updates_tracks hne hfit
  obtain rfl := Except.ok.inj (hs.symm.trans hs')
  obtain ⟨k, hk, hlen, hslot⟩ := written_iff hne hfit hs hwritten
  obtain rfl := back_inj hi hk hslot
  have hjlen : j < (schedule ticks).openings.length := hji.trans hlen
  have hspaced := List.pairwise_iff_getElem.mp (schedule_wellTimed hne).spaced j i hjlen hlen hji
  have hle : (schedule ticks).openings[i] ≤ (schedule ticks).openings[j] :=
    (Nat.le_add_right _ _).trans hspaced
  refine ⟨_, _, htracks.slot hi hlen, htracks.slot (hji.trans hi) hjlen,
    List.getElem?_eq_getElem hlen, List.getElem?_eq_getElem hjlen, ?_, fun lo hi => ⟨?_, ?_⟩⟩
  · exact and_congr (modEq_iff_windows Span.weight0 ticks hle)
      (modEq_iff_windows Span.weight1 ticks hle)
  · intro hprices
    refine weightBetween_openings hne ?_ (List.getElem_mem hlen) (List.getElem_mem hjlen) hle
    intro sp hsp
    obtain ⟨t, ht, h0, -⟩ := span_prices sp hsp
    rw [h0]
    exact hprices t ht
  · intro hprices
    refine weightBetween_openings hne ?_ (List.getElem_mem hlen) (List.getElem_mem hjlen) hle
    intro sp hsp
    obtain ⟨t, ht, -, h1⟩ := span_prices sp hsp
    rw [h1]
    exact hprices t ht

/-- Calls at 100, 120 and 150, at prices that move. -/
def callsApart : List Tick := [⟨100, 1, 9⟩, ⟨120, 3, 2⟩, ⟨150, 2, 5⟩]

/-- Twenty seconds at 3 and thirty at 2 are what lies between the first and the last. -/
theorem consistent_iff_windowsAgree_callsApart :
    ∃ older newer, older.blockTimestamp = 100 ∧ newer.blockTimestamp = 150 ∧
      Consistent callsApart older newer ∧ Averages Span.weight0 callsApart 1 3 100 150 := by
  have hs : ∃ s, updates .default callsApart = .ok s ∧ s.observationIndex = 2 := by
    have hrun : (updates .default callsApart).toOption.map (·.observationIndex) = some 2 := by
      decide +kernel
    cases hs : updates .default callsApart with
    | error e => simp [hs, Except.toOption] at hrun
    | ok s => exact ⟨s, rfl, by simpa [hs, Except.toOption] using hrun⟩
  obtain ⟨s, hs, hidx⟩ := hs
  obtain ⟨older, newer, -, -, holder, hnewer, hiff, haverage⟩ := consistent_iff_windowsAgree
    callsApart (by decide) s hs 2 0 (by decide) (by decide)
    (by rw [hidx]; exact ⟨[⟨100, 1, 9⟩], _, by decide, ⟨_, rfl⟩, rfl, rfl⟩)
  have hold : older.blockTimestamp = 100 := (Option.some.inj holder).symm
  have hnew : newer.blockTimestamp = 150 := (Option.some.inj hnewer).symm
  rw [hold, hnew] at hiff haverage
  exact ⟨older, newer, hold, hnew,
    hiff.mpr (windowsAgree_of_apart (by decide) (by decide) (by decide)),
    (haverage 1 3).1 (by decide)⟩

/-- Calls at 100, 110 and 116, at price one. -/
def threeCalls : List Tick := [⟨100, 1, 1⟩, ⟨110, 1, 1⟩, ⟨116, 1, 1⟩]

theorem threeCalls_run : ∃ s, updates .default threeCalls = .ok s ∧ s.observationIndex = 1 ∧
    s.observations[0]? = some ⟨100, 10, 10⟩ ∧ s.observations[1]? = some ⟨116, 16, 16⟩ := by
  have hrun : (updates .default threeCalls).toOption.map
      (fun s => (s.observationIndex, s.observations[0]?, s.observations[1]?)) =
      some (1, some ⟨100, 10, 10⟩, some ⟨116, 16, 16⟩) := by decide +kernel
  cases hs : updates .default threeCalls with
  | error e => simp [hs, Except.toOption] at hrun
  | ok s =>
    simp only [hs, Except.toOption, Option.map_some, Option.some.injEq, Prod.mk.injEq] at hrun
    exact ⟨s, rfl, hrun⟩

theorem threeCalls_written : Written threeCalls 0 :=
  ⟨[⟨100, 1, 1⟩], _, by decide, ⟨_, rfl⟩, rfl, rfl⟩

/-- **Stored observations are not always consistent with their timestamps.** The sums
of the entries at 100 and 116 differ by 6, where 16 was fed in between. -/
theorem observations_not_consistent :
    ¬ ∀ ticks : List Tick, ticks.Pairwise (fun t u => t.time < u.time) → ProductsFit ticks →
      ∀ s, updates .default ticks = .ok s → ∀ i j, j < i → i < observationNum →
        Written ticks (back observationNum s.observationIndex i) → ∀ older newer,
          s.observations[back observationNum s.observationIndex i]? = some older →
          s.observations[back observationNum s.observationIndex j]? = some newer →
          Consistent ticks older newer := by
  intro h
  obtain ⟨s, hs, hidx, holder, hnewer⟩ := threeCalls_run
  have hbad := h threeCalls (by decide) (by decide) s hs 1 0 (by decide) (by decide)
    (by rw [hidx]; exact threeCalls_written) _ _ (by rw [hidx]; exact holder)
    (by rw [hidx]; exact hnewer)
  revert hbad
  decide

end NomadAmm.Soundness.TimeWeighted
