import NomadAmm.Soundness.Timeline

/-! The observation ring holds, for the newest hundred openings of the schedule, the
weight of the spans that end within fifteen seconds of them, modulo `2 ^ 128`. From
this one correspondence follow the invariants of the ring over every run. -/

namespace NomadAmm.Soundness.ObservationRing

open Lib.Checked Lib.RingLog Exec
open Soundness.Timeline

/-- `ObservationState.update` called once for every tick. -/
def updates (s : ObservationState) (ticks : List Tick) : Exec ObservationState :=
  ticks.foldlM (fun s t => s.update t.time t.token0PriceX32 t.token1PriceX32) s

theorem updates_snoc (s : ObservationState) (ticks : List Tick) (t : Tick) :
    updates s (ticks ++ [t]) =
      updates s ticks >>= fun s => s.update t.time t.token0PriceX32 t.token1PriceX32 := by
  simp [updates]

/-- What the ring stores for an opening at `a`. -/
def entry (spans : List Span) (a : Nat) : Observation :=
  ⟨a, weightBefore Span.weight0 (a + observationUpdateDurationDefault) spans % 2 ^ 128,
    weightBefore Span.weight1 (a + observationUpdateDurationDefault) spans % 2 ^ 128⟩

/-- The state of the ring is the one the schedule asks for. -/
structure Tracks (s : ObservationState) (c : Schedule) : Prop where
  initialized : s.initialized = true
  latest : s.lastUpdateTimestamp = c.latest
  ring : Holds s.observations s.observationIndex (c.openings.map (entry c.spans))

/-- Both products of an accepted span fit `u128`. -/
def SpanFits (sp : Span) : Prop := sp.weight0 < 2 ^ 128 ∧ sp.weight1 < 2 ^ 128

/-- The runs whose price and elapsed time never overflow when multiplied. -/
def ProductsFit (ticks : List Tick) : Prop := ∀ sp ∈ (schedule ticks).spans, SpanFits sp

instance (ticks : List Tick) : Decidable (ProductsFit ticks) :=
  inferInstanceAs
    (Decidable (∀ sp ∈ (schedule ticks).spans, sp.weight0 < 2 ^ 128 ∧ sp.weight1 < 2 ^ 128))

variable {s s' : ObservationState} {c : Schedule} {t : Tick} {ticks : List Tick} {first : Nat}

/-- Walking back `k` slots finds the entry of the `k`th opening. -/
theorem Tracks.slot {k : Nat} (h : Tracks s c) (hk : k < observationNum)
    (hlen : k < c.openings.length) :
    s.observations[back observationNum s.observationIndex k]? =
      some (entry c.spans c.openings[k]) := by
  refine h.ring.entries k hk _ ?_
  rw [List.getElem?_map, List.getElem?_eq_getElem hlen]
  rfl

/-! ## One call -/

/-- The first call of a fresh account starts the schedule. -/
theorem update_default (t : Tick) :
    ∃ s, ObservationState.default.update t.time t.token0PriceX32 t.token1PriceX32 = .ok s ∧
      Tracks s (Schedule.start t) := by
  refine ⟨_, rfl, rfl, rfl, ?_⟩
  exact Holds.start (n := observationNum) (i := 0) (by decide)

/-- The state an accepted call leaves: the open slot amended, or the next one written. -/
def advance (s : ObservationState) (last : Observation) (time delta0 delta1 : Nat) :
    ObservationState :=
  if time - last.blockTimestamp < observationUpdateDurationDefault then
    { s with
      observations := s.observations.setIfInBounds s.observationIndex
        (last.carry last.blockTimestamp delta0 delta1)
      lastUpdateTimestamp := time }
  else
    { s with
      observationIndex := forward observationNum s.observationIndex
      observations := s.observations.setIfInBounds (forward observationNum s.observationIndex)
        (last.carry time delta0 delta1)
      lastUpdateTimestamp := time }

section

variable {last : Observation} {time p0 p1 : Nat} (hinit : s.initialized = true)
  (hlast : s.observations[s.observationIndex]? = some last)
  (hle : last.blockTimestamp ≤ s.lastUpdateTimestamp)

include hle in
/-- The legacy branch finds the last update where it is. -/
theorem legacy_eq : (if s.lastUpdateTimestamp = 0 then last.blockTimestamp
    else s.lastUpdateTimestamp) = s.lastUpdateTimestamp := by
  split
  · omega
  · rfl

include hinit hlast hle

theorem update_of_late (h : time ≤ s.lastUpdateTimestamp) : s.update time p0 p1 = .ok s := by
  have hlegacy := legacy_eq hle
  obtain ⟨initialized, index, observations, lastUpdate⟩ := s
  obtain rfl : initialized = true := hinit
  simp only [ObservationState.update, hlast, Exec.unwrap, hlegacy, bind, Except.bind,
    Bool.true_eq_false, if_false]
  rw [if_pos (.inl (by dsimp only at h; omega))]
  rfl

theorem update_of_fits (h : s.lastUpdateTimestamp < time)
    (h0 : p0 * (time - s.lastUpdateTimestamp) < 2 ^ 128)
    (h1 : p1 * (time - s.lastUpdateTimestamp) < 2 ^ 128) :
    s.update time p0 p1 = .ok (advance s last time (p0 * (time - s.lastUpdateTimestamp))
      (p1 * (time - s.lastUpdateTimestamp))) := by
  have hlegacy := legacy_eq hle
  obtain ⟨initialized, index, observations, lastUpdate⟩ := s
  obtain rfl : initialized = true := hinit
  dsimp only at h h0 h1 hle
  simp only [ObservationState.update, hlast, Exec.unwrap, hlegacy, bind, Except.bind,
    Bool.true_eq_false, if_false]
  rw [if_neg (by omega)]
  simp only [ObservationState.accumulate, checkedMul, h0, h1, if_true, okOr, bind, Except.bind,
    advance]
  split <;> rfl

end

/-- A later span leaves the weights of an opening alone that is past its window. -/
theorem entry_cons_old {sp : Span} {spans : List Span} {a : Nat}
    (h : a + observationUpdateDurationDefault ≤ sp.stop) :
    entry (sp :: spans) a = entry spans a := by
  simp only [entry, weightBefore_cons_ge h]

/-- A span within the window of an opening is carried on into its entry. -/
theorem entry_cons_new {sp : Span} {spans : List Span} {a : Nat}
    (h : sp.stop < a + observationUpdateDurationDefault) :
    entry (sp :: spans) a = (entry spans a).carry a sp.weight0 sp.weight1 := by
  simp only [entry, Observation.carry, weightBefore_cons_lt h, wrappingAdd, Nat.mod_add_mod,
    Nat.add_comm]

/-- An opening later than every span carries on what the previous opening holds. -/
theorem entry_opening {sp : Span} {spans : List Span} {a : Nat}
    (hall : ∀ sp ∈ spans, sp.stop < a + observationUpdateDurationDefault) (hle : a ≤ sp.stop) :
    entry (sp :: spans) sp.stop = (entry spans a).carry sp.stop sp.weight0 sp.weight1 := by
  have hall' : ∀ u ∈ spans, u.stop < sp.stop + observationUpdateDurationDefault :=
    fun u hu => (hall u hu).trans_le (Nat.add_le_add_right hle _)
  rw [entry_cons_new (Nat.lt_add_of_pos_right (by decide))]
  simp only [entry, Observation.carry, weightBefore_all hall, weightBefore_all hall']

/-- What a call does to a tracked ring: nothing when it comes late, else it advances. -/
theorem Tracks.update_cases (h : Tracks s c) (hw : WellTimed first c)
    (hfit : ∀ sp ∈ (c.record t).spans, SpanFits sp) :
    ∃ a rest, c.openings = a :: rest ∧
      (t.time ≤ c.latest ∧ s.update t.time t.token0PriceX32 t.token1PriceX32 = .ok s ∨
        c.latest < t.time ∧ s.update t.time t.token0PriceX32 t.token1PriceX32 =
          .ok (advance s (entry c.spans a) t.time (t.token0PriceX32 * (t.time - c.latest))
            (t.token1PriceX32 * (t.time - c.latest)))) := by
  obtain ⟨a, rest, ha, hale, hwin⟩ := hw.open_le
  have hring := h.ring
  rw [ha, List.map_cons] at hring
  have hle : (entry c.spans a).blockTimestamp ≤ s.lastUpdateTimestamp := by
    rw [h.latest]
    exact hale
  refine ⟨a, rest, ha, ?_⟩
  rcases Nat.lt_or_ge c.latest t.time with hlt | hlate
  · rw [record_of_lt ha hlt] at hfit
    obtain ⟨hf0, hf1⟩ := hfit _ List.mem_cons_self
    refine .inr ⟨hlt, ?_⟩
    rw [← h.latest] at hlt hf0 hf1 ⊢
    exact update_of_fits h.initialized hring.newest hle hlt hf0 hf1
  · refine .inl ⟨hlate, ?_⟩
    rw [← h.latest] at hlate
    exact update_of_late h.initialized hring.newest hle hlate

/-- Advancing the ring is recording in the schedule. -/
theorem Tracks.advance {a : Nat} {rest : List Nat} (h : Tracks s c) (hw : WellTimed first c)
    (ha : c.openings = a :: rest) (hlt : c.latest < t.time) :
    Tracks (advance s (entry c.spans a) t.time (t.token0PriceX32 * (t.time - c.latest))
      (t.token1PriceX32 * (t.time - c.latest))) (c.record t) := by
  have hring := h.ring
  have hspaced := hw.spaced
  rw [ha, List.map_cons] at hring
  rw [ha] at hspaced
  obtain ⟨a', rest', ha', hale, hwin⟩ := hw.open_le
  obtain ⟨rfl, rfl⟩ := List.cons.inj (ha.symm.trans ha')
  rw [record_of_lt ha hlt]
  set sp : Span := ⟨c.latest, t.time, t.token0PriceX32, t.token1PriceX32⟩
  have hrest : rest.map (entry (sp :: c.spans)) = rest.map (entry c.spans) := by
    refine List.map_congr_left fun b hb => entry_cons_old ?_
    have := (List.pairwise_cons.mp hspaced).1 b hb
    dsimp only [sp]
    omega
  unfold ObservationRing.advance
  by_cases hd : t.time - a < observationUpdateDurationDefault
  · -- the window of the newest opening is still open
    have hcarry : entry (sp :: c.spans) a = (entry c.spans a).carry a sp.weight0 sp.weight1 :=
      entry_cons_new (by dsimp only [sp]; omega)
    rw [if_pos (show t.time - (entry c.spans a).blockTimestamp < _ from hd), if_pos hd]
    refine ⟨h.initialized, rfl, ?_⟩
    rw [List.map_cons, hrest, hcarry]
    exact hring.amend
  · have hcarry : entry (sp :: c.spans) sp.stop =
        (entry c.spans a).carry sp.stop sp.weight0 sp.weight1 :=
      entry_opening (fun u hu => (hw.stops u hu).trans_lt hwin) (by dsimp only [sp]; omega)
    have hold : entry (sp :: c.spans) a = entry c.spans a :=
      entry_cons_old (by dsimp only [sp]; omega)
    rw [if_neg (show ¬ t.time - (entry c.spans a).blockTimestamp < _ from hd), if_neg hd]
    refine ⟨h.initialized, rfl, ?_⟩
    rw [List.map_cons, List.map_cons, hrest, hold, show t.time = sp.stop from rfl, hcarry]
    exact hring.push

/-- The index of a tracked ring stays with its newest opening. -/
structure Moves (s s' : ObservationState) (c : Schedule) (t : Tick) : Prop where
  latest_le : s.lastUpdateTimestamp ≤ s'.lastUpdateTimestamp
  index : s'.observationIndex = s.observationIndex ∧ (c.record t).openings = c.openings ∨
    s'.observationIndex = forward observationNum s.observationIndex ∧
      (c.record t).openings = t.time :: c.openings
  others : ∀ i : Nat, i ≠ s'.observationIndex → s'.observations[i]? = s.observations[i]?

theorem Moves.advance {a : Nat} {rest : List Nat} {d0 d1 : Nat} (h : Tracks s c)
    (ha : c.openings = a :: rest) (hlt : c.latest < t.time) :
    Moves s (advance s (entry c.spans a) t.time d0 d1) c t := by
  rw [← h.latest] at hlt
  unfold ObservationRing.advance
  by_cases hd : t.time - a < observationUpdateDurationDefault
  · rw [if_pos (show t.time - (entry c.spans a).blockTimestamp < _ from hd)]
    refine ⟨hlt.le, .inl ⟨rfl, ?_⟩, fun i hi => set_other (Ne.symm hi)⟩
    rw [record_of_lt ha (h.latest ▸ hlt), if_pos hd, ha]
  · rw [if_neg (show ¬ t.time - (entry c.spans a).blockTimestamp < _ from hd)]
    refine ⟨hlt.le, .inr ⟨rfl, ?_⟩, fun i hi => set_other (Ne.symm hi)⟩
    rw [record_of_lt ha (h.latest ▸ hlt), if_neg hd, ha]

/-- **One call keeps the correspondence** and touches at most one slot. -/
theorem Tracks.update (h : Tracks s c) (hw : WellTimed first c)
    (hfit : ∀ sp ∈ (c.record t).spans, SpanFits sp) :
    ∃ s', s.update t.time t.token0PriceX32 t.token1PriceX32 = .ok s' ∧
      Tracks s' (c.record t) ∧ Moves s s' c t := by
  obtain ⟨a, rest, ha, ⟨hlate, hok⟩ | ⟨hlt, hok⟩⟩ := h.update_cases hw hfit
  · refine ⟨s, hok, by rwa [record_of_le hlate], le_rfl, .inl ⟨rfl, ?_⟩, fun _ _ => rfl⟩
    rw [record_of_le hlate]
  · exact ⟨_, hok, h.advance hw ha hlt, Moves.advance h ha hlt⟩

/-! ## Whole runs -/

theorem ProductsFit.of_snoc (h : ProductsFit (ticks ++ [t])) : ProductsFit ticks := by
  intro sp hsp
  rcases eq_or_ne ticks [] with rfl | hne
  · simp [schedule] at hsp
  · refine h sp ?_
    rw [schedule_snoc hne]
    unfold Schedule.record
    split
    · exact hsp
    · exact List.mem_cons_of_mem _ hsp

/-- **Every run whose products fit succeeds and tracks its schedule.** -/
theorem updates_tracks (hne : ticks ≠ []) (hfit : ProductsFit ticks) :
    ∃ s, updates .default ticks = .ok s ∧ Tracks s (schedule ticks) := by
  induction ticks using List.reverseRecOn with
  | nil => exact absurd rfl hne
  | append_singleton ticks t ih =>
    rcases eq_or_ne ticks [] with rfl | hticks
    · obtain ⟨s, hs, htracks⟩ := update_default t
      refine ⟨s, ?_, htracks⟩
      rw [updates_snoc]
      exact hs
    · obtain ⟨s, hs, htracks⟩ := ih hticks hfit.of_snoc
      have hrec : ∀ sp ∈ ((schedule ticks).record t).spans, SpanFits sp := by
        rw [← schedule_snoc hticks]
        exact hfit
      obtain ⟨s', hs', htracks', _⟩ := htracks.update (schedule_wellTimed hticks) hrec
      refine ⟨s', ?_, by rwa [schedule_snoc hticks]⟩
      rw [updates_snoc, hs]
      exact hs'

/-- A slot some call of the run wrote: the index every call leaves is one. -/
def Written (ticks : List Tick) (slot : Nat) : Prop :=
  ∃ before s, before ≠ [] ∧ before <+: ticks ∧ updates .default before = .ok s ∧
    s.observationIndex = slot

/-- A whole turn but one slot back is one slot forward. -/
theorem back_last {i : Nat} (hi : i < observationNum) :
    back observationNum i (observationNum - 1) = forward observationNum i := by
  have hn : observationNum = 100 := rfl
  unfold back forward
  split <;> split <;> omega

/-- The slots written so far are the ones an opening is found in, walking back. -/
theorem written_iff (hne : ticks ≠ []) (hfit : ProductsFit ticks)
    (hs : updates .default ticks = .ok s) {slot : Nat} (h : Written ticks slot) :
    ∃ k, k < observationNum ∧ k < (schedule ticks).openings.length ∧
      slot = back observationNum s.observationIndex k := by
  have hn : observationNum = 100 := rfl
  induction ticks using List.reverseRecOn generalizing s with
  | nil => exact absurd rfl hne
  | append_singleton ticks t ih =>
    obtain ⟨before, sb, hbne, hpre, hsb, rfl⟩ := h
    obtain ⟨a, rest, ha, -⟩ := (schedule_wellTimed hne).open_le
    rcases List.prefix_concat_iff.mp hpre with rfl | hpre
    · obtain rfl := Except.ok.inj (hs.symm.trans hsb)
      exact ⟨0, by omega, by rw [ha]; exact Nat.succ_pos _, (back_zero _ _).symm⟩
    · have hticks : ticks ≠ [] := by
        rintro rfl
        exact hbne (List.prefix_nil.mp hpre)
      obtain ⟨s0, hs0, htracks⟩ := updates_tracks hticks hfit.of_snoc
      obtain ⟨k, hk, hlen, hslot⟩ := ih hticks hfit.of_snoc hs0 ⟨before, sb, hbne, hpre, hsb, rfl⟩
      have hrec : ∀ sp ∈ ((schedule ticks).record t).spans, SpanFits sp := by
        rw [← schedule_snoc hticks]
        exact hfit
      obtain ⟨s', hs', _, hmoves⟩ := htracks.update (schedule_wellTimed hticks) hrec
      rw [updates_snoc, hs0] at hs
      obtain rfl := Except.ok.inj (hs'.symm.trans hs)
      have hi := htracks.ring.index
      rw [schedule_snoc hticks]
      rcases hmoves.index with ⟨hidx, hopen⟩ | ⟨hidx, hopen⟩
      · exact ⟨k, hk, by rwa [hopen], by rw [hidx, hslot]⟩
      · rw [hidx, hopen, hslot]
        rcases Nat.lt_or_ge (k + 1) observationNum with hlt | hge
        · exact ⟨k + 1, hlt, Nat.succ_lt_succ hlen, (back_forward hi hlt).symm⟩
        · -- a whole turn back is the slot just written
          refine ⟨0, by omega, Nat.succ_pos _, ?_⟩
          rw [back_zero, show k = observationNum - 1 by omega, back_last hi]

/-- The invariants of the ring after a run. Entries are met walking back from the
index, as long as their slot was written. -/
structure RingSound (ticks : List Tick) (s : ObservationState) : Prop where
  index : s.observationIndex < observationNum
  spaced : ∀ k, k + 1 < observationNum →
    Written ticks (back observationNum s.observationIndex (k + 1)) →
    ∃ newer older, s.observations[back observationNum s.observationIndex k]? = some newer ∧
      s.observations[back observationNum s.observationIndex (k + 1)]? = some older ∧
      older.blockTimestamp + observationUpdateDurationDefault ≤ newer.blockTimestamp
  newest : ∃ o, s.observations[s.observationIndex]? = some o ∧
    o.blockTimestamp ≤ s.lastUpdateTimestamp ∧
    s.lastUpdateTimestamp < o.blockTimestamp + observationUpdateDurationDefault ∧
    o.cumulativeToken0PriceX32 = ((schedule ticks).spans.map Span.weight0).sum % 2 ^ 128 ∧
    o.cumulativeToken1PriceX32 = ((schedule ticks).spans.map Span.weight1).sum % 2 ^ 128
  /-- The last update is the latest time, and the spans tile the time up to it. -/
  latest : s.lastUpdateTimestamp = (schedule ticks).latest
  tiled : (schedule ticks).spans.IsChain (fun newer older => older.stop = newer.start)
  lengths : ((schedule ticks).spans.map Span.elapsed).sum =
    s.lastUpdateTimestamp - firstTime ticks

theorem Tracks.ringSound (hne : ticks ≠ []) (hfit : ProductsFit ticks)
    (hs : updates .default ticks = .ok s) (h : Tracks s (schedule ticks)) : RingSound ticks s := by
  have hw := schedule_wellTimed hne
  obtain ⟨a, rest, ha, hale, hwin⟩ := hw.open_le
  have hring := h.ring
  refine ⟨hring.index, ?_, ?_, h.latest, hw.tiled, ?_⟩
  · intro k hk hwritten
    obtain ⟨k', hk', hlen, hslot⟩ := written_iff hne hfit hs hwritten
    obtain rfl := back_inj hk hk' hslot
    have hlen' : k < (schedule ticks).openings.length := by omega
    refine ⟨_, _, h.slot (by omega) hlen', h.slot hk hlen, ?_⟩
    exact List.pairwise_iff_getElem.mp hw.spaced k (k + 1) hlen' hlen (by omega)
  · rw [ha, List.map_cons] at hring
    have hall : ∀ sp ∈ (schedule ticks).spans, sp.stop < a + observationUpdateDurationDefault :=
      fun sp hsp => (hw.stops sp hsp).trans_lt hwin
    refine ⟨_, hring.newest, by rw [h.latest]; exact hale, by rw [h.latest]; exact hwin, ?_, ?_⟩
    · rw [← weightBefore_all hall]
      rfl
    · rw [← weightBefore_all hall]
      rfl
  · rw [h.latest]
    exact hw.lengths

/-- **The observation ring over whole runs.** Every run of `update` from a fresh
account whose products fit succeeds; after each call the ring is sound, and the
next call moves the last update forward only and changes at most one slot. -/
theorem updates_ringSound (ticks : List Tick) (hfit : ProductsFit ticks) :
    ∃ s, updates .default ticks = .ok s ∧ (ticks ≠ [] → RingSound ticks s) ∧
      ∀ t, ProductsFit (ticks ++ [t]) →
        ∃ s', s.update t.time t.token0PriceX32 t.token1PriceX32 = .ok s' ∧
          updates .default (ticks ++ [t]) = .ok s' ∧
          s.lastUpdateTimestamp ≤ s'.lastUpdateTimestamp ∧
          ∃ slot, ∀ i : Nat, i ≠ slot → s'.observations[i]? = s.observations[i]? := by
  rcases eq_or_ne ticks [] with rfl | hne
  · refine ⟨.default, rfl, fun h => absurd rfl h, ?_⟩
    intro t _
    exact ⟨_, rfl, rfl, Nat.zero_le _, 0, fun i hi => set_other (Ne.symm hi)⟩
  · obtain ⟨s, hs, htracks⟩ := updates_tracks hne hfit
    refine ⟨s, hs, fun _ => htracks.ringSound hne hfit hs, ?_⟩
    intro t hfit'
    have hrec : ∀ sp ∈ ((schedule ticks).record t).spans, SpanFits sp := by
      rw [← schedule_snoc hne]
      exact hfit'
    obtain ⟨s', hs', _, hmoves⟩ := htracks.update (schedule_wellTimed hne) hrec
    refine ⟨s', hs', ?_, hmoves.latest_le, s'.observationIndex, hmoves.others⟩
    rw [updates_snoc, hs]
    exact hs'

/-- The run of three calls at 100, 110 and 116, with a fourth at 131. -/
theorem updates_ringSound_fourCalls :
    ∃ s, updates .default [⟨100, 5, 7⟩, ⟨110, 5, 7⟩, ⟨116, 5, 7⟩] = .ok s ∧
      RingSound [⟨100, 5, 7⟩, ⟨110, 5, 7⟩, ⟨116, 5, 7⟩] s ∧
      ∃ s', s.update 131 5 7 = .ok s' ∧ s.lastUpdateTimestamp ≤ s'.lastUpdateTimestamp := by
  obtain ⟨s, hs, hsound, hnext⟩ :=
    updates_ringSound [⟨100, 5, 7⟩, ⟨110, 5, 7⟩, ⟨116, 5, 7⟩] (by decide)
  obtain ⟨s', hs', _, hle, _⟩ := hnext ⟨131, 5, 7⟩ (by decide)
  exact ⟨s, hs, hsound (by decide), s', hs', hle⟩

end NomadAmm.Soundness.ObservationRing
