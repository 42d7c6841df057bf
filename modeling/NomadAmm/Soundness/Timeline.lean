import Mathlib.Data.List.Chain
import Mathlib.Algebra.BigOperators.Ring.List
import Mathlib.Algebra.Order.BigOperators.Group.List
import Mathlib.Algebra.Order.Ring.Nat
import NomadAmm.States.Oracle

/-! What the times and prices fed to the observation ring determine by themselves,
with no ring and no overflow: which times open an observation, and over which
spans which prices are weighed. This is the abstract record the ring is compared
with. -/

namespace NomadAmm.Soundness.Timeline

/-- The arguments of one call of `ObservationState.update`. -/
structure Tick where
  time : Nat
  token0PriceX32 : Nat
  token1PriceX32 : Nat
  deriving DecidableEq, Repr

/-- An interval and the prices it is weighed with. -/
structure Span where
  start : Nat
  stop : Nat
  token0PriceX32 : Nat
  token1PriceX32 : Nat
  deriving DecidableEq, Repr

def Span.elapsed (sp : Span) : Nat := sp.stop - sp.start

def Span.weight0 (sp : Span) : Nat := sp.token0PriceX32 * sp.elapsed

def Span.weight1 (sp : Span) : Nat := sp.token1PriceX32 * sp.elapsed

/-- `latest` is the latest time so far, `openings` are the times that open an
observation and `spans` the intervals between accepted calls, newest first. -/
structure Schedule where
  latest : Nat
  openings : List Nat
  spans : List Span
  deriving DecidableEq, Repr

def Schedule.start (t : Tick) : Schedule := ⟨t.time, [t.time], []⟩

/-- A call no later than the latest one is not accepted; an accepted one opens an
observation once the newest is fifteen seconds old. -/
def Schedule.record (c : Schedule) (t : Tick) : Schedule :=
  if t.time ≤ c.latest then c
  else
    { latest := t.time
      openings := if t.time - c.openings.headD 0 < observationUpdateDurationDefault then c.openings
        else t.time :: c.openings
      spans := ⟨c.latest, t.time, t.token0PriceX32, t.token1PriceX32⟩ :: c.spans }

def schedule : List Tick → Schedule
  | [] => ⟨0, [], []⟩
  | t :: ticks => ticks.foldl Schedule.record (Schedule.start t)

/-- The weight of the spans that end before `bound`. -/
def weightBefore (weight : Span → Nat) (bound : Nat) (spans : List Span) : Nat :=
  ((spans.filter (fun sp => sp.stop < bound)).map weight).sum

theorem schedule_snoc {ticks : List Tick} (hne : ticks ≠ []) (t : Tick) :
    schedule (ticks ++ [t]) = (schedule ticks).record t := by
  cases ticks with
  | nil => exact absurd rfl hne
  | cons a ticks => simp [schedule, List.foldl_append]

/-- The first time of a run. -/
def firstTime : List Tick → Nat
  | [] => 0
  | t :: _ => t.time

theorem firstTime_snoc {ticks : List Tick} (hne : ticks ≠ []) (t : Tick) :
    firstTime (ticks ++ [t]) = firstTime ticks := by
  cases ticks with
  | nil => exact absurd rfl hne
  | cons a ticks => rfl

/-! ## Weights -/

variable {weight : Span → Nat} {bound : Nat} {sp : Span} {spans : List Span}

theorem weightBefore_cons_lt (h : sp.stop < bound) :
    weightBefore weight bound (sp :: spans) = weight sp + weightBefore weight bound spans := by
  simp [weightBefore, h]

theorem weightBefore_cons_ge (h : bound ≤ sp.stop) :
    weightBefore weight bound (sp :: spans) = weightBefore weight bound spans := by
  simp [weightBefore, show ¬ sp.stop < bound by omega]

/-- Past the last span, everything is counted. -/
theorem weightBefore_all (h : ∀ sp ∈ spans, sp.stop < bound) :
    weightBefore weight bound spans = (spans.map weight).sum := by
  rw [weightBefore, List.filter_eq_self.mpr fun sp hsp => decide_eq_true (h sp hsp)]

/-- The weight between two bounds. -/
def weightBetween (weight : Span → Nat) (low high : Nat) (spans : List Span) : Nat :=
  ((spans.filter (fun sp => low ≤ sp.stop ∧ sp.stop < high)).map weight).sum

theorem weightBefore_split (weight : Span → Nat) {low high : Nat} (h : low ≤ high)
    (spans : List Span) :
    weightBefore weight high spans =
      weightBefore weight low spans + weightBetween weight low high spans := by
  induction spans with
  | nil => rfl
  | cons sp spans ih =>
    rcases Nat.lt_or_ge sp.stop low with hlow | hlow
    · have hout : weightBetween weight low high (sp :: spans) =
          weightBetween weight low high spans := by
        simp [weightBetween, show ¬ low ≤ sp.stop by omega]
      rw [weightBefore_cons_lt (by omega), weightBefore_cons_lt hlow, hout, ih]
      omega
    · rcases Nat.lt_or_ge sp.stop high with hhigh | hhigh
      · have hin : weightBetween weight low high (sp :: spans) =
            weight sp + weightBetween weight low high spans := by
          simp [weightBetween, hlow, hhigh]
        rw [weightBefore_cons_lt hhigh, weightBefore_cons_ge hlow, hin, ih]
        omega
      · have hout : weightBetween weight low high (sp :: spans) =
            weightBetween weight low high spans := by
          simp [weightBetween, show ¬ sp.stop < high by omega]
        rw [weightBefore_cons_ge hhigh, weightBefore_cons_ge hlow, hout, ih]

/-! ## The shape of a schedule -/

/-- The newest opening is at most fifteen seconds back, openings are fifteen
seconds apart, and the spans tile the time since the first call. -/
structure WellTimed (first : Nat) (c : Schedule) : Prop where
  open_le : ∃ a rest, c.openings = a :: rest ∧ a ≤ c.latest ∧
    c.latest < a + observationUpdateDurationDefault
  spaced : c.openings.Pairwise (fun newer older => older + observationUpdateDurationDefault ≤ newer)
  stops : ∀ sp ∈ c.spans, sp.stop ≤ c.latest
  tiled : c.spans.IsChain (fun newer older => older.stop = newer.start)
  joined : c.spans.head?.map Span.stop = some c.latest ∨ c.spans = [] ∧ c.latest = first
  first_le : first ≤ c.latest
  lengths : (c.spans.map Span.elapsed).sum = c.latest - first

theorem WellTimed.start (t : Tick) : WellTimed t.time (Schedule.start t) where
  open_le := ⟨t.time, [], rfl, le_rfl, Nat.lt_add_of_pos_right (by decide)⟩
  spaced := List.pairwise_singleton _ _
  stops := by simp [Schedule.start]
  tiled := List.isChain_nil
  joined := .inr ⟨rfl, rfl⟩
  first_le := le_rfl
  lengths := by simp [Schedule.start]

/-- A call past the latest one, spelled out on the newest opening. -/
theorem record_of_lt {c : Schedule} {t : Tick} {a : Nat} {rest : List Nat}
    (ha : c.openings = a :: rest) (hlt : c.latest < t.time) :
    c.record t =
      ⟨t.time, if t.time - a < observationUpdateDurationDefault then a :: rest
        else t.time :: a :: rest,
        ⟨c.latest, t.time, t.token0PriceX32, t.token1PriceX32⟩ :: c.spans⟩ := by
  simp [Schedule.record, ha, show ¬ t.time ≤ c.latest by omega]

theorem record_of_le {c : Schedule} {t : Tick} (hle : t.time ≤ c.latest) : c.record t = c := by
  simp [Schedule.record, hle]

theorem WellTimed.record {first : Nat} {c : Schedule} (h : WellTimed first c) (t : Tick) :
    WellTimed first (c.record t) := by
  rcases Nat.lt_or_ge c.latest t.time with hlt | hle
  · obtain ⟨a, rest, ha, hale, hwin⟩ := h.open_le
    have hspaced := h.spaced
    rw [ha] at hspaced
    rw [record_of_lt ha hlt]
    refine ⟨?_, ?_, ?_, ?_, ?_, ?_, ?_⟩
    · dsimp only
      split
      · next hd => exact ⟨a, rest, rfl, by omega, by omega⟩
      · exact ⟨t.time, a :: rest, rfl, le_rfl, Nat.lt_add_of_pos_right (by decide)⟩
    · dsimp only
      split
      · exact hspaced
      · next hd =>
        refine List.pairwise_cons.mpr ⟨?_, hspaced⟩
        intro b hb
        rcases List.mem_cons.mp hb with rfl | hb
        · omega
        · have := (List.pairwise_cons.mp hspaced).1 b hb
          omega
    · intro sp hsp
      rcases List.mem_cons.mp hsp with rfl | hsp
      · exact le_rfl
      · exact (h.stops sp hsp).trans hlt.le
    · have htiled := h.tiled
      have hjoined := h.joined
      cases hs : c.spans with
      | nil => exact List.isChain_singleton _
      | cons sp spans =>
        rw [hs] at htiled hjoined
        refine List.isChain_cons_cons.mpr ⟨?_, htiled⟩
        simpa using hjoined
    · exact .inl rfl
    · exact h.first_le.trans hlt.le
    · have := h.first_le
      simp only [List.map_cons, List.sum_cons, h.lengths, Span.elapsed]
      omega
  · rwa [record_of_le hle]

/-- **Every schedule is well timed.** -/
theorem schedule_wellTimed {ticks : List Tick} (hne : ticks ≠ []) :
    WellTimed (firstTime ticks) (schedule ticks) := by
  induction ticks using List.reverseRecOn with
  | nil => exact absurd rfl hne
  | append_singleton ticks t ih =>
    rcases eq_or_ne ticks [] with rfl | hticks
    · exact WellTimed.start t
    · rw [schedule_snoc hticks, firstTime_snoc hticks]
      exact (ih hticks).record t

/-! ## Time-weighted averages -/

/-- Up to an opening, the spans measure the time since the first call. -/
theorem elapsed_before_opening {ticks : List Tick} (hne : ticks ≠ []) :
    ∀ a ∈ (schedule ticks).openings,
      firstTime ticks + weightBefore Span.elapsed (a + 1) (schedule ticks).spans = a := by
  induction ticks using List.reverseRecOn with
  | nil => exact absurd rfl hne
  | append_singleton ticks t ih =>
    rcases eq_or_ne ticks [] with rfl | hticks
    · intro a ha
      obtain rfl : a = t.time := by simpa [schedule, Schedule.start] using ha
      rfl
    · have hw := schedule_wellTimed hticks
      have hw' := hw.record t
      obtain ⟨a₀, rest, ha₀, hale, -⟩ := hw.open_le
      rw [schedule_snoc hticks, firstTime_snoc hticks]
      rcases Nat.lt_or_ge (schedule ticks).latest t.time with hlt | hle
      · intro a ha
        have hold : ∀ b ∈ (schedule ticks).openings, firstTime ticks +
            weightBefore Span.elapsed (b + 1) ((schedule ticks).record t).spans = b := by
          intro b hb
          have hble : b ≤ (schedule ticks).latest := by
            have hspaced := hw.spaced
            rw [ha₀] at hb hspaced
            rcases List.mem_cons.mp hb with rfl | hb
            · exact hale
            · have := (List.pairwise_cons.mp hspaced).1 b hb
              omega
          rw [record_of_lt ha₀ hlt, weightBefore_cons_ge (show b + 1 ≤ t.time by omega)]
          exact ih hticks b hb
        have hnew : firstTime ticks +
            weightBefore Span.elapsed (t.time + 1) ((schedule ticks).record t).spans = t.time := by
          have hlatest : ((schedule ticks).record t).latest = t.time := by
            rw [record_of_lt ha₀ hlt]
          have hlen := hw'.lengths
          have hfirst := hw'.first_le
          rw [hlatest] at hlen hfirst
          rw [weightBefore_all fun sp hsp => Nat.lt_succ_of_le
            ((hw'.stops sp hsp).trans_eq hlatest), hlen]
          omega
        by_cases hmem : a ∈ (schedule ticks).openings
        · exact hold a hmem
        · obtain rfl : a = t.time := by
            rw [record_of_lt ha₀ hlt] at ha
            rw [ha₀] at hmem
            dsimp only at ha
            split at ha
            · exact absurd ha hmem
            · exact (List.mem_cons.mp ha).resolve_right hmem
          exact hnew
      · rw [record_of_le hle]
        exact ih hticks

/-- A span carries the prices of one of the calls. -/
theorem span_prices {ticks : List Tick} : ∀ sp ∈ (schedule ticks).spans,
    ∃ t ∈ ticks, sp.token0PriceX32 = t.token0PriceX32 ∧ sp.token1PriceX32 = t.token1PriceX32 := by
  induction ticks using List.reverseRecOn with
  | nil =>
    intro sp hsp
    simp [schedule] at hsp
  | append_singleton ticks t ih =>
    rcases eq_or_ne ticks [] with rfl | hticks
    · intro sp hsp
      simp [schedule, Schedule.start] at hsp
    · rw [schedule_snoc hticks]
      intro sp hsp
      unfold Schedule.record at hsp
      split at hsp
      · obtain ⟨u, hu, h⟩ := ih sp hsp
        exact ⟨u, List.mem_append_left _ hu, h⟩
      · rcases List.mem_cons.mp hsp with rfl | hsp
        · exact ⟨t, by simp, rfl, rfl⟩
        · obtain ⟨u, hu, h⟩ := ih sp hsp
          exact ⟨u, List.mem_append_left _ hu, h⟩

/-- A span ends, and an observation opens, when one of the calls is made. -/
theorem stops_and_openings {ticks : List Tick} :
    (∀ sp ∈ (schedule ticks).spans, ∃ t ∈ ticks, t.time = sp.stop) ∧
      ∀ a ∈ (schedule ticks).openings, ∃ t ∈ ticks, t.time = a := by
  induction ticks using List.reverseRecOn with
  | nil => simp [schedule]
  | append_singleton ticks t ih =>
    rcases eq_or_ne ticks [] with rfl | hticks
    · simp [schedule, Schedule.start]
    · rw [schedule_snoc hticks]
      rcases Nat.lt_or_ge (schedule ticks).latest t.time with hlt | hle
      · obtain ⟨a₀, rest, ha₀, -⟩ := (schedule_wellTimed hticks).open_le
        rw [record_of_lt ha₀ hlt, ← ha₀]
        constructor
        · intro sp hsp
          rcases List.mem_cons.mp hsp with rfl | hsp
          · exact ⟨t, by simp, rfl⟩
          · obtain ⟨u, hu, htime⟩ := ih.1 sp hsp
            exact ⟨u, List.mem_append_left _ hu, htime⟩
        · intro a ha
          dsimp only at ha
          split at ha
          · obtain ⟨u, hu, htime⟩ := ih.2 a ha
            exact ⟨u, List.mem_append_left _ hu, htime⟩
          · rcases List.mem_cons.mp ha with rfl | ha
            · exact ⟨t, by simp, rfl⟩
            · obtain ⟨u, hu, htime⟩ := ih.2 a ha
              exact ⟨u, List.mem_append_left _ hu, htime⟩
      · rw [record_of_le hle]
        refine ⟨fun sp hsp => ?_, fun a ha => ?_⟩
        · obtain ⟨u, hu, htime⟩ := ih.1 sp hsp
          exact ⟨u, List.mem_append_left _ hu, htime⟩
        · obtain ⟨u, hu, htime⟩ := ih.2 a ha
          exact ⟨u, List.mem_append_left _ hu, htime⟩

/-- Calls fifteen seconds apart leave no call in the window after an opening. -/
theorem stop_outside_window {ticks : List Tick} {a : Nat} {sp : Span}
    (hapart : ticks.Pairwise fun t u => t.time + observationUpdateDurationDefault ≤ u.time)
    (ha : a ∈ (schedule ticks).openings) (hsp : sp ∈ (schedule ticks).spans) :
    sp.stop ≤ a ∨ a + observationUpdateDurationDefault ≤ sp.stop := by
  obtain ⟨t, ht, hstop⟩ := stops_and_openings.1 sp hsp
  obtain ⟨u, hu, hopen⟩ := stops_and_openings.2 a ha
  have hall : ∀ ⦃x⦄, x ∈ ticks → ∀ ⦃y⦄, y ∈ ticks →
      x.time ≤ y.time ∨ y.time + observationUpdateDurationDefault ≤ x.time := by
    refine List.Pairwise.forall_of_forall_of_flip (fun x _ => .inl le_rfl) ?_ ?_
    · exact hapart.imp fun h => .inl ((Nat.le_add_right _ _).trans h)
    · exact hapart.imp fun h => .inr h
  rw [← hstop, ← hopen]
  exact hall ht hu

/-- Prices between `lo` and `hi` weigh in between as well. -/
theorem weightBetween_bounds {price : Span → Nat} {lo hi low high : Nat} {spans : List Span}
    (h : ∀ sp ∈ spans, lo ≤ price sp ∧ price sp ≤ hi) :
    lo * weightBetween Span.elapsed low high spans ≤
        weightBetween (fun sp => price sp * sp.elapsed) low high spans ∧
      weightBetween (fun sp => price sp * sp.elapsed) low high spans ≤
        hi * weightBetween Span.elapsed low high spans := by
  unfold weightBetween
  rw [← List.sum_map_mul_left, ← List.sum_map_mul_left]
  constructor
  · refine List.sum_le_sum fun sp hsp => Nat.mul_le_mul_right _ ?_
    exact (h sp (List.mem_of_mem_filter hsp)).1
  · refine List.sum_le_sum fun sp hsp => Nat.mul_le_mul_right _ ?_
    exact (h sp (List.mem_of_mem_filter hsp)).2

/-- **The weight between two openings is an average.** Divided by the time between
them it lies between the lowest and the highest price fed in. -/
theorem weightBetween_openings {ticks : List Tick} (hne : ticks ≠ []) {price : Span → Nat}
    {lo hi a b : Nat} (hprice : ∀ sp ∈ (schedule ticks).spans, lo ≤ price sp ∧ price sp ≤ hi)
    (ha : a ∈ (schedule ticks).openings) (hb : b ∈ (schedule ticks).openings) (hab : a ≤ b) :
    lo * (b - a) ≤ weightBetween (fun sp => price sp * sp.elapsed) (a + 1) (b + 1)
        (schedule ticks).spans ∧
      weightBetween (fun sp => price sp * sp.elapsed) (a + 1) (b + 1) (schedule ticks).spans ≤
        hi * (b - a) := by
  have hlen : weightBetween Span.elapsed (a + 1) (b + 1) (schedule ticks).spans = b - a := by
    have hsplit := weightBefore_split Span.elapsed (show a + 1 ≤ b + 1 by omega)
      (schedule ticks).spans
    have hta := elapsed_before_opening hne a ha
    have htb := elapsed_before_opening hne b hb
    omega
  rw [← hlen]
  exact weightBetween_bounds hprice

end NomadAmm.Soundness.Timeline
