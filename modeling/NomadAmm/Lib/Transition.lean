import Mathlib.Data.List.Infix
import Mathlib.Tactic.Common

/-! Runs of a partial step. A call that fails leaves the state as it was, so any
list of calls has a run, and what holds throughout a run is an induction over the
successful calls in it. Two runs that differ in silent calls only are compared by
what their other calls return. -/

namespace NomadAmm.Lib.Transition

variable {σ α ω ε υ : Type} {step : σ → α → Except ε (σ × ω)}

/-- The state after one call. -/
def next (step : σ → α → Except ε (σ × ω)) (s : σ) (a : α) : σ :=
  match step s a with
  | .ok (s', _) => s'
  | .error _ => s

def replay (step : σ → α → Except ε (σ × ω)) (s : σ) (calls : List α) : σ :=
  calls.foldl (next step) s

/-- `G` holds of every call of the run, in the state it is made in. -/
def Along (step : σ → α → Except ε (σ × ω)) (G : σ → α → Prop) : σ → List α → Prop
  | _, [] => True
  | s, a :: calls => G s a ∧ Along step G (next step s a) calls

/-- `P` holds in every state of the run, the first one included. -/
def Throughout (step : σ → α → Except ε (σ × ω)) (P : σ → Prop) : σ → List α → Prop
  | s, [] => P s
  | s, a :: calls => P s ∧ Throughout step P (next step s a) calls

@[simp] theorem replay_cons (s : σ) (a : α) (calls : List α) :
    replay step s (a :: calls) = replay step (next step s a) calls := rfl

theorem replay_append (s : σ) (before after : List α) :
    replay step s (before ++ after) = replay step (replay step s before) after :=
  List.foldl_append

/-- A call either is an `ok` step or leaves the state alone. -/
theorem next_cases (step : σ → α → Except ε (σ × ω)) (s : σ) (a : α) :
    (∃ w, step s a = .ok (next step s a, w)) ∨ next step s a = s := by
  unfold next
  cases h : step s a with
  | error e => exact .inr rfl
  | ok r => exact .inl ⟨r.2, rfl⟩

theorem next_invariant {I : σ → Prop} {s : σ} {a : α}
    (hstep : ∀ s' w, step s a = .ok (s', w) → I s') (hs : I s) : I (next step s a) := by
  rcases next_cases step s a with ⟨w, h⟩ | h
  · exact hstep _ w h
  · rwa [h]

/-- **Invariants hold throughout a run.** -/
theorem replay_invariant {I : σ → Prop}
    (hstep : ∀ s a s' w, I s → step s a = .ok (s', w) → I s')
    (calls : List α) : ∀ {s : σ}, I s → I (replay step s calls) := by
  induction calls with
  | nil => exact id
  | cons a calls ih =>
    intro s hs
    exact ih (next_invariant (fun s' w => hstep s a s' w hs) hs)

/-- An invariant holds in the states on the way as well. -/
theorem throughout_invariant {I P : σ → Prop}
    (hstep : ∀ s a s' w, I s → step s a = .ok (s', w) → I s') (himp : ∀ s, I s → P s)
    (calls : List α) : ∀ {s : σ}, I s → Throughout step P s calls := by
  induction calls with
  | nil => exact himp _
  | cons a calls ih =>
    intro s hs
    exact ⟨himp s hs, ih (next_invariant (fun s' w => hstep s a s' w hs) hs)⟩

/-- A preorder that every successful call of the run respects relates its ends. -/
theorem replay_related {I : σ → Prop} {R : σ → σ → Prop} {allowed : α → Prop}
    (hinv : ∀ s a s' w, I s → step s a = .ok (s', w) → I s')
    (hrefl : ∀ s, I s → R s s)
    (htrans : ∀ r s t, I r → I s → I t → R r s → R s t → R r t)
    (hstep : ∀ s a s' w, I s → allowed a → step s a = .ok (s', w) → R s s')
    (calls : List α) :
    ∀ {s : σ}, I s → (∀ a ∈ calls, allowed a) → R s (replay step s calls) := by
  induction calls with
  | nil => exact fun hs _ => hrefl _ hs
  | cons a calls ih =>
    intro s hs hallowed
    have hs' : I (next step s a) := next_invariant (fun s' w => hinv s a s' w hs) hs
    have hone : R s (next step s a) := by
      rcases next_cases step s a with ⟨w, h⟩ | h
      · exact hstep s a _ w hs (hallowed a List.mem_cons_self) h
      · rw [h]; exact hrefl s hs
    have hrest := ih hs' fun b hb => hallowed b (List.mem_cons_of_mem a hb)
    exact htrans _ _ _ hs hs' (replay_invariant hinv calls hs') hone hrest

/-- When a successful call keeps `P` exactly if its condition holds, `P` holds
throughout a run exactly if every call of the run meets its condition. -/
theorem throughout_iff_along {I P : σ → Prop} {C : σ → α → Prop}
    (hinv : ∀ s a s' w, I s → step s a = .ok (s', w) → I s')
    (hstep : ∀ s a s' w, I s → P s → step s a = .ok (s', w) → (P s' ↔ C s a))
    (calls : List α) : ∀ {s : σ}, I s → P s →
      (Throughout step P s calls ↔
        Along step (fun s a => (∃ r, step s a = .ok r) → C s a) s calls) := by
  induction calls with
  | nil => exact fun _ hp => iff_of_true hp trivial
  | cons a calls ih =>
    intro s hs hp
    have hs' : I (next step s a) := next_invariant (fun s' w => hinv s a s' w hs) hs
    have hone : P (next step s a) ↔ ((∃ r, step s a = .ok r) → C s a) := by
      rcases next_cases step s a with ⟨w, h⟩ | h
      · rw [hstep s a _ w hs hp h]
        exact ⟨fun hc _ => hc, fun hc => hc ⟨_, h⟩⟩
      · rw [h]
        refine iff_of_true hp ?_
        intro h
        obtain ⟨⟨s', w⟩, hr⟩ := h
        have hsame : next step s a = s' := by simp [next, hr]
        exact (hstep s a s' w hs hp hr).mp (by rwa [← hsame, h])
    simp only [Throughout, Along]
    constructor
    · intro h
      obtain ⟨_, hrest⟩ := h
      have hp' : P (next step s a) := by
        cases calls with
        | nil => exact hrest
        | cons b calls => exact hrest.1
      exact ⟨hone.mp hp', (ih hs' hp').mp hrest⟩
    · intro h
      obtain ⟨hc, hrest⟩ := h
      have hp' := hone.mpr hc
      exact ⟨hp, (ih hs' hp').mpr hrest⟩

/-- The sum of what the successful calls of a run cost. -/
def tally (step : σ → α → Except ε (σ × ω)) (cost : α → Nat) : σ → List α → Nat
  | _, [] => 0
  | s, a :: calls =>
    (match step s a with
      | .ok _ => cost a
      | .error _ => 0) + tally step cost (next step s a) calls

/-- **An invariant with an account.** What each successful call adds to the account
adds up over the run. -/
theorem replay_tally {I : σ → Nat → Prop} {cost : α → Nat}
    (hstep : ∀ s a s' w n, I s n → step s a = .ok (s', w) → I s' (n + cost a))
    (calls : List α) : ∀ {s : σ} {n : Nat}, I s n →
      I (replay step s calls) (n + tally step cost s calls) := by
  induction calls with
  | nil => exact id
  | cons a calls ih =>
    intro s n hs
    cases h : step s a with
    | error e =>
      have hnext : next step s a = s := by simp [next, h]
      simpa [tally, h, hnext] using ih hs
    | ok r =>
      obtain ⟨s', w⟩ := r
      have hnext : next step s a = s' := by simp [next, h]
      have hs' := ih (hstep s a s' w n hs h)
      simpa [tally, h, hnext, Nat.add_assoc] using hs'

/-! ## Runs that differ in silent calls -/

/-- What the calls that are not silent return, `none` for a failed one, each with a view
of the state it leaves. -/
def transcript (step : σ → α → Except ε (σ × ω)) (silent : α → Bool) (view : σ → υ) :
    σ → List α → List (Option ω × υ)
  | _, [] => []
  | s, a :: calls =>
    if silent a then transcript step silent view (next step s a) calls
    else ((step s a).toOption.map Prod.snd, view (next step s a)) ::
      transcript step silent view (next step s a) calls

/-- What a symmetric relation between two runs must survive: a silent call on one side,
and a visible call that succeeds on one side and is made on both. -/
structure Simulation (step : σ → α → Except ε (σ × ω)) (silent : α → Bool) (view : σ → υ)
    (G : σ → α → Prop) (R : σ → σ → Prop) : Prop where
  symm : ∀ s t, R s t → R t s
  hidden : ∀ s t a s' w, silent a = true → G s a → R s t → step s a = .ok (s', w) → R s' t
  matched : ∀ s t a s' w, silent a = false → G s a → G t a → R s t → step s a = .ok (s', w) →
    ∃ t', step t a = .ok (t', w) ∧ R s' t'
  view : ∀ s t, R s t → view s = view t

variable {silent : α → Bool} {view : σ → υ} {G : σ → α → Prop} {R : σ → σ → Prop}

theorem Simulation.left (hsim : Simulation step silent view G R) {s t : σ} {a : α}
    (ha : silent a = true) (hg : G s a) (hR : R s t) : R (next step s a) t := by
  rcases next_cases step s a with ⟨w, h⟩ | h
  · exact hsim.hidden s t a _ w ha hg hR h
  · rwa [h]

/-- A visible call on both sides succeeds on both or on neither. -/
theorem Simulation.both (hsim : Simulation step silent view G R) {s t : σ} {a : α}
    (ha : silent a = false) (hs : G s a) (ht : G t a) (hR : R s t) :
    (step s a).toOption.map Prod.snd = (step t a).toOption.map Prod.snd ∧
      R (next step s a) (next step t a) := by
  cases h : step s a with
  | ok r =>
    obtain ⟨s', w⟩ := r
    obtain ⟨t', h', hR'⟩ := hsim.matched s t a s' w ha hs ht hR h
    simp only [next, h, h', Except.toOption, Option.map_some]
    exact ⟨trivial, hR'⟩
  | error e =>
    cases h' : step t a with
    | ok r =>
      obtain ⟨t', w⟩ := r
      obtain ⟨s', h'', _⟩ := hsim.matched t s a t' w ha ht hs (hsim.symm s t hR) h'
      rw [h] at h''
      cases h''
    | error e' =>
      simp only [next, h, h', Except.toOption, Option.map_none]
      exact ⟨trivial, hR⟩

/-- **Silent calls are invisible.** Two related runs of the same visible calls
return the same and are seen alike after each of them. -/
theorem Simulation.transcript_eq (hsim : Simulation step silent view G R) :
    ∀ (left right : List α) {s t : σ},
      left.filter (fun a => !silent a) = right.filter (fun a => !silent a) →
      R s t → Along step G s left → Along step G t right →
      transcript step silent view s left = transcript step silent view t right := by
  intro left
  induction left with
  | nil =>
    intro right
    induction right with
    | nil => intros; rfl
    | cons b right ih =>
      intro s t hsame hR hl hr
      cases hb : silent b with
      | true =>
        simp only [List.filter_cons, hb, Bool.not_true, Bool.false_eq_true, if_false] at hsame
        have hR' := hsim.symm _ _ (hsim.left hb hr.1 (hsim.symm _ _ hR))
        rw [ih hsame hR' hl hr.2]
        simp [transcript, hb]
      | false => simp [hb] at hsame
  | cons a left ihleft =>
    intro right s t hsame hR hl hr
    cases ha : silent a with
    | true =>
      simp only [List.filter_cons, ha, Bool.not_true, Bool.false_eq_true, if_false] at hsame
      rw [← ihleft right hsame (hsim.left ha hl.1 hR) hl.2 hr]
      simp [transcript, ha]
    | false =>
      induction right generalizing t with
      | nil => simp [ha] at hsame
      | cons b right ih =>
        cases hb : silent b with
        | true =>
          have hskip : (b :: right).filter (fun a => !silent a) =
              right.filter (fun a => !silent a) := by simp [hb]
          have hR' := hsim.symm _ _ (hsim.left hb hr.1 (hsim.symm _ _ hR))
          rw [ih (hsame.trans hskip) hR' hr.2]
          simp [transcript, hb]
        | false =>
          simp only [List.filter_cons, ha, hb, Bool.not_false, if_true, List.cons.injEq] at hsame
          obtain ⟨rfl, hsame⟩ := hsame
          obtain ⟨hout, hR'⟩ := hsim.both ha hl.1 hr.1 hR
          have hrest := ihleft right hsame hR' hl.2 hr.2
          simp only [transcript, ha, Bool.false_eq_true, if_false]
          rw [hout, hsim.view _ _ hR', hrest]

end NomadAmm.Lib.Transition
