import Mathlib.Data.List.Basic

/-! Bracketed traces: frames open inside one another, and each line of a trace belongs to
the frame open innermost. A derivation of such a trace is read as a run of a stack, and a
machine that follows each single event follows every trace. -/

namespace NomadAmm.Lib.Nesting

variable {F L σ ε ω : Type}

inductive Token (F L : Type)
  | enter (f : F)
  | line (l : L)
  | leave (f : F)
  deriving DecidableEq, Repr

/-! ## Derivations and stacks -/

/-- The inside of a frame, given which frames may open and which lines each may speak. -/
inductive Body (opens : F → Prop) (speaks : F → L → Prop) : F → List (Token F L) → Prop
  | nil {f} : Body opens speaks f []
  | line {f l ts} : speaks f l → Body opens speaks f ts → Body opens speaks f (.line l :: ts)
  | frame {f g inner ts} : opens g → Body opens speaks g inner → Body opens speaks f ts →
      Body opens speaks f (.enter g :: (inner ++ .leave g :: ts))

/-- One frame after another, and nothing outside them. -/
inductive TopLevel (opens : F → Prop) (speaks : F → L → Prop) : List (Token F L) → Prop
  | nil : TopLevel opens speaks []
  | frame {g inner ts} : opens g → Body opens speaks g inner → TopLevel opens speaks ts →
      TopLevel opens speaks (.enter g :: (inner ++ .leave g :: ts))

/-- A trace read from a stack of open frames down to none. -/
inductive Balanced (opens : F → Prop) (speaks : F → L → Prop) : List F → List (Token F L) → Prop
  | nil : Balanced opens speaks [] []
  | enter {f s ts} : opens f → Balanced opens speaks (f :: s) ts →
      Balanced opens speaks s (.enter f :: ts)
  | line {f s l ts} : speaks f l → Balanced opens speaks (f :: s) ts →
      Balanced opens speaks (f :: s) (.line l :: ts)
  | leave {f s ts} : opens f → Balanced opens speaks s ts →
      Balanced opens speaks (f :: s) (.leave f :: ts)

section

variable {opens : F → Prop} {speaks : F → L → Prop} {f : F} {ts : List (Token F L)}

/-- The inside of a frame leaves the stack as it finds it. -/
theorem Body.balanced (h : Body opens speaks f ts) :
    ∀ {s rest}, Balanced opens speaks (f :: s) rest →
      Balanced opens speaks (f :: s) (ts ++ rest) := by
  induction h with
  | nil => exact fun hrest => hrest
  | line hl _ ih =>
    intro s rest hrest
    exact .line hl (ih hrest)
  | @frame f g inner ts hg _ _ ihinner ihts =>
    intro s rest hrest
    rw [List.cons_append, List.append_assoc]
    exact .enter hg (ihinner (.leave hg (ihts hrest)))

theorem TopLevel.balanced (h : TopLevel opens speaks ts) : Balanced opens speaks [] ts := by
  induction h with
  | nil => exact .nil
  | frame hg hinner _ ih => exact .enter hg (hinner.balanced (.leave hg ih))

end

/-! ## What a trace tells -/

/-- The open frames after one event, innermost first. -/
def after (s : List F) : Token F L → List F
  | .enter f => f :: s
  | .line _ => s
  | .leave _ => s.tail

def openFrames (s : List F) (ts : List (Token F L)) : List F := ts.foldl after s

/-- Each line with the frame open innermost. -/
def spoken : List F → List (Token F L) → List (F × L)
  | _, [] => []
  | f :: s, .line l :: ts => (f, l) :: spoken (f :: s) ts
  | s, t :: ts => spoken (after s t) ts

@[simp] theorem spoken_enter (s : List F) (f : F) (ts : List (Token F L)) :
    spoken s (.enter f :: ts) = spoken (f :: s) ts := by
  cases s <;> rfl

@[simp] theorem spoken_leave (s : List F) (f : F) (ts : List (Token F L)) :
    spoken s (.leave f :: ts) = spoken s.tail ts := by
  cases s <;> rfl

/-! ## Machines that follow a trace -/

/-- A machine over events, collecting what it puts out. -/
def run {α : Type} (step : σ → α → Except ε (σ × List ω)) :
    σ → List α → Except ε (σ × List ω)
  | a, [] => .ok (a, [])
  | a, t :: ts => do
    let (b, out) ← step a t
    let (c, outs) ← run step b ts
    pure (c, out ++ outs)

theorem run_map {α β : Type} (step : σ → β → Except ε (σ × List ω)) (g : α → β) (ts : List α) :
    ∀ a, run step a (ts.map g) = run (fun a t => step a (g t)) a ts := by
  induction ts with
  | nil =>
    intro a
    rfl
  | cons t ts ih =>
    intro a
    rw [List.map_cons, run, run]
    cases step a (g t) with
    | error e => rfl
    | ok r =>
      change (run step r.1 (ts.map g) >>= _) = (run _ r.1 ts >>= _)
      rw [ih]

section

variable {step : σ → Token F L → Except ε (σ × List ω)} {related : σ → List F → Prop}
  {opens : F → Prop} {speaks : F → L → Prop} {emit : F → L → List ω} {a : σ} {s : List F}
  {ts : List (Token F L)}

theorem run_cons {b c : σ} {t : Token F L} {out outs : List ω} (hstep : step a t = .ok (b, out))
    (hrun : run step b ts = .ok (c, outs)) : run step a (t :: ts) = .ok (c, out ++ outs) := by
  unfold run
  rw [hstep]
  change (run step b ts >>= fun r => pure (r.1, out ++ r.2)) = _
  rw [hrun]
  rfl

/-- Each event takes a state related to the open frames to one related to those after it,
and a line puts out what comes of its frame and its text. -/
structure Follows (step : σ → Token F L → Except ε (σ × List ω)) (related : σ → List F → Prop)
    (opens : F → Prop) (speaks : F → L → Prop) (emit : F → L → List ω) : Prop where
  enter : ∀ {a f s}, opens f → related a s →
    ∃ b, step a (.enter f) = .ok (b, []) ∧ related b (f :: s)
  line : ∀ {a f l s}, speaks f l → related a (f :: s) →
    ∃ b, step a (.line l) = .ok (b, emit f l) ∧ related b (f :: s)
  leave : ∀ {a f s}, opens f → related a (f :: s) →
    ∃ b, step a (.leave f) = .ok (b, []) ∧ related b s

/-- **A machine that follows every event follows every trace**, through each of its
prefixes. -/
theorem Follows.run (h : Follows step related opens speaks emit)
    (hts : Balanced opens speaks s ts) :
    ∀ {a before}, related a s → before <+: ts →
      ∃ b, run step a before = .ok (b, (spoken s before).flatMap fun p => emit p.1 p.2) ∧
        related b (openFrames s before) := by
  induction hts with
  | nil =>
    intro a before hrel hstart
    rw [List.prefix_nil.mp hstart]
    exact ⟨a, rfl, hrel⟩
  | @enter f s ts hf _ ih =>
    intro a before hrel hstart
    cases before with
    | nil => exact ⟨a, rfl, hrel⟩
    | cons t before =>
      obtain ⟨rfl, hbefore⟩ := List.cons_prefix_cons.mp hstart
      obtain ⟨b, hstep, hrel'⟩ := h.enter hf hrel
      obtain ⟨c, hrun, hrel''⟩ := ih hrel' hbefore
      rw [spoken_enter]
      exact ⟨c, run_cons hstep hrun, hrel''⟩
  | @line f s l ts hl _ ih =>
    intro a before hrel hstart
    cases before with
    | nil => exact ⟨a, rfl, hrel⟩
    | cons t before =>
      obtain ⟨rfl, hbefore⟩ := List.cons_prefix_cons.mp hstart
      obtain ⟨b, hstep, hrel'⟩ := h.line hl hrel
      obtain ⟨c, hrun, hrel''⟩ := ih hrel' hbefore
      exact ⟨c, run_cons hstep hrun, hrel''⟩
  | @leave f s ts hf _ ih =>
    intro a before hrel hstart
    cases before with
    | nil => exact ⟨a, rfl, hrel⟩
    | cons t before =>
      obtain ⟨rfl, hbefore⟩ := List.cons_prefix_cons.mp hstart
      obtain ⟨b, hstep, hrel'⟩ := h.leave hf hrel
      obtain ⟨c, hrun, hrel''⟩ := ih hrel' hbefore
      rw [spoken_leave]
      exact ⟨c, run_cons hstep hrun, hrel''⟩

end

end NomadAmm.Lib.Nesting
