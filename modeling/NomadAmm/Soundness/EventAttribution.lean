import NomadAmm.Soundness.EventLines

/-! Which program a log line belongs to, and which one the parser takes it for. The
runtime opens and closes frames by lines of its own, but what programs log stands between
them unquoted; the parser follows the frames exactly as long as nothing in between reads
like a frame. -/

namespace NomadAmm.Soundness.EventAttribution

open Lib.Nesting Client EventLines

variable {Swap LpChange : Type} {dec : EventDecoder Swap LpChange} {self p : ProgramId} {l : Line}
  {e : Execution}

/-! ## Following the frames -/

/-- The program whose frame is open innermost. -/
def innermost (s : List Frame) : Option ProgramId := s.head?.map Frame.program

/-- Entry by entry, the parser knows which frames are the program's own. -/
def Related (self : ProgramId) (e : Execution) (s : List Frame) : Prop :=
  List.Forall₂ (fun entry f => entry = self.chars ↔ f.program = self) e.stack s

theorem Related.top {s : List Frame} (h : Related self e s) :
    e.stack.head? = some self.chars ↔ innermost s = some self := by
  obtain ⟨stack⟩ := e
  cases h with
  | nil => exact iff_of_false nofun nofun
  | cons hentry _ =>
    simp only [List.head?_cons, innermost, Option.map_some, Option.some.injEq]
    exact hentry

/-- Which lines are logged in which frame: `own` ones in the program's, `foreign` ones in
all others. -/
def spokenBy (self : ProgramId) (own foreign : Line → Prop) (f : Frame) (l : Line) : Prop :=
  if f.program = self then own l else foreign l

/-- What a line should print. -/
def expected (dec : EventDecoder Swap LpChange) (self : ProgramId) (f : Frame) (l : Line) :
    List (Printed Swap LpChange) :=
  if f.program = self then printedOf dec l else []

/-- No program is named like an invocation, the program's own lines can be read, and no
other line reads like a frame. -/
structure Unmistakable (dec : EventDecoder Swap LpChange) (ids : ProgramId → Prop)
    (own foreign : Line → Prop) : Prop where
  ids : ∀ p, ids p → ¬ str "invoke" <:+: p.chars
  own : ∀ l, own l → l.Readable dec
  foreign : ∀ l, foreign l → Harmless l.render

variable {ids : ProgramId → Prop} {own foreign : Line → Prop}

/-- **The parser follows the frames** where no line can be mistaken. -/
theorem follows (h : Unmistakable dec ids own foreign) :
    Follows (fun e t => readLine dec self.chars e (render t)) (Related self)
      (fun f => ids f.program) (spokenBy self own foreign) (expected dec self) where
  enter := by
    intro e f s _ hrel
    refine ⟨_, readLine_enter f, .cons ?_ hrel⟩
    by_cases hself : f.program = self
    · rw [if_pos hself]
      exact iff_of_true rfl hself
    · rw [if_neg hself]
      exact iff_of_false self.ne_cpi.symm hself
  line := by
    intro e f l s hl hrel
    refine ⟨e, ?_, hrel⟩
    unfold spokenBy at hl
    unfold expected
    by_cases hself : f.program = self
    · rw [if_pos hself] at hl ⊢
      have htop : e.stack.head? = some self.chars := hrel.top.mpr (congrArg some hself)
      exact readLine_eq ((if_pos htop).trans (handleProgramLog_line (h.own l hl))) rfl
    · rw [if_neg hself] at hl ⊢
      have htop : ¬ e.stack.head? = some self.chars :=
        fun htop => hself (Option.some.inj (hrel.top.mp htop))
      have hlog : handleLog dec self.chars e l.render = .ok ((none, false), []) := by
        unfold handleLog
        rw [if_neg htop, handleSystemLog_harmless (h.foreign l hl)]
      exact readLine_eq hlog rfl
  leave := by
    intro e f s hf hrel
    obtain ⟨stack⟩ := e
    cases hrel with
    | cons _ hrest => exact ⟨_, readLine_leave f (h.ids f.program hf), hrest⟩

/-! ## The claim of a parser -/

/-- Every line is read with the program on top exactly if it stands in the program's frame,
and what is printed is the program's data, all of it and in order. -/
structure Attributed (dec : EventDecoder Swap LpChange) (program : ProgramId) (log : Log) :
    Prop where
  stack : ∀ before t rest, log = before ++ t :: rest → before ≠ [] →
    ∃ e printed, parseLogs dec program.chars (before.map render) = .ok (e, printed) ∧
      (e.stack.head? = some program.chars ↔ innermost (openFrames [] before) = some program)
  printed : parseProgramEvent dec program.chars (log.map render) =
    .ok ((spoken [] log).flatMap fun p => expected dec program p.1 p.2)

/-- The first frame opens the stack, the loop reads the rest. -/
theorem parseLogs_enter (f : Frame) (ts : Log) :
    parseLogs dec self.chars ((Token.enter f :: ts).map render) =
      run (fun e t => readLine dec self.chars e (render t)) ⟨[f.program.chars]⟩ ts := by
  rw [List.map_cons, parseLogs, execution_new]
  exact run_map _ _ _ _

theorem related_first (f : Frame) : Related self ⟨[f.program.chars]⟩ [f] :=
  .cons (ProgramId.ext_iff).symm .nil

/-- **Where no line can be mistaken, every log is attributed.** -/
theorem attributed_of_unmistakable {log : Log} (h : Unmistakable dec ids own foreign)
    (hlog : TopLevel (fun f => ids f.program) (spokenBy self own foreign) log) :
    Attributed dec self log := by
  have hbalanced := hlog.balanced
  cases hbalanced with
  | nil =>
    refine ⟨?_, rfl⟩
    intro before t rest hsplit
    cases List.append_ne_nil_of_right_ne_nil before (List.cons_ne_nil t rest) hsplit.symm
  | @enter f s ts hf hts =>
    have hrun : ∀ before, before <+: ts → ∃ e, parseLogs dec self.chars
        ((Token.enter f :: before).map render) =
          .ok (e, (spoken [f] before).flatMap fun p => expected dec self p.1 p.2) ∧
        Related self e (openFrames [f] before) := by
      intro before hbefore
      rw [parseLogs_enter]
      exact (follows h).run hts (related_first f) hbefore
    constructor
    · intro before t rest hsplit hne
      cases before with
      | nil => exact absurd rfl hne
      | cons first before =>
        obtain ⟨rfl, htail⟩ := List.cons.inj hsplit
        obtain ⟨e, hparse, hrel⟩ := hrun before ⟨t :: rest, htail.symm⟩
        exact ⟨e, _, hparse, hrel.top⟩
    · obtain ⟨e, hparse, -⟩ := hrun ts (List.prefix_refl ts)
      unfold parseProgramEvent
      rw [hparse]
      rfl

/-! ## Nothing less will do -/

/-- The state of the parser at a line inside the first frame. -/
theorem Attributed.top {f : Frame} {before rest : Log} {t : Token Frame Line}
    {out : List (Printed Swap LpChange)}
    (h : Attributed dec self (.enter f :: (before ++ t :: rest)))
    (hrun : run (fun e t => readLine dec self.chars e (render t)) ⟨[f.program.chars]⟩ before =
      .ok (e, out)) :
    e.stack.head? = some self.chars ↔ innermost (openFrames [f] before) = some self := by
  obtain ⟨e', printed, hparse, htop⟩ := h.stack (.enter f :: before) t rest rfl nofun
  rw [parseLogs_enter, hrun] at hparse
  cases hparse
  exact htop

/-- Logs over these programs and lines. -/
def Logged (self : ProgramId) (ids : ProgramId → Prop) (own foreign : Line → Prop) (log : Log) :
    Prop :=
  TopLevel (fun f => ids f.program) (spokenBy self own foreign) log

/-- A frame of the program, alone in a log. -/
theorem logged_alone {body : Log} (hself : ids self)
    (hbody : Body (fun f => ids f.program) (spokenBy self own foreign) ⟨self, 1⟩ body) :
    Logged self ids own foreign (.enter ⟨self, 1⟩ :: (body ++ .leave ⟨self, 1⟩ :: [])) :=
  .frame (g := (⟨self, 1⟩ : Frame)) hself hbody .nil

/-- A program that returns under a name with `invoke` leaves one entry too many. -/
theorem ids_of_attributed (hself : ids self) (hp : ids p)
    (h : ∀ log, Logged self ids own foreign log → Attributed dec self log) :
    ¬ str "invoke" <:+: p.chars := by
  intro hinvoke
  have hbody : Body (fun f => ids f.program) (spokenBy self own foreign) ⟨self, 1⟩
      [.enter ⟨p, 2⟩, .leave ⟨p, 2⟩] := .frame (g := (⟨p, 2⟩ : Frame)) hp .nil .nil
  have htop := (h _ (logged_alone hself hbody)).top (run_cons (readLine_enter ⟨p, 2⟩)
    (run_cons (readLine_leave_invoke ⟨p, 2⟩ hinvoke) rfl))
  exact self.ne_cpi (Option.some.inj (htop.mpr rfl)).symm

/-- A line of the program itself that cannot be read ends the parser or moves its stack. -/
theorem own_of_attributed (hself : ids self) (hl : own l)
    (h : ∀ log, Logged self ids own foreign log → Attributed dec self log) : l.Readable dec := by
  have hbody : Body (fun f => ids f.program) (spokenBy self own foreign) ⟨self, 1⟩ [.line l] :=
    .line ((if_pos rfl).mpr hl) .nil
  have hattributed := h _ (logged_alone hself hbody)
  have hhandle : handleLog dec self.chars ⟨[self.chars]⟩ l.render =
      handleProgramLog dec self.chars l.render true := if_pos rfl
  cases l with
  | log text => trivial
  | data payload =>
    obtain ⟨e, printed, hparse, -⟩ := hattributed.stack
      [.enter ⟨self, 1⟩, .line (.data payload)] (.leave ⟨self, 1⟩) [] rfl nofun
    rw [handleProgramLog_data] at hhandle
    cases hdecode : decodeData dec (Line.data payload).render payload with
    | ok printed => exact ⟨printed, hdecode⟩
    | error fault =>
      rw [hdecode] at hhandle
      rw [parseLogs_enter, run, render, readLine_error hhandle] at hparse
      cases hparse
  | consumed program units =>
    by_contra hharm
    rw [(named_consumed program units).handleProgramLog] at hhandle
    rcases handleSystemLog_harmful hharm with hpush | hpop
    · rw [hpush] at hhandle
      have htop := hattributed.top (run_cons (readLine_eq hhandle rfl) rfl)
      exact self.ne_cpi (Option.some.inj (htop.mpr rfl)).symm
    · rw [hpop] at hhandle
      have htop := hattributed.top (run_cons (readLine_eq hhandle rfl) rfl)
      cases htop.mpr rfl

/-- A line of another program that reads like a frame shows the parser the wrong program,
before that program returns or after. -/
theorem foreign_of_attributed (hself : ids self) (hp : ids p) (hne : p ≠ self) (hl : foreign l)
    (h : ∀ log, Logged self ids own foreign log → Attributed dec self log) :
    Harmless l.render := by
  have hinvoke := ids_of_attributed hself hp h
  have hbody : Body (fun f => ids f.program) (spokenBy self own foreign) ⟨self, 1⟩
      [.enter ⟨p, 2⟩, .line l, .leave ⟨p, 2⟩] :=
    .frame (g := (⟨p, 2⟩ : Frame)) hp (.line ((if_neg hne).mpr hl) .nil) .nil
  have hattributed := h _ (logged_alone hself hbody)
  have henter : readLine dec self.chars ⟨[self.chars]⟩ (render (.enter ⟨p, 2⟩)) =
      .ok (⟨[str "cpi", self.chars]⟩, []) := by
    rw [readLine_enter, if_neg hne]
    rfl
  have hhandle : handleLog dec self.chars ⟨[str "cpi", self.chars]⟩ l.render =
      .ok (handleSystemLog self.chars l.render, []) :=
    if_neg fun htop => self.ne_cpi (Option.some.inj htop).symm
  by_contra hharm
  rcases handleSystemLog_harmful hharm with hpush | hpop
  · rw [hpush] at hhandle
    have htop := @Attributed.top _ _ _ _ _ _ [.enter ⟨p, 2⟩, .line l, .leave ⟨p, 2⟩] [] _ _
      hattributed (run_cons henter (run_cons (readLine_eq hhandle rfl)
        (run_cons (readLine_leave ⟨p, 2⟩ hinvoke) rfl)))
    exact self.ne_cpi (Option.some.inj (htop.mpr rfl)).symm
  · rw [hpop] at hhandle
    have htop := @Attributed.top _ _ _ _ _ _ [.enter ⟨p, 2⟩, .line l] [.leave ⟨self, 1⟩] _ _
      hattributed (run_cons henter (run_cons (readLine_eq hhandle rfl) rfl))
    exact hne (Option.some.inj (htop.mp rfl))

/-- **Which logs are attributed.** A log over some programs and lines is read rightly where
none of the programs is named like an invocation, no line of the others reads like a frame,
and the program's own lines can be read; and wherever the program and another one may be
invoked, nothing less makes every such log read rightly. -/
theorem attributed_iff (dec : EventDecoder Swap LpChange) (self : ProgramId)
    (ids : ProgramId → Prop) (own foreign : Line → Prop) :
    (Unmistakable dec ids own foreign →
      ∀ log, Logged self ids own foreign log → Attributed dec self log) ∧
    (ids self → (∃ p, ids p ∧ p ≠ self) →
      ((∀ log, Logged self ids own foreign log → Attributed dec self log) ↔
        Unmistakable dec ids own foreign)) := by
  have hsufficient : Unmistakable dec ids own foreign →
      ∀ log, Logged self ids own foreign log → Attributed dec self log :=
    fun h log hlog => attributed_of_unmistakable h hlog
  refine ⟨hsufficient, ?_⟩
  intro hself hother
  refine ⟨?_, hsufficient⟩
  intro h
  obtain ⟨p, hp, hne⟩ := hother
  exact ⟨fun q hq => ids_of_attributed hself hq h, fun l hl => own_of_attributed hself hl h,
    fun l hl => foreign_of_attributed hself hp hne hl h⟩

def ammId : ProgramId where
  chars := str "noMF5Do36aKFUUnDNMQRTMjc39DNczuEtESvUfZa84t"
  base58 := base58_of_all (by decide +kernel)
  length_le := by simp [str]

def tokenId : ProgramId where
  chars := str "TokenkegQfeZyiNwAJbNbGKPFXCWuBvf9Ss623VQ5DA"
  base58 := base58_of_all (by decide +kernel)
  length_le := by simp [str]

/-- Eight zero bytes, an event of neither kind. -/
def examplePayload : List Char := str "AAAAAAAAAAA="

/-- The discriminators of the two events, on the one payload above. -/
def exampleDecoder : EventDecoder Unit Unit where
  base64 log := if log = examplePayload then some (List.replicate 8 0) else none
  swapDiscriminator := [64, 198, 205, 232, 38, 8, 113, 226]
  swap _ := none
  lpChangeDiscriminator := [121, 163, 205, 201, 57, 218, 117, 60]
  lpChange _ := none

/-- The token program logs the one word, alone or inside the program. -/
def successLog : Log :=
  [.enter ⟨tokenId, 1⟩, .line (.log (str "success")), .leave ⟨tokenId, 1⟩]

def invokeLog : Log :=
  [.enter ⟨ammId, 1⟩, .enter ⟨tokenId, 2⟩, .line (.log (str "invoke")), .leave ⟨tokenId, 2⟩,
    .line (.data examplePayload), .leave ⟨ammId, 1⟩]

theorem spokenBy_anything (self : ProgramId) (f : Frame) (l : Line) :
    spokenBy self (fun _ => True) (fun _ => True) f l := by
  unfold spokenBy
  split <;> trivial

/-- Reading the first log pops an empty stack; of the second an event is lost. -/
theorem attributed_fails :
    Logged ammId (fun _ => True) (fun _ => True) (fun _ => True) successLog ∧
      Logged ammId (fun _ => True) (fun _ => True) (fun _ => True) invokeLog ∧
      parseProgramEvent exampleDecoder ammId.chars (successLog.map render) = .error .panic ∧
      parseProgramEvent exampleDecoder ammId.chars (invokeLog.map render) = .ok [] ∧
      ((spoken [] invokeLog).flatMap fun p => expected exampleDecoder ammId p.1 p.2) =
        [.unknown (Line.data examplePayload).render] ∧
      ¬ Attributed exampleDecoder ammId successLog ∧
      ¬ Attributed exampleDecoder ammId invokeLog := by
  have hpanic : parseProgramEvent exampleDecoder ammId.chars (successLog.map render) =
      .error .panic := by decide +kernel
  have hlost : parseProgramEvent exampleDecoder ammId.chars (invokeLog.map render) =
      .ok [] := by decide +kernel
  have hexpected : ((spoken [] invokeLog).flatMap
      fun p => expected exampleDecoder ammId p.1 p.2) =
        [.unknown (Line.data examplePayload).render] := by decide +kernel
  have hline := spokenBy_anything ammId
  refine ⟨?_, ?_, hpanic, hlost, hexpected, ?_, ?_⟩
  · exact TopLevel.frame (g := (⟨tokenId, 1⟩ : Frame)) trivial (.line (hline _ _) .nil) .nil
  · exact TopLevel.frame (g := (⟨ammId, 1⟩ : Frame)) trivial
      (.frame (g := (⟨tokenId, 2⟩ : Frame)) trivial (.line (hline _ _) .nil)
        (.line (hline _ _) .nil)) .nil
  · intro h
    cases hpanic.symm.trans h.printed
  · intro h
    have hprinted := hlost.symm.trans h.printed
    rw [hexpected] at hprinted
    cases hprinted

def transferLine : Line := .log (str "Instruction: TransferChecked")

/-- Between two programs of which the other one only transfers. -/
theorem attributed_iff_transfer :
    Attributed exampleDecoder ammId [.enter ⟨ammId, 1⟩, .enter ⟨tokenId, 2⟩, .line transferLine,
      .leave ⟨tokenId, 2⟩, .line (.data examplePayload), .leave ⟨ammId, 1⟩] := by
  have hne : tokenId ≠ ammId := by decide +kernel
  have hclass := (attributed_iff exampleDecoder ammId (fun p => p = ammId ∨ p = tokenId)
    (fun l => l = .data examplePayload) (fun l => l = transferLine)).2 (.inl rfl)
    ⟨tokenId, .inr rfl, hne⟩
  refine hclass.mpr ⟨?_, ?_, ?_⟩ _ ?_
  · intro p hp
    rcases hp with rfl | rfl <;> decide +kernel
  · intro l hl
    rw [hl]
    exact ⟨.unknown (Line.data examplePayload).render, by decide +kernel⟩
  · intro l hl
    rw [hl]
    exact ⟨by decide +kernel, by decide +kernel⟩
  · exact TopLevel.frame (g := (⟨ammId, 1⟩ : Frame)) (.inl rfl)
      (.frame (g := (⟨tokenId, 2⟩ : Frame)) (.inr rfl) (.line ((if_neg hne).mpr rfl) .nil)
        (.line ((if_pos rfl).mpr rfl) .nil)) .nil

end NomadAmm.Soundness.EventAttribution
