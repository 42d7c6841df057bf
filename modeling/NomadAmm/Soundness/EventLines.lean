import NomadAmm.Client.EventParser

/-! The lines of a log, and how the parser reads each of them. The runtime names a program
in every line of its own, and identifiers hold no blank, so its lines cannot be taken for
text or data; what programs log is quoted by nothing. -/

namespace NomadAmm.Soundness.EventLines

open Lib.Nesting Client

/-! ## The log of a successful transaction -/

def base58Alphabet : List Char :=
  str "123456789ABCDEFGHJKLMNPQRSTUVWXYZabcdefghijkmnopqrstuvwxyz"

/-- 32 bytes in base 58. -/
structure ProgramId where
  chars : List Char
  base58 : ∀ c ∈ chars, c ∈ base58Alphabet
  length_le : 32 ≤ chars.length

theorem ProgramId.ext_iff {p q : ProgramId} : p = q ↔ p.chars = q.chars := by
  constructor
  · intro h
    rw [h]
  · intro h
    cases p
    cases q
    cases h
    rfl

instance : DecidableEq ProgramId := fun _ _ => decidable_of_iff _ ProgramId.ext_iff.symm

/-- An invocation, `[depth]` deep. -/
structure Frame where
  program : ProgramId
  depth : Nat
  deriving DecidableEq

/-- What is logged inside a frame. -/
inductive Line
  | log (text : List Char)
  | data (payload : List Char)
  | consumed (program : ProgramId) (units : List Char)

abbrev Log := List (Token Frame Line)

def Line.render : Line → List Char
  | .log text => programLog ++ text
  | .data payload => programData ++ payload
  | .consumed program units => str "Program " ++ program.chars ++ str " consumed " ++ units

def render : Token Frame Line → List Char
  | .enter f => str "Program " ++ f.program.chars ++
      (str " invoke" ++ (str " [" ++ (Nat.toDigits 10 f.depth ++ str "]")))
  | .line l => l.render
  | .leave f => str "Program " ++ f.program.chars ++ str " success"

variable {Swap LpChange : Type} {dec : EventDecoder Swap LpChange} {self p : ProgramId} {l : Line}
  {line : List Char} {e : Execution}

/-! ## Identifiers -/

theorem base58Alphabet_alphanum : base58Alphabet.all Char.isAlphanum = true := by decide +kernel

theorem ProgramId.not_mem (p : ProgramId) {c : Char} (hc : c.isAlphanum = false) :
    c ∉ p.chars := by
  intro h
  have halphanum := List.all_eq_true.mp base58Alphabet_alphanum c (p.base58 c h)
  rw [hc] at halphanum
  cases halphanum

theorem ProgramId.blank (p : ProgramId) : ' ' ∉ p.chars := p.not_mem rfl

theorem ProgramId.colon (p : ProgramId) : ':' ∉ p.chars := p.not_mem rfl

theorem ProgramId.newline (p : ProgramId) : '\n' ∉ p.chars := p.not_mem rfl

theorem base58_of_all {chars : List Char} (h : chars.all base58Alphabet.contains = true) :
    ∀ c ∈ chars, c ∈ base58Alphabet := by
  intro c hc
  exact List.contains_iff_mem.mp (List.all_eq_true.mp h c hc)

theorem ProgramId.ne_cpi (p : ProgramId) : p.chars ≠ str "cpi" := by
  intro h
  have hlen := p.length_le
  rw [h] at hlen
  exact absurd hlen (by simp [str])

/-- Words before a blank are read off one way. -/
theorem word_inj {u v r t : List Char} (hu : ' ' ∉ u) (hv : ' ' ∉ v)
    (h : u ++ ' ' :: r = v ++ ' ' :: t) : u = v ∧ r = t := by
  induction u generalizing v with
  | nil =>
    cases v with
    | nil => exact ⟨rfl, (List.cons.inj h).2⟩
    | cons c v =>
      obtain ⟨rfl, -⟩ := List.cons.inj h
      exact absurd List.mem_cons_self hv
  | cons c u ih =>
    cases v with
    | nil =>
      obtain ⟨rfl, -⟩ := List.cons.inj h
      exact absurd List.mem_cons_self hu
    | cons d v =>
      obtain ⟨rfl, htail⟩ := List.cons.inj h
      obtain ⟨rfl, rfl⟩ := ih (fun hmem => hu (List.mem_cons_of_mem c hmem))
        (fun hmem => hv (List.mem_cons_of_mem c hmem)) htail
      exact ⟨rfl, rfl⟩

/-- A word found around a blank is found on one side of it. -/
theorem infix_word {w u v : List Char} (hw : ' ' ∉ w) (h : w <:+: u ++ ' ' :: v) :
    w <:+: u ∨ w <:+: v := by
  rcases List.infix_append_iff.mp h with hu | hv | ⟨w₁, w₂, rfl, h₁, h₂⟩
  · exact .inl hu
  · rcases List.infix_cons_iff.mp hv with hstart | hinfix
    · cases w with
      | nil => exact .inl (List.nil_infix)
      | cons c w =>
        obtain ⟨rfl, -⟩ := List.cons_prefix_cons.mp hstart
        exact absurd List.mem_cons_self hw
    · exact .inr hinfix
  · cases w₂ with
    | nil =>
      rw [List.append_nil]
      exact .inl h₁.isInfix
    | cons c w₂ =>
      obtain ⟨rfl, -⟩ := List.cons_prefix_cons.mp h₂
      exact absurd (List.mem_append_right w₁ List.mem_cons_self) hw

/-- No digit of a depth is any other character. -/
theorem toDigits_not_mem {c : Char} (hc : c.isDigit = false) (n : Nat) :
    c ∉ Nat.toDigits 10 n := by
  intro h
  rw [Nat.isDigit_of_mem_toDigits (by decide) (by decide) h] at hc
  cases hc

/-! ## The texts -/

theorem invoke_eq : str " invoke" = ' ' :: str "invoke" := by simp [str]

theorem invoke_cons : str "invoke" = 'i' :: str "nvoke" := by simp [str]

theorem success_eq : str " success" = ' ' :: str "success" := by simp [str]

theorem program_eq : str "Program " = str "Program" ++ [' '] := by simp [str]

theorem programLog_eq : programLog = str "Program " ++ (str "log:" ++ [' ']) := by
  simp [programLog, str]

theorem programData_eq : programData = str "Program " ++ (str "data:" ++ [' ']) := by
  simp [programData, str]

/-! ## How each line is read -/

/-- A line that names a program is neither text nor data. -/
def Named (line : List Char) : Prop :=
  ∃ (p : ProgramId) (rest : List Char), line = str "Program " ++ p.chars ++ rest

/-- No program is named like a prefix that the parser strips. -/
theorem Named.stripPrefix {word : List Char} (h : Named line) (hcolon : ':' ∈ word)
    (hlength : word.length ≤ 32) : stripPrefix (str "Program " ++ word) line = none := by
  obtain ⟨p, rest, rfl⟩ := h
  rw [Option.eq_none_iff_forall_ne_some]
  intro text htext
  rw [stripPrefix_eq_some, List.append_assoc, List.append_assoc] at htext
  have htail := List.append_cancel_left htext
  have hstart : word <+: p.chars := List.prefix_of_prefix_length_le ⟨text, htail.symm⟩
    (List.prefix_append p.chars rest) (hlength.trans p.length_le)
  exact p.colon (hstart.subset hcolon)

theorem Named.handleProgramLog (h : Named line) :
    handleProgramLog dec self.chars line true = .ok (handleSystemLog self.chars line, []) := by
  unfold Client.handleProgramLog
  rw [programLog_eq, programData_eq, h.stripPrefix (by simp [str]) (by simp [str]),
    h.stripPrefix (by simp [str]) (by simp [str])]
  rfl

/-- A line that is read as the runtime's, whoever is on top. -/
theorem handleLog_system (h : e.stack.head? = some self.chars → Named line) :
    handleLog dec self.chars e line = .ok (handleSystemLog self.chars line, []) := by
  unfold handleLog
  by_cases htop : e.stack.head? = some self.chars
  · rw [if_pos htop, (h htop).handleProgramLog]
  · rw [if_neg htop]

theorem readLine_eq {newProgram : Option (List Char)} {didPop : Bool} {e' : Execution}
    {printed : List (Printed Swap LpChange)}
    (h : handleLog dec self.chars e line = .ok ((newProgram, didPop), printed))
    (hswitch : switchProgram e newProgram didPop = .ok e') :
    readLine dec self.chars e line = .ok (e', printed) := by
  unfold readLine
  rw [h]
  change (switchProgram e newProgram didPop >>= fun s => pure (s, printed)) = _
  rw [hswitch]
  rfl

theorem readLine_error {fault : ParseFault} (h : handleLog dec self.chars e line = .error fault) :
    readLine dec self.chars e line = .error fault := by
  unfold readLine
  rw [h]
  rfl

/-! ### The runtime's lines -/

/-- What the parser looks for first contains what it looks for second. -/
theorem not_starts_invoke (h : ¬ str "invoke" <:+: line) :
    ¬ str "Program " ++ self.chars ++ str " invoke" <+: line := by
  intro hstart
  refine h (List.IsInfix.trans ?_ hstart.isInfix)
  refine ⟨str "Program " ++ self.chars ++ [' '], [], ?_⟩
  rw [invoke_eq, List.append_nil, List.append_assoc (str "Program " ++ self.chars)]
  rfl

/-- A line without `invoke` pops or does nothing. -/
theorem handleSystemLog_quiet (h : ¬ str "invoke" <:+: line) :
    handleSystemLog self.chars line = (none, isSuccess line) := by
  unfold handleSystemLog
  rw [if_neg (not_starts_invoke h), if_neg h]

/-- The program a line of the runtime names is read off it. -/
theorem named_inj {p q : ProgramId} {r t : List Char}
    (h : str "Program " ++ p.chars ++ ' ' :: r = str "Program " ++ q.chars ++ ' ' :: t) :
    p = q ∧ r = t := by
  rw [List.append_assoc, List.append_assoc] at h
  obtain ⟨hchars, htail⟩ := word_inj p.blank q.blank (List.append_cancel_left h)
  exact ⟨ProgramId.ext_iff.mpr hchars, htail⟩

theorem render_enter (f : Frame) : render (.enter f) = str "Program " ++ f.program.chars ++
    ' ' :: (str "invoke" ++ (str " [" ++ (Nat.toDigits 10 f.depth ++ str "]"))) := by
  unfold render
  dsimp only
  rw [invoke_eq, List.cons_append]

theorem render_leave (f : Frame) :
    render (.leave f) = str "Program " ++ f.program.chars ++ ' ' :: str "success" := by
  unfold render
  dsimp only
  rw [success_eq]

theorem handleSystemLog_enter (f : Frame) : handleSystemLog self.chars (render (.enter f)) =
    (some (if f.program = self then self.chars else str "cpi"), false) := by
  unfold handleSystemLog
  by_cases hself : f.program = self
  · have hstart : str "Program " ++ self.chars ++ str " invoke" <+: render (.enter f) := by
      rw [render_enter, hself, invoke_eq, List.prefix_append_right_inj, List.cons_prefix_cons]
      exact ⟨rfl, List.prefix_append _ _⟩
    rw [if_pos hstart, if_pos hself]
  · have hstart : ¬ str "Program " ++ self.chars ++ str " invoke" <+: render (.enter f) := by
      intro hstart
      obtain ⟨rest, h⟩ := hstart
      rw [render_enter, invoke_eq, List.append_assoc _ _ rest] at h
      exact hself (named_inj h).1.symm
    have hinfix : str "invoke" <:+: render (.enter f) := by
      rw [render_enter]
      refine ⟨str "Program " ++ f.program.chars ++ [' '],
        str " [" ++ (Nat.toDigits 10 f.depth ++ str "]"), ?_⟩
      simp only [List.append_assoc, List.cons_append, List.nil_append]
    rw [if_neg hstart, if_pos hinfix, if_neg hself]

theorem infix_leave (f : Frame) :
    str "invoke" <:+: render (.leave f) ↔ str "invoke" <:+: f.program.chars := by
  have hblank : ' ' ∉ str "invoke" := by simp [str]
  rw [render_leave]
  constructor
  · intro h
    rcases infix_word hblank h with h | h
    · rw [program_eq, List.append_assoc, List.singleton_append] at h
      rcases infix_word hblank h with h | h
      · exact absurd h (by unfold str; decide)
      · exact h
    · exact absurd h (by unfold str; decide)
  · intro h
    exact h.trans ⟨str "Program ", ' ' :: str "success", rfl⟩

theorem handleSystemLog_leave (f : Frame) (h : ¬ str "invoke" <:+: f.program.chars) :
    handleSystemLog self.chars (render (.leave f)) = (none, true) := by
  have hsuccess : isSuccess (render (.leave f)) = true := by
    refine isSuccess_iff.mpr ⟨f.program.chars, 1, f.program.newline, ?_⟩
    rw [render_leave, List.append_assoc _ (str " succes")]
    exact congrArg _ (by simp [str])
  rw [handleSystemLog_quiet ((infix_leave f).not.mpr h), hsuccess]

/-- A program with `invoke` in its name returns, and is read as one more invocation. -/
theorem handleSystemLog_leave_invoke (f : Frame) (h : str "invoke" <:+: f.program.chars) :
    handleSystemLog self.chars (render (.leave f)) = (some (str "cpi"), false) := by
  have hstart : ¬ str "Program " ++ self.chars ++ str " invoke" <+: render (.leave f) := by
    intro hstart
    obtain ⟨rest, hline⟩ := hstart
    rw [render_leave, invoke_eq, List.append_assoc _ _ rest] at hline
    have htail := (named_inj hline).2
    rw [invoke_cons, show str "success" = 's' :: str "uccess" by simp [str]] at htail
    cases (List.cons.inj htail).1
  unfold handleSystemLog
  rw [if_neg hstart, if_pos ((infix_leave f).mpr h)]

/-- The blank before a depth starts no match, so the one before `invoke` is the last. -/
theorem beforeLastInvoke_depth (n : Nat) :
    beforeLastInvoke (str " invoke" ++ (str " [" ++ (Nat.toDigits 10 n ++ str "]"))) =
      some [] := by
  have hblank : ' ' ∉ '[' :: (Nat.toDigits 10 n ++ str "]") := by
    simp only [List.mem_cons, List.mem_append, not_or]
    exact ⟨by decide, toDigits_not_mem (by decide) _, by simp [str]⟩
  have hdepth : beforeLastInvoke ('[' :: (Nat.toDigits 10 n ++ str "]")) = none := by
    rw [← List.append_nil ('[' :: (Nat.toDigits 10 n ++ str "]"))]
    exact beforeLastInvoke_word hblank rfl
  have hbracket : ¬ str " invoke" <+: ' ' :: '[' :: (Nat.toDigits 10 n ++ str "]") := by
    rw [invoke_eq, invoke_cons, List.cons_prefix_cons, List.cons_prefix_cons]
    exact fun h => absurd h.2.1 (by decide)
  have htail : beforeLastInvoke (' ' :: '[' :: (Nat.toDigits 10 n ++ str "]")) = none := by
    rw [beforeLastInvoke, hdepth]
    exact if_neg hbracket
  have hword : beforeLastInvoke (str "invoke" ++ ' ' :: '[' :: (Nat.toDigits 10 n ++ str "]")) =
      none := beforeLastInvoke_word (by simp [str]) htail
  rw [show str " [" = [' ', '['] by simp [str], List.cons_append, List.singleton_append,
    invoke_eq, List.cons_append, beforeLastInvoke, hword]
  refine if_pos ?_
  rw [invoke_eq, List.cons_prefix_cons]
  exact ⟨rfl, List.prefix_append _ _⟩

theorem execution_new (f : Frame) :
    Execution.new (render (.enter f)) = some ⟨[f.program.chars]⟩ := by
  have hline : '\n' ∉ render (.enter f) := by
    rw [render_enter]
    simp only [List.mem_append, List.mem_cons, not_or]
    exact ⟨⟨by simp [str], f.program.newline⟩, by decide, by simp [str], by simp [str],
      toDigits_not_mem (by decide) _, by simp [str]⟩
  have hcapture : captureInvoke (render (.enter f)) = some f.program.chars := by
    have hstrip : stripPrefix (str "Program ") (render (.enter f)) = some (f.program.chars ++
        (str " invoke" ++ (str " [" ++ (Nat.toDigits 10 f.depth ++ str "]")))) := by
      rw [stripPrefix_eq_some, render_enter, invoke_eq, List.append_assoc]
      rfl
    rw [captureInvoke, if_neg hline, hstrip, Option.bind_some,
      beforeLastInvoke_append f.program.blank (beforeLastInvoke_depth _), List.append_nil]
  unfold Execution.new
  rw [hcapture]
  rfl

theorem named_enter (f : Frame) : Named (render (.enter f)) := ⟨f.program, _, render_enter f⟩

theorem named_leave (f : Frame) : Named (render (.leave f)) := ⟨f.program, _, render_leave f⟩

theorem readLine_enter (f : Frame) : readLine dec self.chars e (render (.enter f)) =
    .ok (e.push (if f.program = self then self.chars else str "cpi"), []) := by
  have hlog := @handleLog_system _ _ dec self _ e fun _ => named_enter f
  rw [handleSystemLog_enter] at hlog
  exact readLine_eq hlog rfl

theorem readLine_leave {entry : List Char} {stack : List (List Char)} (f : Frame)
    (h : ¬ str "invoke" <:+: f.program.chars) :
    readLine dec self.chars ⟨entry :: stack⟩ (render (.leave f)) = .ok (⟨stack⟩, []) := by
  have hlog := @handleLog_system _ _ dec self _ ⟨entry :: stack⟩ fun _ => named_leave f
  rw [handleSystemLog_leave f h] at hlog
  exact readLine_eq hlog rfl

theorem readLine_leave_invoke (f : Frame) (h : str "invoke" <:+: f.program.chars) :
    readLine dec self.chars e (render (.leave f)) = .ok (e.push (str "cpi"), []) := by
  have hlog := @handleLog_system _ _ dec self _ e fun _ => named_leave f
  rw [handleSystemLog_leave_invoke f h] at hlog
  exact readLine_eq hlog rfl

/-! ### Lines of a program -/

/-- Nothing in a line reads like a frame. -/
def Harmless (line : List Char) : Prop := ¬ str "invoke" <:+: line ∧ isSuccess line = false

theorem handleSystemLog_harmless (h : Harmless line) :
    handleSystemLog self.chars line = (none, false) := by
  rw [handleSystemLog_quiet h.1, h.2]

theorem render_log (text : List Char) :
    (Line.log text).render = str "Program " ++ (str "log:" ++ ' ' :: text) := by
  unfold Line.render
  dsimp only
  rw [programLog_eq]
  simp only [List.append_assoc, List.singleton_append]

theorem render_data (payload : List Char) :
    (Line.data payload).render = str "Program " ++ (str "data:" ++ ' ' :: payload) := by
  unfold Line.render
  dsimp only
  rw [programData_eq]
  simp only [List.append_assoc, List.singleton_append]

/-- No program can log a line that reads like an invocation of this one. -/
theorem not_invocation (l : Line) :
    ¬ str "Program " ++ self.chars ++ str " invoke" <+: l.render := by
  have hword : ∀ (word : List Char) (rest text : List Char), ' ' ∉ word → word.length < 32 →
      ¬ str "Program " ++ self.chars ++ str " invoke" ++ rest =
        str "Program " ++ (word ++ ' ' :: text) := by
    intro word rest text hblank hlength h
    rw [invoke_eq, List.append_assoc, List.append_assoc] at h
    obtain ⟨hchars, -⟩ := word_inj self.blank hblank (List.append_cancel_left h)
    have hle := self.length_le
    rw [hchars] at hle
    omega
  intro hstart
  obtain ⟨rest, h⟩ := hstart
  cases l with
  | log text =>
    exact hword (str "log:") rest text (by simp [str]) (by simp [str]) (h.trans (render_log text))
  | data payload =>
    exact hword (str "data:") rest payload (by simp [str]) (by simp [str])
      (h.trans (render_data payload))
  | consumed program units =>
    unfold Line.render at h
    dsimp only at h
    rw [invoke_eq, show str " consumed " = ' ' :: 'c' :: str "onsumed " by simp [str],
      List.append_assoc _ _ rest, List.append_assoc _ _ units] at h
    have htail := (named_inj h).2
    rw [invoke_cons] at htail
    cases (List.cons.inj htail).1

/-- A line that is not harmless pushes a program or pops one. -/
theorem handleSystemLog_harmful (h : ¬ Harmless l.render) :
    handleSystemLog self.chars l.render = (some (str "cpi"), false) ∨
      handleSystemLog self.chars l.render = (none, true) := by
  by_cases hinvoke : str "invoke" <:+: l.render
  · refine .inl ?_
    unfold handleSystemLog
    rw [if_neg (not_invocation l), if_pos hinvoke]
  · refine .inr ?_
    have hsuccess : isSuccess l.render = true :=
      (Bool.not_eq_false _).mp fun hfalse => h ⟨hinvoke, hfalse⟩
    rw [handleSystemLog_quiet hinvoke, hsuccess]

/-- What the program itself may log: any text, data that decodes, and no line that reads
like a frame. -/
def Line.Readable (dec : EventDecoder Swap LpChange) : Line → Prop
  | .log _ => True
  | .data payload => ∃ printed, decodeData dec (Line.data payload).render payload = .ok printed
  | .consumed program units => Harmless (Line.consumed program units).render

/-- What is printed of a line of the program itself. -/
def printedOf (dec : EventDecoder Swap LpChange) : Line → List (Printed Swap LpChange)
  | .data payload => (decodeData dec (Line.data payload).render payload).toOption.toList
  | _ => []

theorem named_consumed (program : ProgramId) (units : List Char) :
    Named (Line.consumed program units).render :=
  ⟨program, str " consumed " ++ units, List.append_assoc _ _ _⟩

theorem handleProgramLog_data (payload : List Char) :
    handleProgramLog dec self.chars (Line.data payload).render true =
      (decodeData dec (Line.data payload).render payload).map fun p => ((none, false), [p]) := by
  have hlog : ∀ word : List Char, word.length ≤ programData.length → ¬ word <+: programData →
      ¬ word <+: (Line.data payload).render := by
    intro word hlength hword hstart
    exact hword (List.prefix_of_prefix_length_le hstart (List.prefix_append _ _) hlength)
  have hnolog : stripPrefix programLog (Line.data payload).render = none :=
    if_neg (hlog programLog (by simp [programLog, programData, str])
      (by simp [programLog, programData, str]))
  have hstrip : stripPrefix programData (Line.data payload).render = some payload :=
    stripPrefix_eq_some.mpr rfl
  have hnot := hlog (str "Program log:") (by simp [programData, str])
    (by simp [programData, str])
  unfold handleProgramLog
  simp only [if_true, hnolog, Option.none_or, hstrip, hnot, if_false]
  cases decodeData dec (Line.data payload).render payload with
  | error fault => rfl
  | ok printed => rfl

theorem handleProgramLog_line (h : l.Readable dec) :
    handleProgramLog dec self.chars l.render true = .ok ((none, false), printedOf dec l) := by
  cases l with
  | log text =>
    have hstart : str "Program log:" <+: programLog ++ text :=
      (show str "Program log:" <+: programLog by simp [programLog, str]).trans
        (List.prefix_append _ _)
    have hstrip : stripPrefix programLog (programLog ++ text) = some text :=
      stripPrefix_eq_some.mpr rfl
    unfold handleProgramLog Line.render
    simp only [if_true, hstrip, Option.some_or, hstart]
    rfl
  | data payload =>
    obtain ⟨printed, hdecode⟩ := h
    have hprinted : printedOf dec (.data payload) = [printed] := by
      unfold printedOf
      dsimp only
      rw [hdecode]
      rfl
    rw [handleProgramLog_data, hdecode, hprinted]
    rfl
  | consumed program units =>
    rw [(named_consumed program units).handleProgramLog, handleSystemLog_harmless h]
    rfl

end NomadAmm.Soundness.EventLines
