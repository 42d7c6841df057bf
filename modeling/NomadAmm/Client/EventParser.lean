import Mathlib.Data.List.Infix
import Mathlib.Data.List.TakeWhile
import NomadAmm.Lib.Nesting

/-! `client/src/instructions/events_instructions_parse.rs`: the events of a transaction,
as the command line finds them in its log. A line is a list of characters. Base64 and the
deserialisation of an event belong to libraries and are an `EventDecoder`. -/

namespace NomadAmm.Client

open Lib.Nesting (run)

/-- The text of a literal; never unfolded by the elaborator. -/
@[irreducible] def str (s : String) : List Char := s.toList

def programLog : List Char := str "Program log: "

def programData : List Char := str "Program data: "

def discriminatorLen : Nat := 8

/-! ## Matching -/

/-- `str::strip_prefix`. -/
def stripPrefix (p l : List Char) : Option (List Char) :=
  if p <+: l then some (l.drop p.length) else none

/-- The regular expression `^Program (.*) success*$`, whose star repeats the last letter
and whose dot matches no line break. -/
def isSuccess (l : List Char) : Bool :=
  match stripPrefix (str "Program ") l with
  | none => false
  | some rest =>
    let stem := rest.reverse.dropWhile (· = 's')
    match stripPrefix (str " succe").reverse stem with
    | none => false
    | some program => stem.length < rest.length ∧ '\n' ∉ program

/-- What stands before the last ` invoke`. -/
def beforeLastInvoke : List Char → Option (List Char)
  | [] => none
  | c :: cs =>
    match beforeLastInvoke cs with
    | some program => some (c :: program)
    | none => if str " invoke" <+: c :: cs then some [] else none

/-- The capture of `^Program (.*) invoke.*$`, as greedy as it is. -/
def captureInvoke (l : List Char) : Option (List Char) :=
  if '\n' ∈ l then none else (stripPrefix (str "Program ") l).bind beforeLastInvoke

/-! ## Decoding -/

structure EventDecoder (Swap LpChange : Type) where
  base64 : List Char → Option (List UInt8)
  swapDiscriminator : List UInt8
  swap : List UInt8 → Option Swap
  lpChangeDiscriminator : List UInt8
  lpChange : List UInt8 → Option LpChange

/-- What is printed of one line of data. -/
inductive Printed (Swap LpChange : Type)
  | undecodable (log : List Char)
  | swap (event : Swap)
  | lpChange (event : LpChange)
  | unknown (l : List Char)
  deriving DecidableEq, Repr

/-- The parser exits on an error of its own, and panics on popping an empty stack. -/
inductive ParseFault
  | exit
  | panic
  deriving DecidableEq, Repr

variable {Swap LpChange : Type}

def decodeData (dec : EventDecoder Swap LpChange) (l log : List Char) :
    Except ParseFault (Printed Swap LpChange) :=
  match dec.base64 log with
  | none => .ok (.undecodable log)
  | some borshBytes =>
    if borshBytes.length < discriminatorLen then .error .exit
    else
      let disc := borshBytes.take discriminatorLen
      let slice := borshBytes.drop discriminatorLen
      if disc = dec.swapDiscriminator then
        match dec.swap slice with
        | some event => .ok (.swap event)
        | none => .error .exit
      else if disc = dec.lpChangeDiscriminator then
        match dec.lpChange slice with
        | some event => .ok (.lpChange event)
        | none => .error .exit
      else .ok (.unknown l)

/-! ## The stack of programs -/

/-- The top of the stack comes first. -/
structure Execution where
  stack : List (List Char)
  deriving DecidableEq, Repr

namespace Execution

def new (l : List Char) : Option Execution := (captureInvoke l).map fun program => ⟨[program]⟩

def push (e : Execution) (newProgram : List Char) : Execution := ⟨newProgram :: e.stack⟩

def pop (e : Execution) : Except ParseFault Execution :=
  match e.stack with
  | [] => .error .panic
  | _ :: stack => .ok ⟨stack⟩

end Execution

/-- The program to push, and whether to pop. Any other program is pushed as `cpi`. -/
def handleSystemLog (thisProgram log : List Char) : Option (List Char) × Bool :=
  if str "Program " ++ thisProgram ++ str " invoke" <+: log then (some thisProgram, false)
  else if str "invoke" <:+: log then (some (str "cpi"), false)
  else (none, isSuccess log)

/-- A line while the program itself is on top. -/
def handleProgramLog (dec : EventDecoder Swap LpChange) (selfProgram l : List Char)
    (withPrefix : Bool) :
    Except ParseFault ((Option (List Char) × Bool) × List (Printed Swap LpChange)) :=
  let log :=
    if withPrefix then (stripPrefix programLog l).or (stripPrefix programData l) else some l
  match log with
  | some log =>
    if str "Program log:" <+: l then .ok ((none, false), [])
    else do
      let printed ← decodeData dec l log
      pure ((none, false), [printed])
  | none => .ok (handleSystemLog selfProgram l, [])

/-- The handler is chosen by the program on top. -/
def handleLog (dec : EventDecoder Swap LpChange) (selfProgram : List Char) (e : Execution)
    (l : List Char) :
    Except ParseFault ((Option (List Char) × Bool) × List (Printed Swap LpChange)) :=
  if e.stack.head? = some selfProgram then handleProgramLog dec selfProgram l true
  else .ok (handleSystemLog selfProgram l, [])

/-- Switch program context on CPI, and back when a program returned. -/
def switchProgram (e : Execution) (newProgram : Option (List Char)) (didPop : Bool) :
    Except ParseFault Execution :=
  let pushed := match newProgram with
    | some program => e.push program
    | none => e
  if didPop then pushed.pop else .ok pushed

/-- One turn of the loop. -/
def readLine (dec : EventDecoder Swap LpChange) (selfProgram : List Char) (e : Execution)
    (l : List Char) : Except ParseFault (Execution × List (Printed Swap LpChange)) := do
  let ((newProgram, didPop), printed) ← handleLog dec selfProgram e l
  let switched ← switchProgram e newProgram didPop
  pure (switched, printed)

/-- The stack left by a log, and everything printed. -/
def parseLogs (dec : EventDecoder Swap LpChange) (selfProgram : List Char) :
    List (List Char) → Except ParseFault (Execution × List (Printed Swap LpChange))
  | [] => .ok (⟨[]⟩, [])
  | l :: logs =>
    match Execution.new l with
    | none => .ok (⟨[]⟩, [])
    | some execution => run (readLine dec selfProgram) execution logs

def parseProgramEvent (dec : EventDecoder Swap LpChange) (selfProgram : List Char)
    (logs : List (List Char)) : Except ParseFault (List (Printed Swap LpChange)) :=
  (parseLogs dec selfProgram logs).map Prod.snd

/-! ## What the matches mean -/

section

variable {p l rest : List Char}

theorem stripPrefix_eq_some : stripPrefix p l = some rest ↔ l = p ++ rest := by
  unfold stripPrefix
  constructor
  · intro h
    obtain ⟨hstart, h⟩ := Option.ite_none_right_eq_some.mp h
    cases h
    exact (List.prefix_append_drop hstart)
  · intro h
    rw [h, if_pos (List.prefix_append p rest), List.drop_left]

/-- A list is its stem and what it ends in. -/
theorem eq_stem_append (c : Char) (l : List Char) :
    l = (l.reverse.dropWhile (· = c)).reverse ++
      List.replicate (l.reverse.takeWhile (· = c)).length c := by
  have hall : ∀ a ∈ l.reverse.takeWhile (· = c), a = c := by
    intro a ha
    exact of_decide_eq_true (List.mem_takeWhile_imp (p := fun x => decide (x = c)) ha)
  have hsplit : l.reverse.takeWhile (· = c) ++ l.reverse.dropWhile (· = c) = l.reverse :=
    List.takeWhile_append_dropWhile
  rw [List.eq_replicate_iff.mpr ⟨rfl, hall⟩] at hsplit
  have hreverse := congrArg List.reverse hsplit
  rw [List.reverse_append, List.reverse_reverse, List.reverse_replicate] at hreverse
  exact hreverse.symm

theorem stem_append {c d : Char} (h : d ≠ c) (l : List Char) (n : Nat) :
    (l ++ [d] ++ List.replicate n c).reverse.dropWhile (· = c) = d :: l.reverse := by
  rw [List.reverse_append, List.reverse_append, List.reverse_replicate,
    List.dropWhile_append_of_pos (by simp)]
  exact List.dropWhile_cons_of_neg (by simpa using h)

/-- The expression as it reads. -/
theorem isSuccess_iff : isSuccess l = true ↔ ∃ program repeated, '\n' ∉ program ∧
    l = str "Program " ++ program ++ str " succes" ++ List.replicate repeated 's' := by
  have hsplit : str " succes" = str " succe" ++ ['s'] := by simp [str]
  constructor
  · intro h
    unfold isSuccess at h
    split at h
    · cases h
    · next rest hrest =>
      dsimp only at h
      split at h
      · cases h
      · next program hstem =>
        rw [stripPrefix_eq_some] at hrest hstem
        simp only [Bool.decide_and, Bool.and_eq_true, decide_eq_true_eq] at h
        obtain ⟨hlt, hline⟩ := h
        have hstems := eq_stem_append 's' rest
        have hlength := congrArg List.length hstems
        rw [hstem] at hstems hlength hlt
        rw [List.length_append, List.length_reverse, List.length_replicate] at hlength
        obtain ⟨repeated, hrepeated⟩ :
            ∃ k, (rest.reverse.takeWhile (· = 's')).length = k + 1 := ⟨_, (by omega :
              (rest.reverse.takeWhile (· = 's')).length =
                (rest.reverse.takeWhile (· = 's')).length - 1 + 1)⟩
        refine ⟨program.reverse, repeated, by simpa using hline, ?_⟩
        rw [hrest, hstems, hrepeated, List.reverse_append, List.reverse_reverse, hsplit,
          List.replicate_succ]
        simp only [List.append_assoc, List.singleton_append]
  · intro h
    obtain ⟨program, repeated, hline, rfl⟩ := h
    have hrest : stripPrefix (str "Program ") (str "Program " ++ program ++
        str " succes" ++ List.replicate repeated 's') =
        some (program ++ str " succe" ++ List.replicate (repeated + 1) 's') := by
      rw [stripPrefix_eq_some, hsplit, List.replicate_succ]
      simp only [List.append_assoc, List.singleton_append]
    have hstem : (program ++ str " succe" ++ List.replicate (repeated + 1) 's').reverse.dropWhile
        (· = 's') = (str " succe").reverse ++ program.reverse := by
      have hend : str " succe" = str " succ" ++ ['e'] := by simp [str]
      rw [hend, ← List.append_assoc, stem_append (by decide), List.reverse_append,
        List.reverse_append]
      rfl
    unfold isSuccess
    rw [hrest]
    dsimp only
    rw [hstem, stripPrefix_eq_some.mpr rfl]
    simp only [Bool.decide_and, Bool.and_eq_true, decide_eq_true_eq, List.length_append,
      List.length_reverse, List.length_replicate, List.mem_reverse]
    exact ⟨by omega, hline⟩

/-- No match starts inside a word. -/
theorem beforeLastInvoke_word {word : List Char} (h : ' ' ∉ word)
    (hrest : beforeLastInvoke rest = none) : beforeLastInvoke (word ++ rest) = none := by
  induction word with
  | nil => exact hrest
  | cons c cs ih =>
    have hc : ¬ str " invoke" <+: c :: (cs ++ rest) := by
      intro hstart
      rw [show str " invoke" = ' ' :: str "invoke" by simp [str]] at hstart
      obtain ⟨hhead, -⟩ := List.cons_prefix_cons.mp hstart
      exact h (hhead ▸ List.mem_cons_self)
    rw [List.cons_append, beforeLastInvoke, ih (fun hmem => h (List.mem_cons_of_mem c hmem))]
    exact if_neg hc

/-- A program without blanks stays in front of the last ` invoke`. -/
theorem beforeLastInvoke_append {program found : List Char} (h : ' ' ∉ program)
    (hrest : beforeLastInvoke rest = some found) :
    beforeLastInvoke (program ++ rest) = some (program ++ found) := by
  induction program with
  | nil => exact hrest
  | cons c cs ih =>
    rw [List.cons_append, beforeLastInvoke, ih (fun hmem => h (List.mem_cons_of_mem c hmem))]
    rfl

end

end NomadAmm.Client
