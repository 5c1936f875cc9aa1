import Sentential.Derivation

/-!
# Sessions

A user works on a derivation by commands. A session keeps the steps that it shows and the formulas
that they spell in two lists and changes both in place, and what a command has changed by the time
it fails stays changed.
-/

namespace Sentential

structure Session where
  steps : List Step := []
  formulas : List Formula := []
  deriving DecidableEq, Repr

/-- What is done in a session. A failure says nothing of how the session is left. -/
abbrev SessionM := ExceptT ProofError (StateM Session)

def SessionM.run {α : Type} (m : SessionM α) (s : Session) : Except ProofError α × Session :=
  (ExceptT.run m).run s

namespace Session

def hasInitialFormula (s : Session) : Bool := !s.steps.isEmpty

def current? (s : Session) : Option Formula := s.formulas.getLast?

def clear : SessionM Unit := set ({} : Session)

def push (line : Line) : SessionM Unit := do
  modify fun s => { s with formulas := s.formulas ++ [line.formula] }
  modify fun s => { s with steps := s.steps ++ [line.step] }

def lastStep : SessionM Step := do
  match (← get).steps.getLast? with
  | some step => return step
  | none => throw .noInitialFormula

def start (text : String) : SessionM Step := do
  let line ← Line.ofText text initialLabel
  clear
  push line
  lastStep

def apply (rule : Rule) (text : String) : SessionM Step := do
  let s ← get
  match s.formulas.getLast?, s.steps.getLast? with
  | some source, some shown =>
    let line ← Line.ofText text rule.label
    if rule.check source line.formula then
      push line
      lastStep
    else throw (.ruleMismatch rule shown.formula line.step.formula)
  | _, _ => throw .noInitialFormula

def undo : SessionM Step := do
  match (← get).steps.length with
  | 0 => throw .noInitialFormula
  | 1 => throw .nothingToUndo
  | _ =>
    modify fun s => { s with formulas := s.formulas.dropLast }
    match (← get).steps.getLast? with
    | some step =>
      modify fun s => { s with steps := s.steps.dropLast }
      return step
    | none => throw .nothingToUndo

def perform : Command → SessionM (Option Step)
  | .start text => some <$> start text
  | .apply rule text => some <$> apply rule text
  | .undo => some <$> undo
  | .reset => do
    clear
    return none

/-- Every step but the first is checked against the pair of formulas that it leads between. -/
def isValid (s : Session) : Bool :=
  s.steps.head?.any (·.ruleApplied == initialLabel) &&
    (s.steps.tail.zip (s.formulas.zip s.formulas.tail)).all fun (step, source, target) =>
      (Rule.ofLabel? step.ruleApplied).any (·.check source target)

/-- What a session that begins empty holds after the commands, those that failed included. -/
def after (commands : List Command) : Session :=
  commands.foldl (fun s c => ((perform c).run s).2) {}

end Session

end Sentential
