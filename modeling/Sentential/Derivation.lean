import Sentential.Parser
import Sentential.Rule

/-!
# Derivations

A derivation begins with a formula, and each later line follows from the line before by a rule. The
lines hold the text that is shown and the formula that it spells.
-/

namespace Sentential

inductive ProofError
  | malformed (e : SyntaxError)
  | unknownRule (name : String)
  | ruleMismatch (rule : Rule) (source target : String)
  | noInitialFormula
  | nothingToUndo
  | invalidSeal
  deriving DecidableEq, Repr

def ProofError.message : ProofError → String
  | .malformed e => e.message
  | .unknownRule name => s!"Unknown rule '{name}'"
  | .ruleMismatch rule source target =>
    s!"Incorrect application of the {rule.label}: '{target}' does not follow from '{source}'"
  | .noInitialFormula => "Please set an initial formula first"
  | .nothingToUndo => "There is no step to undo"
  | .invalidSeal => "Invalid tamper protection seal"

def Rule.ofName (name : String) : Except ProofError Rule :=
  match Rule.ofName? name with
  | some rule => .ok rule
  | none => .error (.unknownRule name)

def Formula.read (text : String) : Except ProofError Formula :=
  match Formula.ofText text.toList with
  | .error e => .error (.malformed e)
  | .ok f => .ok f

def Rule.checkTexts (name source target : String) : Except ProofError Bool := do
  let x ← Formula.read source
  let y ← Formula.read target
  let rule ← Rule.ofName name
  return rule.check x y

structure Step where
  formula : String
  ruleApplied : String
  deriving DecidableEq, Repr

structure Line where
  step : Step
  formula : Formula
  deriving DecidableEq, Repr

def initialLabel : String := "Initial Formula"

def Line.ofText (text label : String) : Except ProofError Line :=
  match Parsed.ofText text.toList with
  | .error e => .error (.malformed e)
  | .ok parsed => .ok ⟨⟨String.ofList (Token.render parsed.tokens), label⟩, parsed.root⟩

def Line.ofStep (step : Step) : Except ProofError Line := do
  return ⟨step, ← Formula.read step.formula⟩

structure Derivation where
  lines : List Line := []
  deriving DecidableEq, Repr

namespace Derivation

def steps (d : Derivation) : List Step := d.lines.map Line.step

def formulas (d : Derivation) : List Formula := d.lines.map Line.formula

def current? (d : Derivation) : Option Formula := d.lines.getLast?.map Line.formula

def push (d : Derivation) (line : Line) : Derivation := ⟨d.lines ++ [line]⟩

def start (text : String) : Except ProofError Derivation := do
  return ⟨[← Line.ofText text initialLabel]⟩

def apply (d : Derivation) (rule : Rule) (text : String) : Except ProofError Derivation :=
  match d.lines.getLast? with
  | none => .error .noInitialFormula
  | some last => do
    let line ← Line.ofText text rule.label
    if rule.check last.formula line.formula then return d.push line
    else throw (.ruleMismatch rule last.step.formula line.step.formula)

def undo (d : Derivation) : Except ProofError Derivation :=
  match d.lines with
  | [] => .error .noInitialFormula
  | [_] => .error .nothingToUndo
  | lines => .ok ⟨lines.dropLast⟩

def ofSteps (steps : List Step) : Except ProofError Derivation := do
  return ⟨← steps.mapM Line.ofStep⟩

def isChained (previous : Line) : List Line → Bool
  | [] => true
  | line :: lines =>
    (Rule.ofLabel? line.step.ruleApplied).any (·.check previous.formula line.formula) &&
      isChained line lines

def isValid (d : Derivation) : Bool :=
  match d.lines with
  | [] => false
  | first :: lines => first.step.ruleApplied == initialLabel && isChained first lines

end Derivation

inductive Command
  | start (text : String)
  | apply (rule : Rule) (text : String)
  | undo
  | reset
  deriving DecidableEq, Repr

namespace Derivation

/-- The derivation after a command, and the step that was added or taken away. -/
def run (d : Derivation) : Command → Except ProofError (Derivation × Option Step)
  | .start text => do
    let next ← start text
    return (next, next.steps.getLast?)
  | .apply rule text => do
    let next ← d.apply rule text
    return (next, next.steps.getLast?)
  | .undo => do
    let next ← d.undo
    return (next, d.steps.getLast?)
  | .reset => .ok ({}, none)

end Derivation

end Sentential
