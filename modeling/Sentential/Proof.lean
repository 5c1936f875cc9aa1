import Sentential.Derivation
import Sentential.Seal

/-!
# Proofs

A derivation on its way to a target. A proof travels through the user's hands as a record of texts
with a seal, and is read again from such a record; a record that was edited no longer fits its seal.
-/

namespace Sentential

structure Proof where
  derivation : Derivation
  target : Formula
  deriving DecidableEq, Repr

structure ProofRecord where
  steps : List Step
  target : String
  sealHex : String
  deriving DecidableEq, Repr

inductive Move
  | apply (rule : Rule) (text : String)
  | undo
  deriving DecidableEq, Repr

structure Verdict where
  closed : Bool
  message : String
  deriving DecidableEq, Repr

namespace Proof

def start (text : String) (target? : Option String) : Except ProofError Proof := do
  let target ←
    match target? with
    | some target => Formula.read target
    | none => .ok (.const true)
  return ⟨← Derivation.start text, target⟩

def move (p : Proof) : Move → Except ProofError Proof
  | .apply rule text => do return { p with derivation := ← p.derivation.apply rule text }
  | .undo => do return { p with derivation := ← p.derivation.undo }

def isValid (p : Proof) : Bool := p.derivation.isValid

def verdict (p : Proof) : Verdict :=
  match p.derivation.lines with
  | [] => ⟨false, s!"The proof is not closed, {p.target} has not been reached"⟩
  | first :: lines =>
    if (lines.getLastD first).formula = p.target then
      ⟨true, s!"The proof is closed: {first.step.formula} is equivalent to {p.target}"⟩
    else ⟨false, s!"The proof is not closed, {p.target} has not been reached"⟩

def sealedText (p : Proof) : String :=
  let steps := p.derivation.steps.map fun s => s.formula ++ ":" ++ s.ruleApplied
  s!"equivproof|{p.target}|[" ++ ", ".intercalate steps ++ "]"

def record (p : Proof) : ProofRecord :=
  ⟨p.derivation.steps, toString p.target, Seal.ofText p.sealedText⟩

/-- The steps are read first, then the target, and only then is the seal looked at. -/
def ofRecord (r : ProofRecord) : Except ProofError Proof := do
  let p : Proof := ⟨← Derivation.ofSteps r.steps, ← Formula.read r.target⟩
  if Seal.verify p.sealedText r.sealHex then return p
  else throw .invalidSeal

end Proof

end Sentential
