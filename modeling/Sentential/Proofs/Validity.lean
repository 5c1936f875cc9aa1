import Sentential.Proofs.Reloading

/-!
# Moves keep validity

A move looks at the last line only, and validity is a matter of one line after the other. So
however the lines of a proof came to be labelled, applying a rule leaves it as valid or as invalid
as it was, and a valid proof stays valid when its last line is taken back:
`Proof.move_keeps_validity`.
-/

namespace Sentential

/-- The verdict as it is looked up in the steps and in the formulas that they spell. There is none
if it would name a step that is not there. -/
def Verdict.lookup? (steps : List Step) (formulas : List Formula) (target : Formula) :
    Option Verdict := do
  if formulas.getLast? = some target then
    let first ← steps[0]?
    return ⟨true, s!"The proof is closed: {first.formula} is equivalent to {target}"⟩
  else return ⟨false, s!"The proof is not closed, {target} has not been reached"⟩

namespace Proof

variable {p next : Proof} {rule : Rule} {text : String}

theorem verdict_eq_lookup (p : Proof) :
    Verdict.lookup? p.derivation.steps p.derivation.formulas p.target = some p.verdict := by
  obtain ⟨⟨lines⟩, target⟩ := p
  cases lines with
  | nil => rfl
  | cons first lines =>
    have last : (Derivation.formulas ⟨first :: lines⟩).getLast? =
        some (lines.getLast?.getD first).formula := by
      rw [Derivation.formulas, List.getLast?_map, List.getLast?_cons]
      rfl
    by_cases reached : (lines.getLast?.getD first).formula = target
    · simp [Verdict.lookup?, verdict, Derivation.steps, last, reached]
    · simp [Verdict.lookup?, verdict, last, reached]

theorem move_apply (h : p.move (.apply rule text) = .ok next) :
    next.target = p.target ∧
      (∃ step, next.derivation.steps = p.derivation.steps ++ [step] ∧
        step.ruleApplied = rule.label) ∧
      next.isValid = p.isValid := by
  obtain ⟨target, applied⟩ := move_eq_ok.mp h
  refine ⟨target, ?_, Bool.eq_iff_iff.mpr (Derivation.isValid_apply applied)⟩
  obtain ⟨last, line, -, read, -, pushed⟩ := Derivation.apply_eq_ok.mp applied
  obtain ⟨parsed, -, rfl⟩ := Line.ofText_eq_ok.mp read
  exact ⟨_, by rw [pushed, Derivation.steps, Derivation.push, List.map_append]; rfl, rfl⟩

theorem move_undo (h : p.move .undo = .ok next) :
    next.target = p.target ∧ next.derivation.steps = p.derivation.steps.dropLast ∧
      p.derivation.steps ≠ [] ∧ (p.isValid → next.isValid) := by
  obtain ⟨target, undone⟩ := move_eq_ok.mp h
  obtain ⟨long, shorter⟩ := Derivation.undo_eq_ok.mp undone
  refine ⟨target, ?_, ?_, fun valid => Derivation.isValid_undo valid undone⟩
  · rw [shorter, Derivation.steps, Derivation.steps, List.map_dropLast]
  · rintro none
    simp [List.map_eq_nil_iff.mp none] at long

theorem move_eq_error_of_empty (h : p.derivation.steps = []) (m : Move) :
    p.move m = .error .noInitialFormula := by
  obtain ⟨⟨lines⟩, target⟩ := p
  obtain rfl : lines = [] := List.map_eq_nil_iff.mp h
  cases m <;> rfl

theorem undo_eq_error_of_single (h : p.derivation.steps.length = 1) :
    p.move .undo = .error .nothingToUndo := by
  obtain ⟨⟨lines⟩, target⟩ := p
  obtain ⟨only, rfl⟩ : ∃ only, lines = [only] :=
    List.length_eq_one_iff.mp (List.length_map Line.step ▸ h)
  rfl

/-- Whatever the steps of a proof are labelled with, a move does not spoil it. A rule that is
applied adds one step and keeps the target, and the proof is as valid as it was; undoing takes the
last step and keeps the target, and a valid proof stays valid. Without steps there is no move, and a
single step is not taken back. A verdict names no step that is missing. -/
theorem move_keeps_validity (p : Proof) :
    (∀ rule text next, p.move (.apply rule text) = .ok next →
      next.target = p.target ∧
        (∃ step, next.derivation.steps = p.derivation.steps ++ [step] ∧
          step.ruleApplied = rule.label) ∧
        next.isValid = p.isValid) ∧
    (∀ next, p.move .undo = .ok next →
      next.target = p.target ∧ next.derivation.steps = p.derivation.steps.dropLast ∧
        p.derivation.steps ≠ [] ∧ (p.isValid → next.isValid)) ∧
    (p.derivation.steps = [] → ∀ m, p.move m = .error .noInitialFormula) ∧
    (p.derivation.steps.length = 1 → p.move .undo = .error .nothingToUndo) ∧
    Verdict.lookup? p.derivation.steps p.derivation.formulas p.target = some p.verdict :=
  ⟨fun _ _ _ => move_apply, fun _ => move_undo, move_eq_error_of_empty, undo_eq_error_of_single,
    verdict_eq_lookup p⟩

def labelled (label : String) : Proof where
  derivation := ⟨[
    ⟨⟨"A & TRUE", label⟩, .binary .and (.var 'A') (.const true)⟩,
    ⟨⟨"A", Rule.identity.label⟩, .var 'A'⟩]⟩
  target := .const true

theorem move_keeps_validity_labelled :
    (ofRecord (labelled "Guess").record = .ok (labelled "Guess") ∧
      (labelled "Guess").isValid = false ∧
      ∃ next, (labelled "Guess").move (.apply .identity "⊤ & A") = .ok next ∧
        next.derivation.steps.length = 3 ∧ next.isValid = false) ∧
    ((labelled initialLabel).isValid ∧
      ∃ next, (labelled initialLabel).move .undo = .ok next ∧ next.isValid ∧
        next.move .undo = .error .nothingToUndo) ∧
    (⟨{}, .const true⟩ : Proof).move .undo = .error .noInitialFormula := by
  have lines : ∀ line ∈ (labelled "Guess").derivation.lines,
      Formula.read line.step.formula = .ok line.formula := by decide +kernel
  have spelled : (labelled "Guess").Spelled := ⟨lines, by decide +kernel⟩
  have applied : (labelled "Guess").move (.apply .identity "⊤ & A") =
      .ok ⟨(labelled "Guess").derivation.push ⟨⟨"⊤ ∧ A", Rule.identity.label⟩,
        .binary .and (.const true) (.var 'A')⟩, .const true⟩ := by decide +kernel
  have undone : (labelled initialLabel).move .undo =
      .ok ⟨⟨(labelled initialLabel).derivation.lines.dropLast⟩, .const true⟩ := rfl
  have invalid : (labelled "Guess").isValid = false := by decide
  have valid : (labelled initialLabel).isValid := by decide
  obtain ⟨-, ⟨step, longer, -⟩, asBefore⟩ := (move_keeps_validity _).1 _ _ _ applied
  obtain ⟨-, -, -, kept⟩ := (move_keeps_validity _).2.1 _ undone
  obtain ⟨-, -, -, single, -⟩ := move_keeps_validity
    ⟨⟨(labelled initialLabel).derivation.lines.dropLast⟩, .const true⟩
  obtain ⟨-, -, empty, -⟩ := move_keeps_validity ⟨{}, .const true⟩
  exact ⟨⟨ofRecord_record spelled, invalid, _, applied, by rw [longer]; rfl,
      asBefore.trans invalid⟩, ⟨valid, _, undone, kept valid, single rfl⟩, empty rfl .undo⟩

end Proof

end Sentential
