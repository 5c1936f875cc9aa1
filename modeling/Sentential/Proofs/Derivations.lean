import Sentential.Proofs.Moves
import Sentential.Proofs.Soundness

/-!
# What every operation keeps

However a derivation was come by, the text of each of its lines spells the line's formula. One that
was started and not read from a record is valid as well: starting, applying a rule and taking a line
back all keep its lines chained.
-/

namespace Sentential

theorem Rule.label_of_ofLabel? {label : String} {rule : Rule} (h : ofLabel? label = some rule) :
    rule.label = label := by
  simpa using List.find?_some h

namespace Derivation

variable {d next : Derivation} {text : String} {rule : Rule}

-- ---------------------------------------------------------------------------
-- The texts of the lines
-- ---------------------------------------------------------------------------

def Spelled (d : Derivation) : Prop :=
  ∀ line ∈ d.lines, Formula.read line.step.formula = .ok line.formula

theorem spelled_of_start (h : start text = .ok d) : d.Spelled := by
  obtain ⟨line, read, rfl⟩ := start_eq_ok.mp h
  exact List.forall_mem_singleton.mpr (Line.read_of_ofText read)

theorem spelled_of_ofSteps {steps : List Step} (h : ofSteps steps = .ok d) : d.Spelled :=
  (ofSteps_eq_ok.mp h).2

theorem Spelled.apply (hd : d.Spelled) (h : d.apply rule text = .ok next) : next.Spelled := by
  obtain ⟨last, line, -, read, -, rfl⟩ := apply_eq_ok.mp h
  exact List.forall_mem_append.mpr
    ⟨hd, List.forall_mem_singleton.mpr (Line.read_of_ofText read)⟩

theorem Spelled.undo (hd : d.Spelled) (h : d.undo = .ok next) : next.Spelled := by
  obtain ⟨-, rfl⟩ := undo_eq_ok.mp h
  exact fun line mem => hd line (List.dropLast_subset _ mem)

-- ---------------------------------------------------------------------------
-- The chain of the lines
-- ---------------------------------------------------------------------------

theorem isChained_concat {previous line : Line} {lines : List Line} :
    isChained previous (lines ++ [line]) ↔
      isChained previous lines ∧ isChained (lines.getLastD previous) [line] := by
  induction lines generalizing previous with
  | nil => simp [isChained]
  | cons second lines ih =>
    rw [List.cons_append, isChained, isChained, Bool.and_eq_true, Bool.and_eq_true, ih, and_assoc,
      List.getLastD_cons]

theorem isChained_link {previous : Line} {lines : List Line} (h : isChained previous lines)
    {i : Nat} {source target : Line} (hs : (previous :: lines)[i]? = some source)
    (ht : lines[i]? = some target) :
    ∃ rule : Rule, target.step.ruleApplied = rule.label ∧
      rule.check source.formula target.formula := by
  induction lines generalizing previous i with
  | nil => simp at ht
  | cons second lines ih =>
    simp only [isChained, Bool.and_eq_true, Option.any_eq_true] at h
    obtain ⟨⟨rule, named, checked⟩, rest⟩ := h
    cases i with
    | zero =>
      obtain rfl : previous = source := by simpa using hs
      obtain rfl : second = target := by simpa using ht
      exact ⟨rule, (Rule.label_of_ofLabel? named).symm, checked⟩
    | succ i => exact ih rest (by simpa using hs) (by simpa using ht)

theorem eq_empty_or_push (d : Derivation) : d = {} ∨ ∃ before line, d = push before line := by
  obtain ⟨lines⟩ := d
  rcases List.eq_nil_or_concat lines with rfl | ⟨before, line, rfl⟩
  · exact .inl rfl
  · exact .inr ⟨⟨before⟩, line, by rw [push, List.concat_eq_append]⟩

theorem getLast?_steps_push (d : Derivation) (line : Line) :
    (d.push line).steps.getLast? = some line.step := by
  simp [push, steps]

theorem undo_push {line : Line} (filled : d.lines ≠ []) : (d.push line).undo = .ok d := by
  have some : 0 < d.lines.length := List.length_pos_iff.mpr filled
  refine undo_eq_ok.mpr ⟨?_, ?_⟩
  · rw [push, List.length_append, List.length_singleton]
    omega
  · rw [push, List.dropLast_concat]

theorem isValid_cons {first : Line} {lines : List Line} :
    isValid ⟨first :: lines⟩ ↔ first.step.ruleApplied = initialLabel ∧ isChained first lines := by
  simp [isValid]

theorem isValid_of_start (h : start text = .ok d) : d.isValid := by
  obtain ⟨line, read, rfl⟩ := start_eq_ok.mp h
  obtain ⟨parsed, -, rfl⟩ := Line.ofText_eq_ok.mp read
  exact isValid_cons.mpr ⟨rfl, rfl⟩

/-- A line that comes last is checked against the line before it, and no other check changes. -/
theorem isValid_push {last line : Line} (h : d.lines.getLast? = some last) :
    (d.push line).isValid ↔ d.isValid ∧ isChained last [line] := by
  obtain ⟨lines⟩ := d
  cases lines with
  | nil => simp at h
  | cons first lines =>
    have hlast : lines.getLastD first = last := by
      rw [List.getLast?_cons] at h
      simpa using h
    rw [push, List.cons_append, isValid_cons, isValid_cons, isChained_concat, hlast, and_assoc]

theorem isValid_apply (h : d.apply rule text = .ok next) : next.isValid ↔ d.isValid := by
  obtain ⟨last, line, hlast, read, checked, rfl⟩ := apply_eq_ok.mp h
  obtain ⟨parsed, -, rfl⟩ := Line.ofText_eq_ok.mp read
  rw [isValid_push hlast, and_iff_left_iff_imp]
  intro _
  simpa [isChained, Rule.ofLabel?_label] using checked

theorem isValid_undo (hd : d.isValid) (h : d.undo = .ok next) : next.isValid := by
  obtain ⟨long, rfl⟩ := undo_eq_ok.mp h
  rcases d.eq_empty_or_push with rfl | ⟨before, line, rfl⟩
  · simp at long
  have filled : before.lines ≠ [] := by
    rintro none
    simp [push, none] at long
  have hlast := List.getLast?_eq_some_getLast filled
  rw [push, List.dropLast_concat]
  exact ((isValid_push hlast).mp hd).1

def WellMade (d : Derivation) : Prop := d.Spelled ∧ (d = {} ∨ d.isValid)

theorem wellMade_empty : WellMade {} := ⟨List.forall_mem_nil _, .inl rfl⟩

theorem wellMade_of_start (h : start text = .ok d) : d.WellMade :=
  ⟨spelled_of_start h, .inr (isValid_of_start h)⟩

theorem WellMade.apply (hd : d.WellMade) (h : d.apply rule text = .ok next) : next.WellMade := by
  refine ⟨hd.1.apply h, .inr ?_⟩
  rcases hd.2 with rfl | valid
  · simp [Derivation.apply] at h
  · exact (isValid_apply h).mpr valid

theorem WellMade.undo (hd : d.WellMade) (h : d.undo = .ok next) : next.WellMade := by
  refine ⟨hd.1.undo h, .inr ?_⟩
  rcases hd.2 with rfl | valid
  · simp [Derivation.undo] at h
  · exact isValid_undo valid h

theorem WellMade.run {c : Command} {step : Option Step} (hd : d.WellMade)
    (h : d.run c = .ok (next, step)) : next.WellMade := by
  cases c with
  | start text => exact wellMade_of_start (run_eq_ok.mp h).1
  | apply rule text => exact hd.apply (run_eq_ok.mp h).1
  | undo => exact hd.undo (run_eq_ok.mp h).1
  | reset =>
    obtain ⟨rfl, -⟩ := run_eq_ok.mp h
    exact wellMade_empty

end Derivation

theorem Proof.Reached.isValid {p : Proof} (h : p.Reached) : p.isValid :=
  h.derivation_keeps Derivation.isValid_of_start
    (fun valid applied => (Derivation.isValid_apply applied).mpr valid)
    (fun valid => Derivation.isValid_undo valid)

theorem Proof.Reached.spelled {p : Proof} (h : p.Reached) : p.derivation.Spelled :=
  h.derivation_keeps Derivation.spelled_of_start (fun kept => kept.apply) (fun kept => kept.undo)

end Sentential
