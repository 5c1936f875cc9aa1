import Sentential.Proof
import Sentential.Proofs.Printing

/-!
# What the operations do

One lemma for each operation on derivations and proofs: when it succeeds and what it gives. The
proofs that a user can arrive at are those that come from a start by moves.
-/

namespace Sentential

namespace Formula

variable {text : String} {f : Formula}

theorem read_eq_ok : Formula.read text = .ok f ↔ Formula.ofText text.toList = .ok f := by
  unfold Formula.read
  cases Formula.ofText text.toList <;> simp

theorem lettered_of_read (h : Formula.read text = .ok f) : f.Lettered :=
  (lettered_of_ofText (read_eq_ok.mp h)).1

theorem read_print (lettered : f.Lettered) (low : f.height ≤ maxDepth) :
    Formula.read (toString f) = .ok f :=
  read_eq_ok.mpr (String.toList_ofList ▸ ofText_print lettered low)

theorem read_toString (h : Formula.read text = .ok f) : Formula.read (toString f) = .ok f := by
  obtain ⟨lettered, low⟩ := lettered_of_ofText (read_eq_ok.mp h)
  exact read_print lettered low

end Formula

namespace Line

variable {text label : String} {step : Step} {line : Line}

theorem ofText_eq_ok :
    Line.ofText text label = .ok line ↔
      ∃ parsed, Parsed.ofText text.toList = .ok parsed ∧
        line = ⟨⟨String.ofList (Token.render parsed.tokens), label⟩, parsed.root⟩ := by
  unfold Line.ofText
  cases Parsed.ofText text.toList <;> simp [eq_comm]

theorem ofText_ne_noInitialFormula : Line.ofText text label ≠ .error .noInitialFormula := by
  unfold Line.ofText
  cases Parsed.ofText text.toList <;> simp

theorem read_of_ofText (h : Line.ofText text label = .ok line) :
    Formula.read line.step.formula = .ok line.formula := by
  obtain ⟨parsed, read, rfl⟩ := ofText_eq_ok.mp h
  obtain ⟨again, reread, root, -⟩ := Parsed.ofText_render read
  rw [Formula.read_eq_ok, String.toList_ofList, Formula.ofText, reread, ok_bind, root]
  rfl

theorem ofText_print {f : Formula} (lettered : f.Lettered) (low : f.height ≤ maxDepth) :
    Line.ofText (toString f) label = .ok ⟨⟨toString f, label⟩, f⟩ := by
  obtain ⟨parsed, read, rfl, rendered⟩ := Formula.parsed_print lettered low
  refine ofText_eq_ok.mpr ⟨parsed, ?_, ?_⟩
  · rw [← read]
    exact congrArg Parsed.ofText String.toList_ofList
  · rw [rendered]
    rfl

theorem ofStep_eq_ok :
    Line.ofStep step = .ok line ↔
      line.step = step ∧ Formula.read line.step.formula = .ok line.formula := by
  unfold Line.ofStep
  rw [bind_eq_ok]
  constructor
  · rintro ⟨f, read, made⟩
    obtain rfl := Except.ok.inj made
    exact ⟨rfl, read⟩
  · rintro ⟨rfl, read⟩
    exact ⟨line.formula, read, rfl⟩

end Line

namespace Derivation

variable {d next : Derivation} {text : String} {rule : Rule} {steps : List Step}

theorem start_eq_ok :
    start text = .ok d ↔ ∃ line, Line.ofText text initialLabel = .ok line ∧ d = ⟨[line]⟩ := by
  unfold start
  rw [bind_eq_ok]
  simp only [pure_eq_ok, Except.ok.injEq, eq_comm (b := d)]

theorem apply_eq_ok :
    d.apply rule text = .ok next ↔
      ∃ last line, d.lines.getLast? = some last ∧ Line.ofText text rule.label = .ok line ∧
        rule.check last.formula line.formula ∧ next = d.push line := by
  unfold apply
  cases d.lines.getLast? with
  | none => simp
  | some last =>
    simp only [bind_eq_ok, Option.some.injEq, exists_and_left, exists_eq_left']
    refine exists_congr fun line => and_congr_right fun _ => ?_
    by_cases checked : rule.check last.formula line.formula
    · simp [checked, eq_comm]
    · simp [checked]

theorem undo_eq_ok : d.undo = .ok next ↔ 2 ≤ d.lines.length ∧ next = ⟨d.lines.dropLast⟩ := by
  obtain ⟨lines⟩ := d
  cases lines with
  | nil => simp [undo]
  | cons first lines =>
    cases lines with
    | nil => simp [undo]
    | cons second lines => simp [undo, eq_comm]

theorem run_eq_ok {c : Command} {step : Option Step} :
    d.run c = .ok (next, step) ↔
      match c with
      | .start text => start text = .ok next ∧ next.steps.getLast? = step
      | .apply rule text => d.apply rule text = .ok next ∧ next.steps.getLast? = step
      | .undo => d.undo = .ok next ∧ d.steps.getLast? = step
      | .reset => next = {} ∧ step = none := by
  cases c
  all_goals
    simp only [run, bind_eq_ok, pure_eq_ok, Except.ok.injEq, Prod.mk.injEq]
    grind

theorem apply_eq_noInitialFormula :
    d.apply rule text = .error .noInitialFormula ↔ d.lines = [] := by
  unfold apply
  cases last : d.lines.getLast? with
  | none => simpa using last
  | some l =>
    have filled : d.lines ≠ [] := by
      rintro none
      simp [none] at last
    simp only [filled, iff_false]
    intro failed
    rcases bind_eq_error.mp failed with unread | ⟨line, -, mismatch⟩
    · exact Line.ofText_ne_noInitialFormula unread
    · split at mismatch <;> cases mismatch

theorem undo_eq_noInitialFormula : d.undo = .error .noInitialFormula ↔ d.lines = [] := by
  obtain ⟨lines⟩ := d
  rcases lines with _ | ⟨first, _ | ⟨second, lines⟩⟩ <;> simp [undo]

theorem run_eq_noInitialFormula {c : Command} :
    d.run c = .error .noInitialFormula ↔
      d.lines = [] ∧ ((∃ rule text, c = .apply rule text) ∨ c = .undo) := by
  cases c with
  | start text => simp [run, start, bind_eq_error, Line.ofText_ne_noInitialFormula]
  | apply rule text => simp [run, bind_eq_error, apply_eq_noInitialFormula]
  | undo => simp [run, bind_eq_error, undo_eq_noInitialFormula]
  | reset => simp [run]

theorem mapM_ofStep_eq_ok {lines : List Line} :
    steps.mapM Line.ofStep = .ok lines ↔
      lines.map Line.step = steps ∧
        ∀ line ∈ lines, Formula.read line.step.formula = .ok line.formula := by
  induction steps generalizing lines with
  | nil =>
    simp only [List.mapM_nil, pure_eq_ok, Except.ok.injEq, List.map_eq_nil_iff]
    constructor
    · rintro rfl
      simp
    · rintro ⟨rfl, -⟩
      rfl
  | cons step steps ih =>
    rw [List.mapM_cons, bind_eq_ok]
    constructor
    · rintro ⟨line, first, h⟩
      obtain ⟨rest, others, h⟩ := bind_eq_ok.mp h
      obtain rfl := Except.ok.inj h
      obtain ⟨rfl, read⟩ := Line.ofStep_eq_ok.mp first
      obtain ⟨rfl, reads⟩ := ih.mp others
      exact ⟨rfl, List.forall_mem_cons.mpr ⟨read, reads⟩⟩
    · rintro ⟨same, reads⟩
      obtain ⟨line, rest, rfl, rfl, rfl⟩ := List.map_eq_cons_iff.mp same
      obtain ⟨read, reads⟩ := List.forall_mem_cons.mp reads
      refine ⟨line, Line.ofStep_eq_ok.mpr ⟨rfl, read⟩, ?_⟩
      rw [ih.mpr ⟨rfl, reads⟩]
      rfl

theorem ofSteps_eq_ok :
    ofSteps steps = .ok d ↔
      d.steps = steps ∧ ∀ line ∈ d.lines, Formula.read line.step.formula = .ok line.formula := by
  obtain ⟨lines⟩ := d
  unfold ofSteps
  rw [bind_eq_ok]
  simp [mapM_ofStep_eq_ok, Derivation.steps]

end Derivation

namespace Proof

variable {p next : Proof} {r : ProofRecord} {text : String}

theorem start_eq_ok {target? : Option String} :
    start text target? = .ok p ↔
      Derivation.start text = .ok p.derivation ∧
        match target? with
        | some target => Formula.read target = .ok p.target
        | none => p.target = .const true := by
  obtain ⟨d, target⟩ := p
  cases target? with
  | none =>
    simp only [start, ok_bind, bind_eq_ok, pure_eq_ok, Except.ok.injEq, Proof.mk.injEq]
    grind
  | some written =>
    simp only [start, bind_eq_ok, pure_eq_ok, Except.ok.injEq, Proof.mk.injEq]
    grind

theorem move_eq_ok {m : Move} :
    p.move m = .ok next ↔
      next.target = p.target ∧
        match m with
        | .apply rule text => p.derivation.apply rule text = .ok next.derivation
        | .undo => p.derivation.undo = .ok next.derivation := by
  obtain ⟨d, target⟩ := next
  cases m
  all_goals
    simp only [move, bind_eq_ok, pure_eq_ok, Except.ok.injEq, Proof.mk.injEq]
    grind

theorem ofRecord_eq_ok :
    ofRecord r = .ok p ↔
      Derivation.ofSteps r.steps = .ok p.derivation ∧ Formula.read r.target = .ok p.target ∧
        Seal.verify p.sealedText r.sealHex := by
  unfold ofRecord
  simp only [bind_eq_ok]
  constructor
  · rintro ⟨d, steps, target, written, sealed⟩
    split at sealed
    next fits =>
      obtain rfl := Except.ok.inj sealed
      exact ⟨steps, written, fits⟩
    next => simp at sealed
  · rintro ⟨steps, written, fits⟩
    exact ⟨p.derivation, steps, p.target, written, if_pos fits⟩

/-- What comes from a start by any number of moves. -/
inductive Reached : Proof → Prop
  | start {text : String} {target? : Option String} {p : Proof} :
      Proof.start text target? = .ok p → Reached p
  | move {p next : Proof} {m : Move} : Reached p → p.move m = .ok next → Reached next

/-- What a start gives and every operation keeps, a proof that was reached has. -/
theorem Reached.derivation_keeps {Kept : Derivation → Prop} (h : p.Reached)
    (begun : ∀ {text d}, Derivation.start text = .ok d → Kept d)
    (applied : ∀ {d rule text next}, Kept d → d.apply rule text = .ok next → Kept next)
    (undone : ∀ {d next}, Kept d → d.undo = .ok next → Kept next) : Kept p.derivation := by
  induction h with
  | start started => exact begun (start_eq_ok.mp started).1
  | @move p next m _ moved ih =>
    obtain ⟨-, moved⟩ := move_eq_ok.mp moved
    cases m with
    | apply rule text => exact applied ih moved
    | undo => exact undone ih moved

end Proof

end Sentential
