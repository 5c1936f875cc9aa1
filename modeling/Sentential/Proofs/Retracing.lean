import Sentential.Proofs.Reloading
import Sentential.Proofs.Sessions

/-!
# Proofs can be retraced

Every rule reads both ways, so a rule that led to a line leads back from it. Whoever starts a session
with the last formula of a valid proof can go through its formulas to the first one:
`Session.retrace_accepted`.
-/

namespace Sentential

theorem Rule.check_comm (rule : Rule) (x y : Formula) : rule.check x y = rule.check y x := by
  unfold check
  exact congrArg rule.laws.any (funext fun law => Bool.or_comm _ _)

theorem Line.exists_ofText {text : String} {f : Formula} (h : Formula.read text = .ok f)
    (label : String) : ∃ line, Line.ofText text label = .ok line ∧ line.formula = f ∧
      line.step.ruleApplied = label := by
  obtain ⟨parsed, read, root⟩ := bind_eq_ok.mp (Formula.read_eq_ok.mp h)
  exact ⟨_, ofText_eq_ok.mpr ⟨parsed, read, rfl⟩, Except.ok.inj root, rfl⟩

namespace Session

/-- The commands that go from the last of the texts to the first. The rule at each place is the one
that led from the text there to the next. -/
def retrace (texts : List String) (rules : List Rule) : List Command :=
  texts.getLast?.toList.map .start ++
    ((rules.zip texts).map fun (rule, text) => .apply rule text).reverse

theorem retrace_cons (text second : String) (texts : List String) (rule : Rule)
    (rules : List Rule) : retrace (text :: second :: texts) (rule :: rules) =
      retrace (second :: texts) rules ++ [.apply rule text] := by
  simp [retrace]

structure Retraced (lines : List Line) (rules : List Rule) (d : Derivation) : Prop where
  accepted : ((retrace (lines.map fun line => line.step.formula) rules).mapM perform).run {} =
    (.ok (d.steps.map some), ofDerivation d)
  formulas : d.formulas = (lines.map Line.formula).reverse
  labels : d.steps.map Step.ruleApplied = initialLabel :: rules.reverse.map Rule.label
  spelled : d.Spelled
  valid : d.isValid

variable {d : Derivation} {first second : Line} {lines : List Line} {rule : Rule}
  {rules : List Rule}

theorem exists_retraced_singleton (h : Formula.read first.step.formula = .ok first.formula) :
    ∃ d, Retraced [first] [] d := by
  obtain ⟨line, read, formula, label⟩ := Line.exists_ofText h initialLabel
  have started : Derivation.start first.step.formula = .ok ⟨[line]⟩ :=
    Derivation.start_eq_ok.mpr ⟨line, read, rfl⟩
  have run : ({} : Derivation).run (.start first.step.formula) = .ok (⟨[line]⟩, some line.step) :=
    Derivation.run_eq_ok.mpr ⟨started, rfl⟩
  refine ⟨⟨[line]⟩, ?_, ?_, ?_, Derivation.spelled_of_start started,
    Derivation.isValid_of_start started⟩
  · have idle : (([] : List Command).mapM perform).run {} = (.ok [], ofDerivation {}) := rfl
    exact run_mapM_concat idle run
  · simp [Derivation.formulas, formula]
  · simp [Derivation.steps, label]

theorem Retraced.exists_cons (h : Retraced (second :: lines) rules d)
    (spelled : Formula.read first.step.formula = .ok first.formula)
    (checked : rule.check first.formula second.formula) :
    ∃ next, Retraced (first :: second :: lines) (rule :: rules) next := by
  obtain ⟨line, read, formula, label⟩ := Line.exists_ofText spelled rule.label
  have current : d.current? = some second.formula := by
    have : d.formulas.getLast? = some second.formula := by simp [h.formulas]
    rwa [Derivation.formulas, List.getLast?_map] at this
  obtain ⟨last, hlast, eq⟩ := Option.map_eq_some_iff.mp current
  have back : rule.check last.formula line.formula := by rwa [eq, formula, Rule.check_comm]
  have applied : d.apply rule first.step.formula = .ok (d.push line) :=
    Derivation.apply_eq_ok.mpr ⟨last, line, hlast, read, back, rfl⟩
  have run : d.run (.apply rule first.step.formula) = .ok (d.push line, some line.step) :=
    Derivation.run_eq_ok.mpr ⟨applied, Derivation.getLast?_steps_push d line⟩
  refine ⟨d.push line, ?_, ?_, ?_, h.spelled.apply applied,
    (Derivation.isValid_apply applied).mpr h.valid⟩
  · have accepted := run_mapM_concat h.accepted run
    rw [List.map_cons, ← retrace_cons] at accepted
    simpa [Derivation.push, Derivation.steps] using accepted
  · have formulas := h.formulas
    simp only [Derivation.formulas] at formulas
    simp [Derivation.formulas, Derivation.push, formulas, formula]
  · have labels := h.labels
    simp only [Derivation.steps, List.map_map] at labels
    simp [Derivation.steps, Derivation.push, labels, label]

theorem exists_retraced
    (spelled : ∀ line ∈ first :: lines, Formula.read line.step.formula = .ok line.formula)
    (chained : Derivation.isChained first lines) :
    ∃ rules d, lines.map (fun line => line.step.ruleApplied) = rules.map Rule.label ∧
      Retraced (first :: lines) rules d := by
  induction lines generalizing first with
  | nil =>
    obtain ⟨d, retraced⟩ := exists_retraced_singleton (spelled first List.mem_cons_self)
    exact ⟨[], d, rfl, retraced⟩
  | cons second lines ih =>
    obtain ⟨own, others⟩ := List.forall_mem_cons.mp spelled
    simp only [Derivation.isChained, Bool.and_eq_true, Option.any_eq_true] at chained
    obtain ⟨⟨rule, named, checked⟩, rest⟩ := chained
    obtain ⟨rules, d, labels, retraced⟩ := ih others rest
    obtain ⟨next, longer⟩ := retraced.exists_cons own checked
    refine ⟨rule :: rules, next, ?_, longer⟩
    rw [List.map_cons, List.map_cons, labels, Rule.label_of_ofLabel? named]

/-- However a valid proof was come by, its labels name rules by which a new session can be taken
from its last formula back to its first: every command is accepted and shows the step it adds. The
session then holds the formulas in reverse, labelled with the rules in reverse, and its steps are
those of a valid derivation again. -/
theorem retrace_accepted {p : Proof} (obtained : p.Obtained) (valid : p.isValid) :
    ∃ (rules : List Rule) (s : Session),
      p.derivation.steps.map Step.ruleApplied = initialLabel :: rules.map Rule.label ∧
      ((retrace (p.derivation.steps.map Step.formula) rules).mapM perform).run {} =
        (.ok (s.steps.map some), s) ∧
      s.current? = p.derivation.formulas.head? ∧
      s.formulas = p.derivation.formulas.reverse ∧
      s.steps.map Step.ruleApplied = initialLabel :: rules.reverse.map Rule.label ∧
      ∃ d, Derivation.ofSteps s.steps = .ok d ∧ s = ofDerivation d ∧ d.isValid := by
  obtain ⟨first, lines, eq, labelled, chained⟩ := Derivation.isValid_cases valid
  obtain ⟨rules, d, labels, retraced⟩ := exists_retraced (eq ▸ obtained.spelled.lines) chained
  have texts : p.derivation.steps.map Step.formula =
      (first :: lines).map fun line => line.step.formula := by
    rw [Derivation.steps, eq, List.map_map]
    rfl
  have formulas : d.formulas = p.derivation.formulas.reverse := by
    rw [retraced.formulas, Derivation.formulas, eq]
  refine ⟨rules, ofDerivation d, ?_, ?_, ?_, formulas, retraced.labels, d,
    Derivation.ofSteps_eq_ok.mpr ⟨rfl, retraced.spelled⟩, rfl, retraced.valid⟩
  · rw [Derivation.steps, eq, List.map_cons, List.map_cons, labelled, List.map_map, ← labels]
    rfl
  · rw [texts]
    exact retraced.accepted
  · rw [current?, ofDerivation, formulas, List.getLast?_reverse]

def typed : Proof where
  derivation := ⟨[
    ⟨⟨"~(A & B)", initialLabel⟩, .not (.binary .and (.var 'A') (.var 'B'))⟩,
    ⟨⟨"~A OR ~B", Rule.deMorgan.label⟩, .binary .or (.not (.var 'A')) (.not (.var 'B'))⟩,
    ⟨⟨"(~B)|~A", Rule.commutative.label⟩, .binary .or (.not (.var 'B')) (.not (.var 'A'))⟩]⟩
  target := .const true

theorem retrace_accepted_typed :
    typed.Obtained ∧ typed.isValid ∧ ∃ (rules : List Rule) (s : Session),
      rules.map Rule.label = [Rule.deMorgan.label, Rule.commutative.label] ∧
      ((retrace ["~(A & B)", "~A OR ~B", "(~B)|~A"] rules).mapM perform).run {} =
        (.ok (s.steps.map some), s) ∧
      s.current? = some (.not (.binary .and (.var 'A') (.var 'B'))) ∧ s.steps.length = 3 := by
  have lines : ∀ line ∈ typed.derivation.lines,
      Formula.read line.step.formula = .ok line.formula := by decide +kernel
  have spelled : typed.Spelled := ⟨lines, by decide +kernel⟩
  have obtained : typed.Obtained := .load (Proof.ofRecord_record spelled)
  have valid : typed.isValid := by decide
  obtain ⟨rules, s, labels, accepted, current, -, back, -⟩ := retrace_accepted obtained valid
  have labels : [Rule.deMorgan.label, Rule.commutative.label] = rules.map Rule.label :=
    (List.cons.inj labels).2
  refine ⟨obtained, valid, rules, s, labels.symm, accepted, current, ?_⟩
  have length := congrArg List.length back
  rw [List.map_reverse, ← labels] at length
  simpa using length

end Session

end Sentential
