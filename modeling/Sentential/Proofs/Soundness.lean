import Sentential.Proof
import Sentential.Proofs.Instance

/-!
# Soundness of proofs

Both sides of every law have the same truth value, so each rule leads to an equivalent formula, and
all lines of a valid proof are equivalent. A closed verdict on such a proof is a true one.
-/

namespace Sentential

open Formula (Equivalent)

namespace Rule

theorem laws_equivalent (rule : Rule) : ∀ law ∈ rule.laws, law.lhs.Equivalent law.rhs := by
  cases rule
  all_goals
    simp only [laws, List.mem_cons, List.not_mem_nil, or_false, forall_eq_or_imp, forall_eq,
      Equivalent, ← forall_and, Formula.value, Formula.and, Formula.or, Formula.implies,
      Connective.apply]
    intro values
    -- The schemata have no letter but A, B and C.
    generalize values 'A' = a
    generalize values 'B' = b
    generalize values 'C' = c
    revert a b c
    decide

end Rule

theorem Law.relates_equivalent {law : Law} {x y : Formula} (sound : law.lhs.Equivalent law.rhs)
    (h : law.relates x y) : x.Equivalent y := by
  obtain ⟨-, -, choice, rfl, rfl⟩ := Law.relates_iff.mp h
  exact sound.subst choice

theorem Rule.check_equivalent {rule : Rule} {x y : Formula} (h : rule.check x y) :
    x.Equivalent y := by
  obtain ⟨law, mem, related⟩ := List.any_eq_true.mp h
  have sound := rule.laws_equivalent law mem
  rcases Bool.or_eq_true_iff.mp related with forward | backward
  · exact Law.relates_equivalent sound forward
  · exact (Law.relates_equivalent sound backward).symm

namespace Derivation

theorem isChained_equivalent {previous : Line} {lines : List Line} (h : isChained previous lines) :
    ∀ line ∈ lines, previous.formula.Equivalent line.formula := by
  induction lines generalizing previous with
  | nil => simp
  | cons next lines ih =>
    simp only [isChained, Bool.and_eq_true, Option.any_eq_true] at h
    obtain ⟨⟨rule, -, checked⟩, rest⟩ := h
    have link : previous.formula.Equivalent next.formula := Rule.check_equivalent checked
    intro line mem
    rcases List.mem_cons.mp mem with rfl | mem
    · exact link
    · exact link.trans (ih rest line mem)

theorem isValid_cases {d : Derivation} (h : d.isValid) :
    ∃ first lines, d.lines = first :: lines ∧ first.step.ruleApplied = initialLabel ∧
      isChained first lines := by
  unfold isValid at h
  split at h
  · simp at h
  next first lines eq =>
    simp only [Bool.and_eq_true, beq_iff_eq] at h
    exact ⟨first, lines, eq, h⟩

theorem isValid_equivalent {d : Derivation} (h : d.isValid) :
    ∃ first, d.formulas.head? = some first ∧ ∀ f ∈ d.formulas, first.Equivalent f := by
  obtain ⟨first, lines, eq, -, chained⟩ := isValid_cases h
  refine ⟨first.formula, by simp [formulas, eq], ?_⟩
  intro f mem
  simp only [formulas, eq, List.map_cons, List.mem_cons, List.mem_map] at mem
  rcases mem with rfl | ⟨line, mem, rfl⟩
  · exact .refl _
  · exact isChained_equivalent chained line mem

end Derivation

namespace Proof

theorem verdict_closed {p : Proof} (h : p.verdict.closed) :
    p.derivation.current? = some p.target ∧ ∃ first, p.derivation.lines[0]? = some first ∧
      p.verdict.message =
        s!"The proof is closed: {first.step.formula} is equivalent to {p.target}" := by
  unfold verdict at h ⊢
  split at h
  · simp at h
  next first lines eq =>
    split at h
    next reached =>
      simp [Derivation.current?, eq, List.getLast?_cons, ← reached]
    next => simp at h

/-- Any two lines of a valid proof evaluate alike as soon as their own variables have values, and so
do the first line and the target once the proof is said to be closed. -/
theorem lines_evaluate_alike {p : Proof} (valid : p.isValid) :
    (∀ (i j : Nat) (line other : Line), p.derivation.lines[i]? = some line →
      p.derivation.lines[j]? = some other → ∀ values : Valuation,
        values.Covers line.formula → values.Covers other.formula →
          ∃ b, line.formula.eval values = .ok b ∧ other.formula.eval values = .ok b) ∧
    (p.verdict.closed → ∃ first, p.derivation.lines[0]? = some first ∧
      p.verdict.message =
        s!"The proof is closed: {first.step.formula} is equivalent to {p.target}" ∧
      ∀ values : Valuation, values.Covers first.formula → values.Covers p.target →
        ∃ b, first.formula.eval values = .ok b ∧ p.target.eval values = .ok b) := by
  obtain ⟨origin, -, all⟩ := Derivation.isValid_equivalent valid
  have alike {line other : Line} (h : line ∈ p.derivation.lines)
      (h' : other ∈ p.derivation.lines) : line.formula.Equivalent other.formula :=
    (all _ (List.mem_map_of_mem h)).symm.trans (all _ (List.mem_map_of_mem h'))
  constructor
  · intro i j line other hi hj values covers covers'
    exact (alike (List.mem_of_getElem? hi) (List.mem_of_getElem? hj)).eval covers covers'
  · intro closed
    obtain ⟨reached, first, hfirst, announced⟩ := verdict_closed closed
    obtain ⟨last, hlast, target⟩ := Option.map_eq_some_iff.mp reached
    refine ⟨first, hfirst, announced, ?_⟩
    intro values covers covers'
    rw [← target] at covers' ⊢
    exact (alike (List.mem_of_getElem? hfirst) (List.mem_of_getLast? hlast)).eval covers covers'

open Law.Schema in
/-- A proof by way of a line whose variable neither end has. -/
def detour : Proof where
  derivation := ⟨[
    ⟨⟨"⊥", initialLabel⟩, falsum⟩,
    ⟨⟨"C ∧ ⊥", Rule.domination.label⟩, c.and falsum⟩,
    ⟨⟨"⊥", Rule.domination.label⟩, falsum⟩,
    ⟨⟨"⊥ ∧ A", Rule.domination.label⟩, falsum.and a⟩]⟩
  target := falsum.and a

open Law.Schema in
theorem detour_evaluates_alike :
    detour.isValid ∧ detour.verdict.closed ∧
      ∃ b, falsum.eval (.ofList [('A', true)]) = .ok b ∧
        (falsum.and a).eval (.ofList [('A', true)]) = .ok b :=
  have valid : detour.isValid := by decide
  ⟨valid, by decide, (lines_evaluate_alike valid).1 0 3 _ _ rfl rfl _ (by decide) (by decide)⟩

end Proof

end Sentential
