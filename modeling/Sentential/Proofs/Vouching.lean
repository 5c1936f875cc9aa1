import Mathlib.Control.Monad.Basic
import Sentential.Proofs.Derivations
import Sentential.Proofs.Sealing

/-!
# What a seal vouches for

A record that fits the seal of a proof which was reached can have lost steps of that proof to its
labels, but has no formula that the proof has not. All formulas of the proof are equivalent, so a
closed verdict on the record is a true one, although the lines need not follow from each other. If
they do, their labels are those of rules, and then no step was lost.
-/

namespace Sentential

-- ---------------------------------------------------------------------------
-- Formulas of merged steps
-- ---------------------------------------------------------------------------

namespace Step

variable {steps merged : List Step}

theorem Merges.sublist_formula (h : Merges steps merged) :
    (merged.map formula).Sublist (steps.map formula) := by
  induction h with
  | nil => exact .slnil
  | cons first run _ ih =>
    rw [List.map_cons, List.map_cons, List.map_append]
    exact (ih.trans (List.sublist_append_right _ _)).cons_cons _

theorem Merges.head?_formula (h : Merges steps merged) :
    merged.head?.map formula = steps.head?.map formula := by
  cases h <;> rfl

end Step

namespace Derivation

variable {d e : Derivation}

theorem Spelled.formulas_eq (h : d.Spelled) :
    d.formulas =
      (d.steps.map Step.formula).filterMap fun text => (Formula.read text).toOption := by
  obtain ⟨lines⟩ := d
  induction lines with
  | nil => rfl
  | cons line lines ih =>
    obtain ⟨own, others⟩ := List.forall_mem_cons.mp h
    have rest : (⟨lines⟩ : Derivation).formulas = _ := ih others
    simp only [formulas, steps, List.map_cons, List.filterMap_cons, own] at rest ⊢
    rw [rest]
    rfl

theorem Spelled.sublist_formulas (hd : d.Spelled) (he : e.Spelled)
    (texts : (e.steps.map Step.formula).Sublist (d.steps.map Step.formula)) :
    e.formulas.Sublist d.formulas := by
  rw [hd.formulas_eq, he.formulas_eq]
  exact texts.filterMap _

theorem label_of_isValid (h : d.isValid) {step : Step} (mem : step ∈ d.steps) :
    step.ruleApplied = initialLabel ∨ ∃ rule : Rule, step.ruleApplied = rule.label := by
  obtain ⟨first, lines, eq, labelled, chained⟩ := isValid_cases h
  rw [steps, eq, List.map_cons] at mem
  rcases List.mem_cons.mp mem with rfl | mem
  · exact .inl labelled
  · obtain ⟨line, hline, rfl⟩ := List.mem_map.mp mem
    obtain ⟨i, here⟩ := List.mem_iff_getElem?.mp hline
    have before : i < (first :: lines).length :=
      Nat.lt_succ_of_lt (List.getElem?_eq_some_iff.mp here).1
    obtain ⟨rule, label, -⟩ := isChained_link chained (List.getElem?_eq_getElem before) here
    exact .inr ⟨rule, label⟩

theorem colon_notMem_of_isValid (h : d.isValid) :
    ∀ step ∈ d.steps, ':' ∉ step.ruleApplied.toList := by
  intro step mem
  rcases label_of_isValid h mem with label | ⟨rule, label⟩
  · rw [label]
    exact unmarked_initialLabel.1
  · rw [label]
    exact rule.unmarked_label.1

end Derivation

-- ---------------------------------------------------------------------------
-- Verdicts under a seal
-- ---------------------------------------------------------------------------

namespace Proof

variable {g s : Proof} {r : ProofRecord}

theorem Reached.equivalent {f k : Formula} (h : g.Reached) (hf : f ∈ g.derivation.formulas)
    (hk : k ∈ g.derivation.formulas) : f.Equivalent k := by
  obtain ⟨first, -, all⟩ := Derivation.isValid_equivalent h.isValid
  exact (all f hf).symm.trans (all k hk)

/-- A proof read from a record that fits the seal of a proof which was reached has its target,
begins with the same text and has no text that it has not. So if the verdict is that the proof is
closed, its first formula and the target have the same value; and if the proof is valid it has the
very steps of the other. -/
theorem verdict_true_of_sealedText (reached : g.Reached) (loaded : ofRecord r = .ok s)
    (same : s.sealedText = g.sealedText) :
    s.target = g.target ∧
    (∃ first, s.derivation.steps.head? = some first ∧
      g.derivation.steps.head?.map Step.formula = some first.formula) ∧
    (s.derivation.steps.map Step.formula).Sublist (g.derivation.steps.map Step.formula) ∧
    (s.verdict.closed → ∃ first, s.derivation.formulas.head? = some first ∧
      ∀ values : Valuation, values.Covers first → values.Covers s.target →
        ∃ b, first.eval values = .ok b ∧ s.target.eval values = .ok b) ∧
    (s.isValid → s.derivation.steps = g.derivation.steps) := by
  obtain ⟨target, merges⟩ := (sealedText_eq_iff_merges reached loaded).mp same
  have spelled : s.derivation.Spelled :=
    Derivation.spelled_of_ofSteps (ofRecord_eq_ok.mp loaded).1
  have texts := merges.sublist_formula
  have formulas := reached.spelled.sublist_formulas spelled texts
  refine ⟨target, ?_, texts, ?_, ?_⟩
  · obtain ⟨first, lines, eq, -⟩ := Derivation.isValid_cases reached.isValid
    have begins : g.derivation.steps.head?.map Step.formula = some first.step.formula := by
      simp [Derivation.steps, eq]
    have here := merges.head?_formula.trans begins
    obtain ⟨step, head, formula⟩ := Option.map_eq_some_iff.mp here
    exact ⟨step, head, by rw [begins, formula]⟩
  · intro closed
    obtain ⟨last, line, hline, -⟩ := verdict_closed closed
    have first : s.derivation.formulas.head? = some line.formula := by
      rw [Derivation.formulas, List.head?_map, List.head?_eq_getElem?, hline]
      rfl
    have mem : s.target ∈ s.derivation.formulas := by
      obtain ⟨reachedLine, hlast, formula⟩ := Option.map_eq_some_iff.mp last
      exact formula ▸ List.mem_map_of_mem (List.mem_of_getLast? hlast)
    refine ⟨line.formula, first, fun values covers covers' => ?_⟩
    have alike := reached.equivalent (formulas.subset (List.mem_of_head? first))
      (formulas.subset mem)
    exact alike.eval covers covers'
  · intro valid
    exact merges.eq_of_notMem (Derivation.colon_notMem_of_isValid valid)

def longWay : Proof where
  derivation := ⟨[
    ⟨⟨"¬¬¬¬A", initialLabel⟩, .not (.not (.not (.not (.var 'A'))))⟩,
    ⟨⟨"¬¬A", Rule.doubleNegation.label⟩, .not (.not (.var 'A'))⟩,
    ⟨⟨"A", Rule.doubleNegation.label⟩, .var 'A'⟩]⟩
  target := .var 'A'

/-- The same without its second line, which the label of the first has taken up. -/
def shortcut : Proof where
  derivation := ⟨[
    ⟨⟨"¬¬¬¬A", "Initial Formula, ¬¬A:Double Negation"⟩, .not (.not (.not (.not (.var 'A'))))⟩,
    ⟨⟨"A", Rule.doubleNegation.label⟩, .var 'A'⟩]⟩
  target := .var 'A'

theorem longWay_reached : longWay.Reached := by
  have begun : start "¬¬¬¬A" (some "A") =
      .ok { longWay with derivation := ⟨longWay.derivation.lines.take 1⟩ } := by decide +kernel
  have moved : move { longWay with derivation := ⟨longWay.derivation.lines.take 1⟩ }
      (.apply .doubleNegation "¬¬A") =
        .ok { longWay with derivation := ⟨longWay.derivation.lines.take 2⟩ } := by decide +kernel
  have arrived : move { longWay with derivation := ⟨longWay.derivation.lines.take 2⟩ }
      (.apply .doubleNegation "A") = .ok longWay := by decide +kernel
  exact ((Reached.start begun).move moved).move arrived

theorem shortcut_sealedText : shortcut.sealedText = longWay.sealedText := by decide

theorem shortcut_loaded : ofRecord ⟨shortcut.derivation.steps, "A", longWay.record.sealHex⟩ =
    .ok shortcut := by
  have steps : Derivation.ofSteps shortcut.derivation.steps = .ok shortcut.derivation := by
    decide +kernel
  have target : Formula.read "A" = .ok shortcut.target := by decide +kernel
  refine ofRecord_eq_ok.mpr ⟨steps, target, ?_⟩
  rw [shortcut_sealedText]
  exact Seal.verify_ofText _

/-- The line that is missing leaves a proof that is closed, not valid, and right all the same. -/
theorem shortcut_verdict_true :
    shortcut.sealedText = longWay.sealedText ∧ shortcut.verdict.closed ∧ ¬ shortcut.isValid ∧
      ∃ first, shortcut.derivation.formulas.head? = some first ∧
        ∀ values : Valuation, values.Covers first → values.Covers shortcut.target →
          ∃ b, first.eval values = .ok b ∧ shortcut.target.eval values = .ok b := by
  obtain ⟨-, -, -, closed, -⟩ :=
    verdict_true_of_sealedText longWay_reached shortcut_loaded shortcut_sealedText
  exact ⟨shortcut_sealedText, by decide, by decide, closed (by decide)⟩

end Proof

end Sentential
