import Sentential.Rule
import Sentential.Proofs.TruthValue

/-!
# Instances

An instance of a schema has a formula in the place of each variable. The matcher succeeds exactly
where one choice of formulas makes both sides, and the bindings it finds are what every such choice
has in common. A rule applies where either reading of one of its laws has the pair as an instance.
-/

namespace Sentential

namespace Formula

def subst (choice : Char → Formula) : Formula → Formula
  | .var v => choice v
  | .const b => .const b
  | .not f => .not (f.subst choice)
  | .binary c f g => .binary c (f.subst choice) (g.subst choice)

theorem value_subst (choice : Char → Formula) (values : Char → Bool) (f : Formula) :
    (f.subst choice).value values = f.value fun v => (choice v).value values := by
  induction f with
  | var v => rfl
  | const b => rfl
  | not f ih => simp only [subst, value, ih]
  | binary c f g ihf ihg => simp only [subst, value, ihf, ihg]

theorem Equivalent.subst {f g : Formula} (h : f.Equivalent g) (choice : Char → Formula) :
    (f.subst choice).Equivalent (g.subst choice) := by
  intro values
  rw [value_subst, value_subst]
  exact h _

end Formula

namespace Bindings

/-- The choice keeps to what the variables have been found to stand for. -/
def Admits (bindings : Bindings) (choice : Char → Formula) : Prop :=
  ∀ v f, bindings.lookup v = some f → choice v = f

theorem admits_nil (choice : Char → Formula) : Admits [] choice := by
  intro v f h
  simp at h

theorem admits_cons {bindings : Bindings} {v : Char} {f : Formula} {choice : Char → Formula}
    (fresh : bindings.lookup v = none) :
    Admits ((v, f) :: bindings) choice ↔ bindings.Admits choice ∧ choice v = f := by
  constructor
  · intro h
    refine ⟨fun w g hw => h w g ?_, h v f (by simp)⟩
    have other : w ≠ v := by
      rintro rfl
      simp [fresh] at hw
    simpa [List.lookup_cons, beq_false_of_ne other] using hw
  · rintro ⟨h, rfl⟩ w g hw
    by_cases same : w = v
    · subst same
      simpa using hw
    · exact h w g (by simpa [List.lookup_cons, beq_false_of_ne same] using hw)

theorem exists_admits (bindings : Bindings) : ∃ choice, bindings.Admits choice :=
  ⟨fun v => (bindings.lookup v).getD (.var v), fun v f h => by simp [h]⟩

end Bindings

namespace Law

open Formula (Lettered)

/-- The bindings found admit the choices that the ones before admit and that make the instance. -/
theorem bind_iff {schema f : Formula} {bindings : Bindings} {choice : Char → Formula} :
    (∃ found, bind schema f bindings = some found ∧ found.Admits choice) ↔
      bindings.Admits choice ∧ schema.Lettered ∧ schema.subst choice = f := by
  induction schema generalizing f bindings with
  | var v =>
    have lettered : (Formula.var v).Lettered ↔ v.isUpper := by
      simp [Lettered, Formula.occurrences]
    rw [lettered, Formula.subst, bind]
    by_cases upper : v.isUpper
    · rw [if_pos upper]
      cases bound : bindings.lookup v with
      | none =>
        simp only [Option.some.injEq, exists_eq_left', upper, true_and]
        exact Bindings.admits_cons bound
      | some g =>
        -- A variable that is bound already stands for the same formula under every choice admitted.
        have stands (h : bindings.Admits choice) : choice v = g := h v g bound
        by_cases same : g = f
        · simp only [same, if_true, Option.some.injEq, exists_eq_left', upper, true_and]
          exact ⟨fun h => ⟨h, (stands h).trans same⟩, And.left⟩
        · simp only [same, if_false, reduceCtorEq, false_and, exists_false, false_iff]
          rintro ⟨h, -, hv⟩
          exact same ((stands h).symm.trans hv)
    · simp [upper]
  | const b =>
    cases f with
    | const a =>
      by_cases same : b = a <;> simp [bind, Formula.subst, Lettered, Formula.occurrences, same]
    | _ => simp [bind, Formula.subst]
  | not p ih =>
    cases f with
    | not g => simpa [bind, Formula.subst, Lettered, Formula.occurrences] using ih
    | _ => simp [bind, Formula.subst]
  | binary c p q ihp ihq =>
    cases f with
    | binary d g k =>
      by_cases same : c = d
      · subst same
        calc (∃ found, bind (.binary c p q) (.binary c g k) bindings = some found ∧
              found.Admits choice)
          _ ↔ ∃ middle, bind p g bindings = some middle ∧
                ∃ found, bind q k middle = some found ∧ found.Admits choice := by
            simp only [bind, if_true, Option.bind_eq_some_iff]
            grind
          _ ↔ (∃ middle, bind p g bindings = some middle ∧ middle.Admits choice) ∧
                q.Lettered ∧ q.subst choice = k := by
            simp only [ihq]
            grind
          _ ↔ (bindings.Admits choice ∧ p.Lettered ∧ p.subst choice = g) ∧
                q.Lettered ∧ q.subst choice = k := by rw [ihp]
          _ ↔ _ := by
            simp only [Formula.lettered_binary, Formula.subst, Formula.binary.injEq]
            grind
      · simp [bind, Formula.subst, same]
    | _ => simp [bind, Formula.subst]

/-- Only schemata of letters have instances; then both sides are made by one choice. -/
theorem relates_iff {law : Law} {x y : Formula} :
    law.relates x y ↔ law.lhs.Lettered ∧ law.rhs.Lettered ∧
      ∃ choice, law.lhs.subst choice = x ∧ law.rhs.subst choice = y := by
  have found_iff : law.relates x y ↔
      ∃ left, bind law.lhs x [] = some left ∧ ∃ both, bind law.rhs y left = some both := by
    simp [relates, Option.isSome_iff_exists, Option.bind_eq_some_iff]
    grind
  rw [found_iff]
  constructor
  · rintro ⟨left, hleft, both, hboth⟩
    obtain ⟨choice, admitted⟩ := both.exists_admits
    obtain ⟨hl, lettered', hy⟩ := bind_iff.mp ⟨both, hboth, admitted⟩
    obtain ⟨-, lettered, hx⟩ := bind_iff.mp ⟨left, hleft, hl⟩
    exact ⟨lettered, lettered', choice, hx, hy⟩
  · rintro ⟨lettered, lettered', choice, hx, hy⟩
    obtain ⟨left, hleft, hl⟩ := bind_iff.mpr ⟨Bindings.admits_nil choice, lettered, hx⟩
    obtain ⟨both, hboth, -⟩ := bind_iff.mpr ⟨hl, lettered', hy⟩
    exact ⟨left, hleft, both, hboth⟩

theorem lettered_of_bind {schema f : Formula} {bindings found : Bindings}
    (h : bind schema f bindings = some found) : schema.Lettered := by
  obtain ⟨choice, admitted⟩ := found.exists_admits
  exact (bind_iff.mp ⟨found, h, admitted⟩).2.1

/-- One choice of formulas for the variables makes both sides. -/
def HasInstance (law : Law) (x y : Formula) : Prop :=
  ∃ choice : Char → Formula, law.lhs.subst choice = x ∧ law.rhs.subst choice = y

end Law

namespace Rule

theorem lettered_of_mem_laws {rule : Rule} {law : Law} (h : law ∈ rule.laws) :
    law.lhs.Lettered ∧ law.rhs.Lettered := by
  have all : ∀ law ∈ rule.laws, law.lhs.Lettered ∧ law.rhs.Lettered := by
    cases rule <;> decide
  exact all law h

theorem relates_iff_of_mem_laws {rule : Rule} {law : Law} {x y : Formula} (h : law ∈ rule.laws) :
    law.relates x y ↔ law.HasInstance x y := by
  obtain ⟨left, right⟩ := lettered_of_mem_laws h
  rw [Law.relates_iff]
  exact ⟨fun related => related.2.2, fun made => ⟨left, right, made⟩⟩

theorem check_iff {rule : Rule} {x y : Formula} :
    rule.check x y ↔ ∃ law ∈ rule.laws, law.HasInstance x y ∨ law.HasInstance y x := by
  rw [check, List.any_eq_true]
  refine exists_congr fun law => and_congr_right fun mem => ?_
  rw [Bool.or_eq_true, relates_iff_of_mem_laws mem, relates_iff_of_mem_laws mem]

end Rule

/-- A law relates two formulas just if its variables are letters and one choice of formulas for them
makes its sides those two. So a rule leads from one formula to another just if either reading of one
of its laws has the pair as an instance, and a schema with a variable that is no letter matches no
formula, whatever was bound before. -/
theorem Law.matching_decides_instances :
    (∀ (law : Law) (x y : Formula),
      law.relates x y ↔ (law.lhs.Lettered ∧ law.rhs.Lettered) ∧ law.HasInstance x y) ∧
    (∀ (rule : Rule) (x y : Formula),
      rule.check x y ↔ ∃ law ∈ rule.laws, law.HasInstance x y ∨ law.HasInstance y x) ∧
    (∀ (schema f : Formula) (bindings : Bindings), ¬ schema.Lettered →
      Law.bind schema f bindings = none) := by
  refine ⟨fun law x y => ?_, fun rule x y => Rule.check_iff, fun schema f bindings foreign => ?_⟩
  · rw [relates_iff, and_assoc]
    rfl
  · exact Option.eq_none_iff_forall_ne_some.mpr fun found bound => foreign (lettered_of_bind bound)

/-- A digit is no letter, so the schema `1` is no name for a formula. -/
theorem Law.digit_matches_nothing :
    ¬ (Formula.var '1').Lettered ∧ ∀ f : Formula, Law.bind (.var '1') f [] = none := by
  have foreign : ¬ (Formula.var '1').Lettered := by decide
  exact ⟨foreign, fun f => matching_decides_instances.2.2 _ f [] foreign⟩

end Sentential
