import Sentential.Proofs.TruthValue

/-!
# Strict evaluation

Evaluation goes through the variables of a formula from left to right and stops at the first that
has no value, also where a constant would have decided the result. If it gets to the end, the value
is the one that classical logic gives: `Formula.eval_strict`.
-/

namespace Sentential

namespace Formula

/-- Classical truth, where the characters of which `truth` holds are the true ones. -/
def Holds (truth : Char → Prop) : Formula → Prop
  | .var v => truth v
  | .const b => b = true
  | .not f => ¬f.Holds truth
  | .binary .iff f g => f.Holds truth ↔ g.Holds truth
  | .binary .implies f g => f.Holds truth → g.Holds truth
  | .binary .xor f g => ¬(f.Holds truth ↔ g.Holds truth)
  | .binary .or f g => f.Holds truth ∨ g.Holds truth
  | .binary .and f g => f.Holds truth ∧ g.Holds truth

theorem value_iff_holds {truth : Char → Prop} {values : Char → Bool} {f : Formula}
    (h : ∀ v ∈ f.occurrences, (values v = true ↔ truth v)) :
    f.value values = true ↔ f.Holds truth := by
  induction f with
  | var v => exact h v (List.mem_singleton_self v)
  | const b => rfl
  | not f ih => rw [value, Holds, ← ih h, Bool.not_eq_true', Bool.not_eq_true]
  | binary c f g ihf ihg =>
    obtain ⟨hf, hg⟩ := List.forall_mem_append.mp h
    have left := ihf hf
    have right := ihg hg
    cases c
    all_goals
      rw [value, Holds, ← left, ← right]
      cases f.value values <;> cases g.value values <;> decide

def firstUnassigned? (values : Valuation) (f : Formula) : Option Char :=
  f.occurrences.find? fun v => (values v).isNone

theorem firstUnassigned?_eq_none {values : Valuation} {f : Formula} :
    f.firstUnassigned? values = none ↔ values.Covers f := by
  simp [firstUnassigned?, Valuation.covers_iff, Option.isSome_iff_ne_none]

theorem firstUnassigned?_binary (values : Valuation) (c : Connective) (f g : Formula) :
    (Formula.binary c f g).firstUnassigned? values =
      (f.firstUnassigned? values).or (g.firstUnassigned? values) :=
  List.find?_append

theorem eval_of_firstUnassigned? {values : Valuation} {f : Formula} {v : Char}
    (h : f.firstUnassigned? values = some v) : f.eval values = .error (.unassigned v) := by
  induction f with
  | var w =>
    obtain ⟨unassigned, same⟩ : values w = none ∧ w = v := by
      simpa [firstUnassigned?, occurrences, List.find?_singleton] using h
    rw [eval, unassigned, same]
  | const b => simp [firstUnassigned?, occurrences] at h
  | not f ih =>
    rw [eval, ih h]
    rfl
  | binary c f g ihf ihg =>
    rw [firstUnassigned?_binary] at h
    cases left : f.firstUnassigned? values with
    | some w =>
      obtain rfl : w = v := by simpa [left] using h
      rw [eval, ihf left]
      rfl
    | none =>
      -- The left operand comes to a value, so the right one is evaluated as well.
      have right : g.firstUnassigned? values = some v := by simpa [left] using h
      rw [eval, eval_of_covers (firstUnassigned?_eq_none.mp left), ihg right]
      rfl

/-- Evaluation succeeds exactly when all variables of the formula have values, and then gives the
classical truth value. Whatever it comes to depends on the values of these variables alone, and if
one of them has none, the first such occurrence from the left is the error. -/
theorem eval_strict (f : Formula) (values : Valuation) :
    ((∃ b, f.eval values = .ok b) ↔ ∀ v ∈ f.names, (values v).isSome) ∧
    (∀ b, f.eval values = .ok b → (b = true ↔ f.Holds fun v => values v = some true)) ∧
    (∀ others : Valuation, (∀ v ∈ f.names, others v = values v) →
      f.eval others = f.eval values) ∧
    ((∃ v ∈ f.names, values v = none) → ∃ v, f.firstUnassigned? values = some v ∧
      f.eval values = .error (.unassigned v)) := by
  have covered (h : values.Covers f) : f.eval values = .ok (f.value values.complete) :=
    eval_of_covers h
  refine ⟨⟨?_, fun h => ⟨_, covered h⟩⟩, ?_, ?_, ?_⟩
  · rintro ⟨b, evaluated⟩
    refine firstUnassigned?_eq_none.mp (Option.eq_none_iff_forall_ne_some.mpr fun v first => ?_)
    simp [eval_of_firstUnassigned? first] at evaluated
  · intro b evaluated
    cases first : f.firstUnassigned? values with
    | some v => simp [eval_of_firstUnassigned? first] at evaluated
    | none =>
      have covers := firstUnassigned?_eq_none.mp first
      obtain rfl : f.value values.complete = b := by simpa [covered covers] using evaluated
      refine value_iff_holds fun v mem => ?_
      obtain ⟨a, assigned⟩ := Option.isSome_iff_exists.mp (covers v (mem_names.mpr mem))
      simp [Valuation.complete, assigned]
  · exact fun others same => eval_congr fun v mem => same v (mem_names.mpr mem)
  · rintro ⟨v, mem, unassigned⟩
    obtain ⟨w, first⟩ : ∃ w, f.firstUnassigned? values = some w := by
      refine Option.ne_none_iff_exists'.mp fun none => ?_
      simpa [unassigned] using firstUnassigned?_eq_none.mp none v mem
    exact ⟨w, first, eval_of_firstUnassigned? first⟩

/-- The constant would decide the formula, and `C` plays no part in it. -/
theorem eval_strict_constant :
    let f : Formula := .binary .or (.const true) (.binary .and (.var 'B') (.var 'A'))
    f.eval (.ofList [('A', true), ('C', false)]) = .error (.unassigned 'B') ∧
      f.eval (.ofList [('B', false), ('A', true), ('C', false)]) = .ok true ∧
      f.eval (.ofList [('A', true), ('B', false)]) = .ok true ∧
      f.Holds fun v =>
        Valuation.ofList [('B', false), ('A', true), ('C', false)] v = some true := by
  intro f
  obtain ⟨-, -, -, refused⟩ := f.eval_strict (.ofList [('A', true), ('C', false)])
  obtain ⟨evaluates, classical, restricted, -⟩ :=
    f.eval_strict (.ofList [('B', false), ('A', true), ('C', false)])
  obtain ⟨v, first, failed⟩ := refused ⟨'B', by decide, rfl⟩
  obtain rfl : 'B' = v := Option.some.inj first
  have each {P : Char → Prop} (ofA : P 'A') (ofB : P 'B') : ∀ v ∈ f.names, P v := by
    have names : f.names = ['A', 'B'] := by decide
    simp [names, ofA, ofB]
  obtain ⟨b, evaluated⟩ := evaluates.mpr (each rfl rfl)
  obtain rfl : true = b := Except.ok.inj evaluated
  have alike := restricted (.ofList [('A', true), ('B', false)]) (each rfl rfl)
  exact ⟨failed, evaluated, alike.trans evaluated, (classical true evaluated).mp rfl⟩

end Formula

end Sentential
