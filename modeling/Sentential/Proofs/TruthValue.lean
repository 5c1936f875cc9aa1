import Sentential.Valuation

/-!
# Truth values

Where every character has a value, every formula has one. Strict evaluation under a partial
valuation agrees with this as soon as the variables of the formula have values, whatever else has
one.
-/

namespace Sentential

namespace Formula

def value (values : Char → Bool) : Formula → Bool
  | .var v => values v
  | .const b => b
  | .not f => !f.value values
  | .binary c f g => c.apply (f.value values) (g.value values)

def Equivalent (f g : Formula) : Prop := ∀ values : Char → Bool, f.value values = g.value values

theorem Equivalent.refl (f : Formula) : f.Equivalent f := fun _ => rfl

theorem Equivalent.symm {f g : Formula} (h : f.Equivalent g) : g.Equivalent f :=
  fun values => (h values).symm

theorem Equivalent.trans {f g k : Formula} (h : f.Equivalent g) (h' : g.Equivalent k) :
    f.Equivalent k :=
  fun values => (h values).trans (h' values)

end Formula

namespace Valuation

def Covers (values : Valuation) (f : Formula) : Prop := ∀ v ∈ f.names, (values v).isSome

instance (values : Valuation) (f : Formula) : Decidable (values.Covers f) :=
  List.decidableBAll (fun v => (values v).isSome = true) f.names

/-- Characters without a value are taken to be false. -/
def complete (values : Valuation) : Char → Bool := fun v => (values v).getD false

theorem covers_iff {values : Valuation} {f : Formula} :
    values.Covers f ↔ ∀ v ∈ f.occurrences, (values v).isSome := by
  simp only [Covers, Formula.mem_names]

theorem covers_not {values : Valuation} {f : Formula} :
    values.Covers f.not ↔ values.Covers f := by
  simp only [covers_iff, Formula.occurrences]

theorem covers_binary {values : Valuation} {c : Connective} {f g : Formula} :
    values.Covers (.binary c f g) ↔ values.Covers f ∧ values.Covers g := by
  simp only [covers_iff, Formula.occurrences, List.mem_append]
  constructor
  · intro h
    exact ⟨fun v hv => h v (.inl hv), fun v hv => h v (.inr hv)⟩
  · rintro ⟨hf, hg⟩ v (hv | hv)
    · exact hf v hv
    · exact hg v hv

end Valuation

/-- Coincidence: the completion plays no part, since the formula asks for nothing it adds. -/
theorem Formula.eval_of_covers {values : Valuation} {f : Formula} (h : values.Covers f) :
    f.eval values = .ok (f.value values.complete) := by
  induction f with
  | var v =>
    have assigned : (values v).isSome := h v (by simp [Formula.mem_names, occurrences])
    obtain ⟨b, hb⟩ := Option.isSome_iff_exists.mp assigned
    simp [eval, value, Valuation.complete, hb]
  | const b => rfl
  | not f ih =>
    rw [eval, ih (Valuation.covers_not.mp h)]
    rfl
  | binary c f g ihf ihg =>
    obtain ⟨hf, hg⟩ := Valuation.covers_binary.mp h
    rw [eval, ihf hf, ihg hg]
    rfl

theorem Formula.eval_congr {values others : Valuation} {f : Formula}
    (h : ∀ v ∈ f.occurrences, values v = others v) : f.eval values = f.eval others := by
  induction f with
  | var v => simp only [eval, h v (List.mem_singleton_self v)]
  | const b => rfl
  | not f ih => rw [eval, eval, ih h]
  | binary c f g ihf ihg =>
    obtain ⟨hf, hg⟩ := List.forall_mem_append.mp h
    rw [eval, eval, ihf hf, ihg hg]

/-- Equivalent formulas evaluate alike also where each has variables that the other has not. -/
theorem Formula.Equivalent.eval {f g : Formula} (h : f.Equivalent g) {values : Valuation}
    (hf : values.Covers f) (hg : values.Covers g) :
    ∃ b, f.eval values = .ok b ∧ g.eval values = .ok b :=
  ⟨f.value values.complete, eval_of_covers hf, by rw [eval_of_covers hg, h values.complete]⟩

end Sentential
