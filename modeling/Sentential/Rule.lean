import Sentential.Law

/-!
# Rules

The twelve rules of equivalence proofs. A rule leads from one whole formula to another when the
pair is an instance of one of its laws, read in either direction.
-/

namespace Sentential

inductive Rule
  | doubleNegation
  | deMorgan
  | commutative
  | associative
  | distributive
  | idempotent
  | excludedMiddle
  | nonContradiction
  | identity
  | domination
  | implicationContrapositive
  | implicationDisjunction
  deriving DecidableEq, Repr

namespace Rule

def all : List Rule :=
  [.doubleNegation, .deMorgan, .commutative, .associative, .distributive, .idempotent,
    .excludedMiddle, .nonContradiction, .identity, .domination, .implicationContrapositive,
    .implicationDisjunction]

def name : Rule → String
  | .doubleNegation => "double_negation"
  | .deMorgan => "de_morgan"
  | .commutative => "commutative"
  | .associative => "associative"
  | .distributive => "distributive"
  | .idempotent => "idempotent"
  | .excludedMiddle => "excluded_middle"
  | .nonContradiction => "non_contradiction"
  | .identity => "identity"
  | .domination => "domination"
  | .implicationContrapositive => "implication_contrapositive"
  | .implicationDisjunction => "implication_disjunction"

def label : Rule → String
  | .doubleNegation => "Double Negation"
  | .deMorgan => "De Morgan's Law"
  | .commutative => "Commutative Law"
  | .associative => "Associative Law"
  | .distributive => "Distributive Law"
  | .idempotent => "Idempotent Law"
  | .excludedMiddle => "Law of Excluded Middle"
  | .nonContradiction => "Law of Non-Contradiction"
  | .identity => "Identity Law"
  | .domination => "Domination Law"
  | .implicationContrapositive => "Implication and Contrapositive"
  | .implicationDisjunction => "Implication as Disjunction"

def ofName? (name : String) : Option Rule := all.find? (·.name == name)

def ofLabel? (label : String) : Option Rule := all.find? (·.label == label)

open Law.Schema in
def laws : Rule → List Law
  | .doubleNegation => [⟨a.not.not, a⟩]
  | .deMorgan => [⟨(a.and b).not, a.not.or b.not⟩, ⟨(a.or b).not, a.not.and b.not⟩]
  | .commutative => [⟨a.and b, b.and a⟩, ⟨a.or b, b.or a⟩]
  | .associative => [⟨(a.and b).and c, a.and (b.and c)⟩, ⟨(a.or b).or c, a.or (b.or c)⟩]
  | .distributive =>
    [⟨a.and (b.or c), (a.and b).or (a.and c)⟩, ⟨a.or (b.and c), (a.or b).and (a.or c)⟩]
  | .idempotent => [⟨a.and a, a⟩, ⟨a.or a, a⟩]
  | .excludedMiddle => [⟨a.or a.not, verum⟩, ⟨a.not.or a, verum⟩]
  | .nonContradiction => [⟨a.and a.not, falsum⟩, ⟨a.not.and a, falsum⟩]
  | .identity => [⟨a.and verum, a⟩, ⟨verum.and a, a⟩, ⟨a.or falsum, a⟩, ⟨falsum.or a, a⟩]
  | .domination =>
    [⟨a.and falsum, falsum⟩, ⟨falsum.and a, falsum⟩, ⟨a.or verum, verum⟩, ⟨verum.or a, verum⟩]
  | .implicationContrapositive => [⟨a.implies b, b.not.implies a.not⟩]
  | .implicationDisjunction => [⟨a.implies b, a.not.or b⟩]

def check (rule : Rule) (x y : Formula) : Bool :=
  rule.laws.any fun law => law.relates x y || law.relates y x

theorem ofLabel?_label (rule : Rule) : ofLabel? rule.label = some rule := by cases rule <;> rfl

end Rule

end Sentential
