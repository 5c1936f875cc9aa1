import Sentential.Connective

/-!
# Formulas

Propositional formulas as trees. A variable is any one character; that a variable which a reader
types is a capital letter is a rule of the notation, not of the trees.
-/

namespace Sentential

inductive Formula
  | var (name : Char)
  | const (value : Bool)
  | not (body : Formula)
  | binary (c : Connective) (left right : Formula)
  deriving DecidableEq, Repr, Inhabited

namespace Formula

def and (f g : Formula) : Formula := .binary .and f g

def or (f g : Formula) : Formula := .binary .or f g

def implies (f g : Formula) : Formula := .binary .implies f g

def isAtom : Formula → Bool
  | .var _ | .const _ => true
  | .not _ | .binary .. => false

def height : Formula → Nat
  | .var _ | .const _ => 1
  | .not f => f.height + 1
  | .binary _ f g => max f.height g.height + 1

def occurrences : Formula → List Char
  | .var v => [v]
  | .const _ => []
  | .not f => f.occurrences
  | .binary _ f g => f.occurrences ++ g.occurrences

def insertName (v : Char) : List Char → List Char
  | [] => [v]
  | w :: ws => if v < w then v :: w :: ws else if v = w then w :: ws else w :: insertName v ws

/-- The distinct variables, by ascending code point. -/
def names (f : Formula) : List Char := f.occurrences.foldr insertName []

def Lettered (f : Formula) : Prop := ∀ v ∈ f.occurrences, v.isUpper

instance (f : Formula) : Decidable f.Lettered :=
  List.decidableBAll (fun v : Char => v.isUpper = true) f.occurrences

theorem lettered_binary {c : Connective} {f g : Formula} :
    (Formula.binary c f g).Lettered ↔ f.Lettered ∧ g.Lettered := List.forall_mem_append

theorem mem_insertName {v w : Char} {names : List Char} :
    w ∈ insertName v names ↔ w = v ∨ w ∈ names := by
  induction names with
  | nil => simp [insertName]
  | cons u names ih =>
    unfold insertName
    split
    · simp
    · split
      · simp_all
      · simp only [List.mem_cons, ih]
        grind

theorem mem_names {v : Char} {f : Formula} : v ∈ f.names ↔ v ∈ f.occurrences := by
  unfold names
  induction f.occurrences with
  | nil => simp
  | cons u names ih => simp [mem_insertName, ih]

end Formula

end Sentential
