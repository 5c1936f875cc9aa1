/-!
# Connectives

The five binary connectives and negation, with all that is fixed about each: the word and the glyph
that spell it, how tightly it binds, and its truth function.
-/

namespace Sentential

inductive Connective
  | iff
  | implies
  | xor
  | or
  | and
  deriving DecidableEq, Repr

namespace Connective

def all : List Connective := [.iff, .implies, .xor, .or, .and]

def word : Connective → List Char
  | .iff => ['I', 'F', 'F']
  | .implies => ['I', 'M', 'P', 'L', 'I', 'E', 'S']
  | .xor => ['X', 'O', 'R']
  | .or => ['O', 'R']
  | .and => ['A', 'N', 'D']

def glyph : Connective → Char
  | .iff => '↔'
  | .implies => '→'
  | .xor => '⊕'
  | .or => '∨'
  | .and => '∧'

/-- A connective of a higher level binds more tightly. -/
def level : Connective → Nat
  | .iff => 1
  | .implies => 2
  | .xor => 3
  | .or => 4
  | .and => 5

def apply : Connective → Bool → Bool → Bool
  | .iff, a, b => a == b
  | .implies, a, b => !a || b
  | .xor, a, b => a != b
  | .or, a, b => a || b
  | .and, a, b => a && b

theorem level_pos (c : Connective) : 0 < c.level := by cases c <;> simp [level]

theorem level_lt_six (c : Connective) : c.level < 6 := by cases c <;> simp [level]

theorem level_injective {c d : Connective} (h : c.level = d.level) : c = d := by
  cases c <;> cases d <;> simp_all [level]

end Connective

inductive Operator
  | not
  | binary (c : Connective)
  deriving DecidableEq, Repr

namespace Operator

def word : Operator → List Char
  | .not => ['N', 'O', 'T']
  | .binary c => c.word

def glyph : Operator → Char
  | .not => '¬'
  | .binary c => c.glyph

end Operator

end Sentential
