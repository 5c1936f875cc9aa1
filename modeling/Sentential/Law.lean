import Sentential.Formula.Printer

/-!
# Laws

A law is a schema `lhs ≡ rhs` whose variables stand for formulas. Matching finds out whether a pair
of formulas is an instance: one choice of formulas for the variables makes `lhs` the first and `rhs`
the second.
-/

namespace Sentential

structure Law where
  lhs : Formula
  rhs : Formula
  deriving DecidableEq, Repr

instance : ToString Law := ⟨fun law => s!"{law.lhs} ≡ {law.rhs}"⟩

abbrev Bindings := List (Char × Formula)

namespace Law

namespace Schema

abbrev a : Formula := .var 'A'

abbrev b : Formula := .var 'B'

abbrev c : Formula := .var 'C'

abbrev verum : Formula := .const true

abbrev falsum : Formula := .const false

end Schema

/-- Matches a schema against a formula, from left to right, keeping to the bindings that are there.
Only the letters A to Z are schema variables; another one matches nothing. -/
def bind : Formula → Formula → Bindings → Option Bindings
  | .var v, f, bindings =>
    if v.isUpper then
      match bindings.lookup v with
      | some bound => if bound = f then some bindings else none
      | none => some ((v, f) :: bindings)
    else none
  | .const a, .const b, bindings => if a = b then some bindings else none
  | .not p, .not f, bindings => bind p f bindings
  | .binary c p q, .binary d f g, bindings =>
    if c = d then (bind p f bindings).bind (bind q g) else none
  | _, _, _ => none

def relates (law : Law) (x y : Formula) : Bool :=
  ((bind law.lhs x []).bind (bind law.rhs y)).isSome

end Law

end Sentential
