import Sentential.Formula

/-!
# Valuations

A valuation gives truth values to some of the characters. Evaluation is strict: every variable of
the formula needs a value, also where a constant beside it would decide the result.
-/

namespace Sentential

abbrev Valuation := Char → Option Bool

/-- The last pair of a character counts. -/
def Valuation.ofList (values : List (Char × Bool)) : Valuation := fun v => values.reverse.lookup v

inductive EvalError
  | unassigned (name : Char)
  deriving DecidableEq, Repr

def EvalError.message : EvalError → String
  | .unassigned v => s!"Variable {v} has no truth value"

/-- The left operand comes first, so of several unassigned variables the leftmost is the error. -/
def Formula.eval (values : Valuation) : Formula → Except EvalError Bool
  | .var v =>
    match values v with
    | some b => .ok b
    | none => .error (.unassigned v)
  | .const b => .ok b
  | .not f => do
    let a ← f.eval values
    return !a
  | .binary c f g => do
    let a ← f.eval values
    let b ← g.eval values
    return c.apply a b

end Sentential
