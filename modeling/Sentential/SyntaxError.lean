/-!
# Syntax errors

What can be wrong with a typed formula. Positions count characters of the text from 1.
-/

namespace Sentential

/-- The largest height of a formula, and the largest number of parentheses open at once. -/
def maxDepth : Nat := 256

inductive SyntaxError
  | emptyFormula
  | invalidToken (spelling : String) (position : Nat)
  | unmatchedOpening (position : Nat)
  | unmatchedClosing (position : Nat)
  | missingOperator (position : Nat)
  | misplacedOperator (spelling : String) (position : Nat)
  | danglingOperator (spelling : String) (position : Nat)
  | emptyParentheses (position : Nat)
  | tooDeep (position : Nat)
  deriving DecidableEq, Repr

namespace SyntaxError

def message : SyntaxError → String
  | .emptyFormula => "Please enter a formula"
  | .invalidToken s p =>
    s!"Unknown token '{s}' at position {p}. Variables are single uppercase letters"
  | .unmatchedOpening p => s!"Unmatched '(' at position {p}"
  | .unmatchedClosing p => s!"Unmatched ')' at position {p}"
  | .missingOperator p => s!"Missing operator between operands before position {p}"
  | .misplacedOperator s p => s!"Operator '{s}' at position {p} is missing its left operand"
  | .danglingOperator s p => s!"Operator '{s}' at position {p} is missing its right operand"
  | .emptyParentheses p => s!"Empty parentheses at position {p}"
  | .tooDeep p =>
    s!"Formula is nested too deeply at position {p} (at most {maxDepth} levels)"

def position? : SyntaxError → Option Nat
  | .emptyFormula => none
  | .invalidToken _ p | .misplacedOperator _ p | .danglingOperator _ p => some p
  | .unmatchedOpening p | .unmatchedClosing p | .missingOperator p => some p
  | .emptyParentheses p | .tooDeep p => some p

end SyntaxError

end Sentential
