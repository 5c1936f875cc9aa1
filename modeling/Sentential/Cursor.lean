import Sentential.Token

/-!
# Cursors

A place in a list of tokens: what is still to be read, how much has been read, and the token just
read, which is blamed when an operand is missing.
-/

namespace Sentential

structure Cursor where
  previous : Option Token
  index : Nat
  rest : List Token
  deriving DecidableEq, Repr

def Token.isNegation (t : Token) : Bool := t.symbol == .op .not

namespace Cursor

def start (tokens : List Token) : Cursor := ⟨none, 0, tokens⟩

def next? (cur : Cursor) : Option (Token × Cursor) :=
  match cur.rest with
  | [] => none
  | t :: rest => some (t, ⟨some t, cur.index + 1, rest⟩)

def negations (cur : Cursor) : List Token := cur.rest.takeWhile Token.isNegation

def afterNegations (cur : Cursor) : Cursor where
  previous := cur.negations.getLast?.or cur.previous
  index := cur.index + cur.negations.length
  rest := cur.rest.dropWhile Token.isNegation

def dangling (cur : Cursor) : SyntaxError :=
  match cur.previous with
  | some t => .danglingOperator (String.ofList t.spelling) t.position
  | none => .emptyFormula

end Cursor

def Token.unexpected (t : Token) : SyntaxError :=
  match t.symbol with
  | .closing => .unmatchedClosing t.position
  | .var _ | .const _ | .opening | .op .not => .missingOperator t.position
  | .op (.binary _) => .misplacedOperator (String.ofList t.spelling) t.position

end Sentential
