import Sentential.Cursor
import Sentential.Parentheses

/-!
# Parser

Reads a token list as a formula. All connectives associate to the left, negation binds most tightly.
A formula may be as high as `maxDepth`, and as many parentheses may be open at once; the two are
counted apart. The parser descends once for each parenthesis that it enters, and a chain of one
connective ends because its tree grows higher with each link.
-/

namespace Sentential

/-- The contents of a pair of parentheses: their tokens are those from `start` up to `stop`, and
`depth` pairs enclose the pair. -/
structure Group where
  formula : Formula
  start : Nat
  stop : Nat
  depth : Nat
  deriving DecidableEq, Repr

/-- A formula that has been read, with its height and its groups in the order of their opening
parentheses. The height is kept so that no tree is walked to find it. -/
structure Operand where
  formula : Formula
  height : Nat
  groups : List Group
  deriving DecidableEq, Repr

namespace Operand

def atom (f : Formula) : Operand := ⟨f, 1, []⟩

def negate (operand : Operand) (negation : Token) : Except SyntaxError Operand :=
  if operand.height < maxDepth then
    .ok ⟨.not operand.formula, operand.height + 1, operand.groups⟩
  else .error (.tooDeep negation.position)

end Operand

abbrev Parser := Cursor → Except SyntaxError (Operand × Cursor)

namespace Parser

def atom (group : Token → Parser) : Parser := fun cur =>
  match cur.next? with
  | none => .error cur.dangling
  | some (t, next) =>
    match t.symbol with
    | .var v => .ok (.atom (.var v), next)
    | .const b => .ok (.atom (.const b), next)
    | .opening => group t next
    | .closing => .error cur.dangling
    | .op _ => .error (.misplacedOperator (String.ofList t.spelling) t.position)

def group (depth : Nat) (contents : Parser) (opening : Token) : Parser := fun cur =>
  if cur.rest.head?.any (·.symbol == .closing) then
    .error (.emptyParentheses opening.position)
  else do
    let (operand, after) ← contents cur
    match after.next? with
    | none => .error (.unmatchedOpening opening.position)
    | some (t, next) =>
      if t.symbol = .closing then
        let group := ⟨operand.formula, cur.index, after.index, depth⟩
        .ok (⟨operand.formula, operand.height, group :: operand.groups⟩, next)
      else .error t.unexpected

def negated (operand : Parser) : Parser := fun cur => do
  let (body, next) ← operand cur.afterNegations
  let operand ← cur.negations.reverse.foldlM Operand.negate body
  return (operand, next)

def chain (c : Connective) (operand : Parser) (left : Operand) (cur : Cursor) :
    Except SyntaxError (Operand × Cursor) :=
  match cur.next? with
  | none => .ok (left, cur)
  | some (t, next) =>
    if t.symbol = .op (.binary c) then
      match operand next with
      | .error e => .error e
      | .ok (right, next) =>
        let height := max left.height right.height + 1
        if height ≤ maxDepth then
          chain c operand
            ⟨.binary c left.formula right.formula, height, left.groups ++ right.groups⟩ next
        else .error (.tooDeep t.position)
    else .ok (left, cur)
  termination_by maxDepth - left.height

/-- Chains of the connectives given, each with operands made by those after it. -/
def chains (operand : Parser) : List Connective → Parser
  | [] => operand
  | c :: tighter => fun cur => do
    let (left, next) ← chains operand tighter cur
    chain c (chains operand tighter) left next

/-- A formula in which `room` more parentheses may be open at once. -/
def formula : (room : Nat) → Parser
  | 0 =>
    chains (negated (atom fun opening _ => .error (.tooDeep opening.position))) Connective.all
  | room + 1 =>
    chains (negated (atom (group (maxDepth - (room + 1)) (formula room)))) Connective.all

end Parser

structure Parsed where
  root : Formula
  tokens : List Token
  groups : List Group
  deriving DecidableEq, Repr

namespace Parsed

def ofTokens (tokens : List Token) : Except SyntaxError Parsed :=
  if tokens.isEmpty then .error .emptyFormula
  else do
    Token.checkParentheses tokens
    let (operand, after) ← Parser.formula maxDepth (Cursor.start tokens)
    match after.next? with
    | some (t, _) => .error t.unexpected
    | none => return ⟨operand.formula, tokens, operand.groups⟩

def ofText (text : List Char) : Except SyntaxError Parsed := do
  ofTokens (← Token.ofText text)

def contents (parsed : Parsed) (group : Group) : List Token :=
  (parsed.tokens.drop group.start).take (group.stop - group.start)

end Parsed

def Formula.ofText (text : List Char) : Except SyntaxError Formula := do
  return (← Parsed.ofText text).root

end Sentential
