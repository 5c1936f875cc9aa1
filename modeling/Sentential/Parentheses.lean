import Sentential.Token

/-!
# Parentheses

Whether the parentheses of a token list match, apart from all else. A closing parenthesis without a
partner is reported first, then the leftmost opening one.
-/

namespace Sentential.Token

/-- `opened` holds the positions of the parentheses that are open, the innermost first. -/
def matchParentheses (opened : List Nat) : List Token → Except SyntaxError Unit
  | [] =>
    match opened.getLast? with
    | none => .ok ()
    | some position => .error (.unmatchedOpening position)
  | t :: tokens =>
    match t.symbol with
    | .opening => matchParentheses (t.position :: opened) tokens
    | .closing =>
      match opened with
      | [] => .error (.unmatchedClosing t.position)
      | _ :: opened => matchParentheses opened tokens
    | .var _ | .const _ | .op _ => matchParentheses opened tokens

def checkParentheses (tokens : List Token) : Except SyntaxError Unit := matchParentheses [] tokens

end Sentential.Token
