import Sentential.Lexeme
import Sentential.SyntaxError

/-!
# Tokens

A token is a symbol as it was typed. The tokens of a text are its lexemes less the blanks; a lexeme
that spells no symbol is an error, and of several the leftmost.
-/

namespace Sentential

structure Token where
  symbol : Symbol
  spelling : List Char
  position : Nat
  deriving DecidableEq, Repr

def Lexeme.token? (l : Lexeme) : Option Token :=
  match l.kind with
  | .symbol s => some ⟨s, l.spelling, l.position⟩
  | .word | .blank | .other => none

namespace Token

def ofLexemes (lexemes : List Lexeme) : Except SyntaxError (List Token) :=
  match lexemes.find? Lexeme.isForeign with
  | some l => .error (.invalidToken (String.ofList l.spelling) l.position)
  | none => .ok (lexemes.filterMap Lexeme.token?)

def ofText (text : List Char) : Except SyntaxError (List Token) :=
  ofLexemes (Lexeme.ofText text)

/-- The symbols of the tokens in the uniform spacing of printed formulas. -/
def render (tokens : List Token) : List Char := Symbol.render (tokens.map symbol)

end Token

end Sentential
