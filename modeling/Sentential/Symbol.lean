import Sentential.Formula

/-!
# Symbols

What formulas are written with. Each symbol has one glyph, and a list of symbols is rendered with
one blank on either side of a binary connective and none elsewhere.
-/

namespace Sentential

inductive Symbol
  | var (name : Char)
  | const (value : Bool)
  | op (o : Operator)
  | opening
  | closing
  deriving DecidableEq, Repr

namespace Symbol

def constGlyph : Bool → Char
  | true => '⊤'
  | false => '⊥'

def glyph : Symbol → Char
  | .var v => v
  | .const b => constGlyph b
  | .op o => o.glyph
  | .opening => '('
  | .closing => ')'

def startsOperand : Symbol → Bool
  | .var _ | .const _ | .opening | .op .not => true
  | .closing | .op (.binary _) => false

def spaced : Symbol → List Char
  | .op (.binary c) => [' ', c.glyph, ' ']
  | s => [s.glyph]

def render (symbols : List Symbol) : List Char := symbols.flatMap spaced

end Symbol

end Sentential
