import Sentential.Lexeme

/-!
# Respelling

Any text, formula or not, can be respelled in words or in glyphs: its operators and constants are
exchanged, all else stays as it was typed. Words get the blanks that keep them from running into
their neighbours; a glyph of negation drops the blank after it.
-/

namespace Sentential

namespace Lexeme

/-- Constants have no word: they are written as glyphs also among words. -/
def inWords (l : Lexeme) : List Char :=
  match l.kind with
  | .symbol (.op o) => o.word
  | .symbol (.const b) => [Symbol.constGlyph b]
  | _ => l.spelling

def inGlyphs (l : Lexeme) : List Char :=
  match l.kind with
  | .symbol (.op o) => [o.glyph]
  | .symbol (.const b) => [Symbol.constGlyph b]
  | _ => l.spelling

def isOperator (l : Lexeme) : Bool :=
  match l.kind with
  | .symbol (.op _) => true
  | _ => false

def isNegation (l : Lexeme) : Bool := l.kind == .symbol (.op .not)

def needsBlank (l next : Lexeme) : Bool :=
  (l.isOperator && next.spelling.head?.any Text.isWordChar) ||
    (next.isOperator && l.inWords.getLast?.any Text.isWordChar)

end Lexeme

namespace Respelling

def wordsAfter (l : Lexeme) : List Lexeme → List Char
  | [] => []
  | next :: lexemes =>
    (if l.needsBlank next then [' '] else []) ++ (next.inWords ++ wordsAfter next lexemes)

def words : List Lexeme → List Char
  | [] => []
  | l :: lexemes => l.inWords ++ wordsAfter l lexemes

/-- `dropBlank` says that a negation has just been written. -/
def glyphs (dropBlank : Bool) : List Lexeme → List Char
  | [] => []
  | l :: lexemes =>
    if dropBlank && l.isBlank then glyphs true lexemes
    else l.inGlyphs ++ glyphs l.isNegation lexemes

end Respelling

def respellInWords (text : List Char) : List Char := Respelling.words (Lexeme.ofText text)

def respellInGlyphs (text : List Char) : List Char := Respelling.glyphs false (Lexeme.ofText text)

end Sentential
