import Sentential.Symbol
import Sentential.Text.Blank
import Sentential.Text.WordCharacter

/-!
# Lexemes

Any text is cut into lexemes, whether or not it is a formula: runs of blanks, spellings of symbols,
words, and single characters that are none of these. Nothing of the text is lost.
-/

namespace Sentential

namespace Symbol

/-- The spellings that are no words. A spelling stands before the shorter ones inside it, so the
first that the text starts with is the longest. -/
def signs : List (List Char × Symbol) :=
  [(['<', '-', '>'], .op (.binary .iff)), (['<', '=', '>'], .op (.binary .iff)),
    (['-', '>'], .op (.binary .implies)), (['→'], .op (.binary .implies)),
    (['↔'], .op (.binary .iff)), (['&'], .op (.binary .and)), (['∧'], .op (.binary .and)),
    (['|'], .op (.binary .or)), (['∨'], .op (.binary .or)), (['~'], .op .not), (['!'], .op .not),
    (['¬'], .op .not), (['^'], .op (.binary .xor)), (['⊕'], .op (.binary .xor)),
    (['⊤'], .const true), (['⊥'], .const false), (['('], .opening), ([')'], .closing)]

def keywords : List (List Char × Symbol) :=
  [(['A', 'N', 'D'], .op (.binary .and)), (['O', 'R'], .op (.binary .or)),
    (['N', 'O', 'T'], .op .not), (['I', 'M', 'P', 'L', 'I', 'E', 'S'], .op (.binary .implies)),
    (['I', 'F', 'F'], .op (.binary .iff)), (['X', 'O', 'R'], .op (.binary .xor)),
    (['T', 'R', 'U', 'E'], .const true), (['F', 'A', 'L', 'S', 'E'], .const false)]

def sign? (text : List Char) : Option (List Char × Symbol) :=
  signs.find? fun sign => sign.1.isPrefixOf text

/-- A word is a keyword in any mixture of ASCII cases, or one capital letter. -/
def ofWord? (word : List Char) : Option Symbol :=
  match keywords.lookup (word.map Char.toUpper) with
  | some s => some s
  | none =>
    match word with
    | [c] => if c.isUpper then some (.var c) else none
    | _ => none

end Symbol

inductive LexemeKind
  | symbol (s : Symbol)
  | word
  | blank
  | other
  deriving DecidableEq, Repr

/-- The position is that of the first character, counted from 1. -/
structure Lexeme where
  kind : LexemeKind
  spelling : List Char
  position : Nat
  deriving DecidableEq, Repr

namespace LexemeKind

def ofWord (word : List Char) : LexemeKind :=
  match Symbol.ofWord? word with
  | some s => .symbol s
  | none => .word

def first (c : Char) (text : List Char) : LexemeKind × List Char :=
  if Text.isBlank c then (.blank, c :: text.takeWhile Text.isBlank)
  else
    match Symbol.sign? (c :: text) with
    | some (spelling, s) => (.symbol s, spelling)
    | none =>
      if Text.isWordChar c then
        let word := c :: text.takeWhile Text.isWordChar
        (ofWord word, word)
      else (.other, [c])

end LexemeKind

theorem Symbol.sign?_spelling {text spelling : List Char} {s : Symbol}
    (h : Symbol.sign? text = some (spelling, s)) : spelling ≠ [] ∧ spelling <+: text := by
  have nonempty : ∀ sign ∈ Symbol.signs, sign.1 ≠ [] := by decide
  exact ⟨nonempty _ (List.mem_of_find?_eq_some h), by simpa using List.find?_some h⟩

theorem LexemeKind.first_spelling (c : Char) (text : List Char) :
    (first c text).2 ≠ [] ∧ (first c text).2 <+: c :: text := by
  unfold first
  split
  · exact ⟨by simp, by simpa using List.takeWhile_prefix _⟩
  · split
    next h => exact Symbol.sign?_spelling h
    next =>
      split
      · exact ⟨by simp, by simpa using List.takeWhile_prefix _⟩
      · exact ⟨by simp, by simp⟩

namespace Lexeme

def scan (position : Nat) : List Char → List Lexeme
  | [] => []
  | c :: text =>
    match _h : LexemeKind.first c text with
    | (kind, spelling) =>
      ⟨kind, spelling, position⟩ ::
        scan (position + spelling.length) ((c :: text).drop spelling.length)
  termination_by text => text.length
  decreasing_by
    have := List.length_pos_iff.mpr (_h ▸ (LexemeKind.first_spelling c text).1)
    simp_all
    omega

def ofText (text : List Char) : List Lexeme := scan 1 text

theorem flatMap_spelling_scan (position : Nat) (text : List Char) :
    (scan position text).flatMap spelling = text := by
  fun_induction scan position text with
  | case1 => rfl
  | case2 position c text kind spelling h ih =>
    have start := (LexemeKind.first_spelling c text).2
    rw [h] at start
    rw [List.flatMap_cons, ih]
    exact List.prefix_iff_eq_append.mp start

def isBlank (l : Lexeme) : Bool := l.kind == .blank

def isForeign (l : Lexeme) : Bool := l.kind == .word || l.kind == .other

end Lexeme

end Sentential
