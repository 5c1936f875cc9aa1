import Sentential.Token
import Sentential.Proofs.Cutting
import Sentential.Proofs.Grammar
import Sentential.Proofs.Results

/-!
# Lexing what is rendered

A rendered phrase over the letters A to Z is cut into the symbols it was rendered from, with a blank
on either side of a connective: `Lexeme.Scanned.render`. These blanks and a parenthesis are no word
characters, so two letters never run together.
-/

namespace Sentential

-- ---------------------------------------------------------------------------
-- Rendered phrases
-- ---------------------------------------------------------------------------

theorem Symbol.glyph_mem_signs {s : Symbol} (h : ∀ v, s ≠ .var v) : ([s.glyph], s) ∈ signs := by
  cases s with
  | var v => exact absurd rfl (h v)
  | const b => cases b <;> decide
  | op o =>
    cases o with
    | not => decide
    | binary c => cases c <;> decide
  | opening => decide
  | closing => decide

namespace LexemeKind

theorem exists_of_isUpper {c : Char} (h : c.isUpper = true) :
    ∃ i : Fin 26, c = Char.ofNat (65 + i) := by
  have range : c.val ≥ 'A'.val ∧ c.val ≤ 'Z'.val := of_decide_eq_true h
  have bounds : 65 ≤ c.toNat ∧ c.toNat ≤ 90 := by
    simpa [UInt32.le_iff_toNat_le, ← Char.toNat_val] using range
  refine ⟨⟨c.toNat - 65, by omega⟩, ?_⟩
  have same : 65 + (c.toNat - 65) = c.toNat := by omega
  simp [same]

/-- All that tells what a capital letter is, is the same for the 26 of them. -/
theorem capital {c : Char} (h : c.isUpper = true) : Text.isBlank c = false ∧
    Text.isWordChar c = true ∧ ofWord [c] = .symbol (.var c) := by
  obtain ⟨i, rfl⟩ := exists_of_isUpper h
  revert i
  decide +kernel

end LexemeKind

namespace Lexeme

def gap : Lexeme := ⟨.blank, [' '], 0⟩

theorem opens_gap {rest : List Char} (solid : Text.Solid rest) : gap.kind.Opens gap.spelling rest :=
  .blank (List.cons_ne_nil ' ' []) (List.forall_mem_singleton.mpr rfl) solid

end Lexeme

def Symbol.lexeme (s : Symbol) : Lexeme := ⟨.symbol s, [s.glyph], 0⟩

def Symbol.lexemes : Symbol → List Lexeme
  | .op (.binary c) => [.gap, lexeme (.op (.binary c)), .gap]
  | s => [s.lexeme]

namespace Phrase

def lexemes (p : Phrase) : List Lexeme := p.symbols.flatMap Symbol.lexemes

theorem lexemes_enclosed (p : Phrase) :
    (enclosed p).lexemes = Symbol.opening.lexeme :: (p.lexemes ++ [Symbol.closing.lexeme]) := by
  simp [lexemes, symbols, Symbol.lexemes]

theorem lexemes_binary (c : Connective) (p q : Phrase) :
    (binary c p q).lexemes =
      p.lexemes ++ .gap :: (Symbol.op (.binary c)).lexeme :: .gap :: q.lexemes := by
  simp [lexemes, symbols, Symbol.lexemes]

theorem lexemes_eq_cons (p : Phrase) : ∃ s rest, p.lexemes = Symbol.lexeme s :: rest := by
  obtain ⟨s, rest, symbols, starts⟩ := p.symbols_eq_cons
  refine ⟨s, rest.flatMap Symbol.lexemes, ?_⟩
  rw [lexemes, symbols, List.flatMap_cons]
  cases s with
  | op o =>
    cases o with
    | not => rfl
    | binary c => cases starts
  | _ => rfl

end Phrase

namespace Lexeme

variable {l : Lexeme} {text : List Char} {rest : List Lexeme} {p : Phrase} {s : Symbol}

theorem Scanned.solid (h : Scanned text (l :: rest)) (unblank : l.kind ≠ .blank) :
    Text.Solid text := by
  cases h with
  | cons opens => exact (opens.solid unblank).append opens.ne_nil _

theorem Scanned.gap (behind : Scanned text rest) (solid : Text.Solid text) :
    Scanned (' ' :: text) (.gap :: rest) :=
  .cons (opens_gap solid) behind

theorem Scanned.glyph (behind : Scanned text rest) (h : ∀ v, s ≠ .var v) :
    Scanned (s.glyph :: text) (s.lexeme :: rest) :=
  .cons (l := s.lexeme) (.sign (Symbol.glyph_mem_signs h)) behind

theorem Scanned.capital {v : Char} (behind : Scanned text rest) (capital : v.isUpper = true)
    (severed : Text.Severed text) : Scanned (v :: text) ((Symbol.var v).lexeme :: rest) := by
  obtain ⟨solid, wordChar, letter⟩ := LexemeKind.capital capital
  refine .cons (l := (Symbol.var v).lexeme) ?_ behind
  have opens : (LexemeKind.ofWord [v]).Opens [v] text :=
    .word solid (List.forall_mem_singleton.mpr wordChar) severed
  rwa [letter] at opens

theorem Scanned.render (behind : Scanned text rest) (lettered : p.formula.Lettered)
    (severed : Text.Severed text) :
    Scanned (Symbol.render p.symbols ++ text) (p.lexemes ++ rest) := by
  induction p generalizing text rest with
  | var v => exact behind.capital (lettered v (List.mem_singleton_self v)) severed
  | const b => exact behind.glyph (s := .const b) (by simp)
  | enclosed p ih =>
    have closing := behind.glyph (s := .closing) (by simp)
    have body := ih closing lettered (by simp; decide)
    have opening := body.glyph (s := .opening) (by simp)
    simpa [Phrase.symbols, Symbol.render, Symbol.spaced, Phrase.lexemes_enclosed] using opening
  | not p ih => exact (ih behind lettered severed).glyph (s := .op .not) (by simp)
  | binary c p q ihp ihq =>
    obtain ⟨left, right⟩ := Formula.lettered_binary.mp lettered
    have operand := ihq behind right severed
    obtain ⟨s, others, first⟩ := q.lexemes_eq_cons
    have solid := (first ▸ operand).solid (by simp [Symbol.lexeme])
    have glyph := (operand.gap solid).glyph (s := .op (.binary c)) (by simp)
    have link := glyph.gap (glyph.solid (by simp [Symbol.lexeme]))
    have whole := ihp link left (by simp; decide)
    simpa [Phrase.symbols, Symbol.render, Symbol.spaced, Symbol.glyph, Operator.glyph,
      Phrase.lexemes_binary] using whole

end Lexeme

-- ---------------------------------------------------------------------------
-- Texts and their symbols
-- ---------------------------------------------------------------------------

namespace Token

theorem ofLexemes_filter (lexemes : List Lexeme) :
    ofLexemes (lexemes.filter (!·.isBlank)) = ofLexemes lexemes := by
  have foreign (l : Lexeme) : (!l.isBlank && l.isForeign) = l.isForeign := by
    obtain ⟨kind, spelling, position⟩ := l
    cases kind <;> rfl
  have token (l : Lexeme) : (if !l.isBlank then l.token? else none) = l.token? := by
    obtain ⟨kind, spelling, position⟩ := l
    cases kind <;> rfl
  unfold ofLexemes
  simp only [List.find?_filter, List.filterMap_filter, Bool.decide_and, Bool.decide_eq_true,
    foreign, token]

theorem ofLexemes_symbol {l : Lexeme} {s : Symbol} (h : l.kind = .symbol s)
    (lexemes : List Lexeme) :
    ofLexemes (l :: lexemes) = (ofLexemes lexemes).map (⟨s, l.spelling, l.position⟩ :: ·) := by
  have own : l.isForeign = false := by simp [Lexeme.isForeign, h]
  simp only [ofLexemes, List.find?_cons, own]
  cases lexemes.find? Lexeme.isForeign with
  | some foreign => rfl
  | none => simp [Lexeme.token?, h, Except.map]

theorem exists_ofLexemes_iff {lexemes : List Lexeme} {symbols : List Symbol} :
    (∃ tokens, ofLexemes lexemes = .ok tokens ∧ tokens.map symbol = symbols) ↔
      (Lexeme.pieces Lexeme.spelling lexemes).map Prod.fst = symbols.map .symbol := by
  induction lexemes generalizing symbols with
  | nil => cases symbols <;> simp [ofLexemes, Lexeme.pieces]
  | cons l lexemes ih =>
    cases kind : l.kind with
    | symbol s =>
      rw [ofLexemes_symbol kind, Lexeme.pieces_cons_solid (by simp [kind]), List.map_cons, kind]
      constructor
      · rintro ⟨tokens, cut, rfl⟩
        cases result : ofLexemes lexemes with
        | error e => simp [result, Except.map] at cut
        | ok others =>
          obtain rfl := Except.ok.inj (result ▸ cut)
          exact congrArg (.symbol s :: ·) (ih.mp ⟨others, result, rfl⟩)
      · intro kinds
        obtain ⟨t, others, rfl, same, others'⟩ := List.map_eq_cons_iff.mp kinds.symm
        obtain rfl := LexemeKind.symbol.inj same
        obtain ⟨tokens, cut, rfl⟩ := ih.mpr others'.symm
        exact ⟨_, by rw [cut]; rfl, rfl⟩
    | blank =>
      rw [← ofLexemes_filter, List.filter_cons_of_neg (by simp [Lexeme.isBlank, kind]),
        ofLexemes_filter, ih, Lexeme.pieces_cons_blank kind]
    | word | other =>
      have foreign : l.isForeign = true := by simp [Lexeme.isForeign, kind]
      rw [Lexeme.pieces_cons_solid (by simp [kind])]
      cases symbols <;> simp [ofLexemes, foreign, kind]

end Token

/-- Wherever the text stands, it is cut into tokens with these symbols. -/
def Spells (text : List Char) (symbols : List Symbol) : Prop :=
  ∀ position, ∃ tokens,
    Token.ofLexemes (Lexeme.scan position text) = .ok tokens ∧ tokens.map Token.symbol = symbols

theorem Symbol.kinds_lexemes (symbols : List Symbol) :
    (Lexeme.pieces Lexeme.spelling (symbols.flatMap lexemes)).map Prod.fst =
      symbols.map .symbol := by
  induction symbols with
  | nil => rfl
  | cons s symbols ih =>
    rw [List.flatMap_cons, Lexeme.pieces_append, List.map_append, ih]
    cases s with
    | op o => cases o <;> rfl
    | _ => rfl

namespace Spells

variable {text : List Char} {symbols : List Symbol}

theorem nil : Spells [] [] := fun _ => ⟨[], by simp [Lexeme.scan, Token.ofLexemes], rfl⟩

theorem render {p : Phrase} (lettered : p.formula.Lettered)
    (severed : Text.Severed text) (rest : Spells text symbols) :
    Spells (Symbol.render p.symbols ++ text) (p.symbols ++ symbols) := by
  intro position
  have cut := ((Lexeme.scanned_scan 1 text).render lettered severed).cuts position
  have behind := Token.exists_ofLexemes_iff.mp (rest 1)
  rw [Token.exists_ofLexemes_iff, cut, Lexeme.pieces_append, List.map_append, List.map_append,
    behind, Phrase.lexemes, Symbol.kinds_lexemes]

end Spells

-- ---------------------------------------------------------------------------
-- The letters of a text
-- ---------------------------------------------------------------------------

theorem Lexeme.exists_first_of_mem_scan {position : Nat} {text : List Char} {l : Lexeme}
    (h : l ∈ scan position text) : ∃ c rest, LexemeKind.first c rest = (l.kind, l.spelling) := by
  fun_induction scan position text with
  | case1 => simp at h
  | case2 position c text kind spelling first ih =>
    rcases List.mem_cons.mp h with rfl | later
    · exact ⟨c, text, first⟩
    · exact ih later

theorem Symbol.isUpper_of_sign? {text spelling : List Char} {v : Char}
    (h : sign? text = some (spelling, .var v)) : v.isUpper = true := by
  have none : ∀ sign ∈ signs, ∀ v, sign.2 ≠ .var v := by simp [signs]
  exact absurd rfl (none _ (List.mem_of_find?_eq_some h) v)

theorem Symbol.isUpper_of_ofWord? {word : List Char} {v : Char}
    (h : ofWord? word = some (.var v)) : v.isUpper = true := by
  have none : ∀ keyword ∈ keywords, ∀ v, keyword.2 ≠ .var v := by simp [keywords]
  unfold ofWord? at h
  split at h
  next s found =>
    obtain rfl : s = .var v := by simpa using h
    obtain ⟨before, behind, split, -⟩ := List.lookup_eq_some_iff.mp found
    exact absurd rfl (none _ (split ▸ List.mem_append_right _ List.mem_cons_self) v)
  next =>
    split at h
    next c _ =>
      split at h
      next upper =>
        obtain rfl : c = v := by simpa using h
        exact upper
      · simp at h
    · simp at h

theorem LexemeKind.isUpper_of_first {c : Char} {text spelling : List Char} {v : Char}
    (h : first c text = (.symbol (.var v), spelling)) : v.isUpper = true := by
  unfold first at h
  split at h
  · simp at h
  split at h
  next found =>
    simp only [Prod.mk.injEq, LexemeKind.symbol.injEq] at h
    rw [h.1] at found
    exact Symbol.isUpper_of_sign? found
  split at h
  · simp only [ofWord, Prod.mk.injEq] at h
    obtain ⟨h, -⟩ := h
    split at h
    next s found =>
      obtain rfl : s = .var v := by simpa using h
      exact Symbol.isUpper_of_ofWord? found
    · simp at h
  · simp at h

namespace Token

variable {text : List Char} {tokens : List Token} {t : Token}

def lexeme (t : Token) : Lexeme := ⟨.symbol t.symbol, t.spelling, t.position⟩

theorem lexeme_mem_of_ofText (h : ofText text = .ok tokens) (mem : t ∈ tokens) :
    t.lexeme ∈ Lexeme.ofText text := by
  unfold ofText ofLexemes at h
  split at h
  · simp at h
  obtain rfl := Except.ok.inj h
  obtain ⟨l, hl, eq⟩ := List.mem_filterMap.mp mem
  unfold Lexeme.token? at eq
  split at eq
  next s kind =>
    obtain rfl := Option.some.inj eq
    rwa [lexeme, ← kind]
  all_goals simp at eq

theorem isUpper_of_ofText {v : Char} (h : ofText text = .ok tokens) (mem : t ∈ tokens)
    (ht : t.symbol = .var v) : v.isUpper = true := by
  obtain ⟨c, rest, first⟩ := Lexeme.exists_first_of_mem_scan (lexeme_mem_of_ofText h mem)
  rw [lexeme, ht] at first
  exact LexemeKind.isUpper_of_first first

end Token

end Sentential
