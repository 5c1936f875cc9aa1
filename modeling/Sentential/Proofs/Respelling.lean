import Mathlib.Data.List.Forall2
import Sentential.Respelling
import Sentential.Proofs.Relabelling

/-!
# Respelling keeps the meaning

Any text, formula or not, is cut into the same kinds of lexemes once its operators and constants are
exchanged for words or for glyphs. Words keep their distance from what they could run into, glyphs
need none, and the characters that a sign could be made of stand together only where they did
before. As only kinds are read, the text then reads as it did.
-/

namespace Sentential

theorem Text.not_isWordChar_glyph {s : Symbol} (h : ∀ v, s ≠ .var v) :
    isWordChar s.glyph = false :=
  Symbol.not_isWordChar_of_mem_signs (Symbol.glyph_mem_signs h)

theorem Operator.word_eq_cons (o : Operator) : ∃ c run, o.word = c :: run ∧
    Text.isBlank c = false ∧ (∀ d ∈ c :: run, Text.isWordChar d = true) ∧
      LexemeKind.ofWord (c :: run) = .symbol (.op o) := by
  cases o with
  | not =>
    exact ⟨_, _, rfl, by decide +kernel, List.all_eq_true.mp (by decide +kernel), by decide⟩
  | binary c =>
    cases c <;>
      exact ⟨_, _, rfl, by decide +kernel, List.all_eq_true.mp (by decide +kernel), by decide⟩

theorem Symbol.spelling_of_mem_signs {spelling : List Char} {s : Symbol} (h : (spelling, s) ∈ signs)
    (operator : ∀ o, LexemeKind.symbol s ≠ .symbol (.op o))
    (const : ∀ b, LexemeKind.symbol s ≠ .symbol (.const b)) :
    (∀ v, s ≠ .var v) ∧ spelling = [s.glyph] := by
  cases s with
  | op o => exact absurd rfl (operator o)
  | const b => exact absurd rfl (const b)
  | var v => simp [signs] at h
  | opening => simpa [signs, glyph] using h
  | closing => simpa [signs, glyph] using h

-- ---------------------------------------------------------------------------
-- One lexeme
-- ---------------------------------------------------------------------------

inductive Respells : LexemeKind → List Char → List Char → Prop
  | word (o : Operator) (spelling : List Char) : Respells (.symbol (.op o)) spelling o.word
  | glyph (o : Operator) (spelling : List Char) : Respells (.symbol (.op o)) spelling [o.glyph]
  | const (b : Bool) (spelling : List Char) :
      Respells (.symbol (.const b)) spelling [Symbol.constGlyph b]
  | kept {kind : LexemeKind} {spelling : List Char} : (∀ o, kind ≠ .symbol (.op o)) →
      (∀ b, kind ≠ .symbol (.const b)) → Respells kind spelling spelling

theorem Lexeme.respells_inWords (l : Lexeme) : Respells l.kind l.spelling l.inWords := by
  obtain ⟨kind, spelling, position⟩ := l
  cases kind with
  | symbol s =>
    cases s with
    | op o => exact .word o spelling
    | const b => exact .const b spelling
    | _ => exact .kept (by simp) (by simp)
  | _ => exact .kept (by simp) (by simp)

theorem Lexeme.respells_inGlyphs (l : Lexeme) : Respells l.kind l.spelling l.inGlyphs := by
  obtain ⟨kind, spelling, position⟩ := l
  cases kind with
  | symbol s =>
    cases s with
    | op o => exact .glyph o spelling
    | const b => exact .const b spelling
    | _ => exact .kept (by simp) (by simp)
  | _ => exact .kept (by simp) (by simp)

/-- Beginnings of the text that are made of the characters of longer signs also begin the other. -/
def MarksFrom (text other : List Char) : Prop :=
  ∀ s : List Char, (∀ d ∈ s, d ∈ ['-', '=', '>']) → s <+: text → s <+: other

theorem MarksFrom.sign?_eq_none {c : Char} {text other : List Char} (h : MarksFrom text other)
    (unsigned : Symbol.sign? (c :: other) = none) : Symbol.sign? (c :: text) = none := by
  have tails : ∀ sign ∈ Symbol.signs, sign.1.tail.all ['-', '=', '>'].contains = true := by decide
  refine List.find?_eq_none.mpr fun sign mem begins => ?_
  refine List.find?_eq_none.mp unsigned sign mem ?_
  have marks : ∀ d ∈ sign.1.tail, d ∈ ['-', '=', '>'] := fun d inside =>
    List.contains_iff_mem.mp (List.all_eq_true.mp (tails sign mem) d inside)
  obtain ⟨spelling, s⟩ := sign
  cases spelling with
  | nil => simp
  | cons d spelling =>
    rw [List.isPrefixOf_iff_prefix, List.cons_prefix_cons] at begins ⊢
    exact ⟨begins.1, h spelling marks begins.2⟩

theorem Text.any_isWordChar_of_blank {found : Option Char}
    (h : ∀ c, found = some c → isBlank c = true) : found.any isWordChar = false := by
  cases found with
  | none => rfl
  | some c => exact not_isWordChar_of_isBlank (h c rfl)

namespace Respells

variable {kind : LexemeKind} {spelling new rest out : List Char} {c : Char}

theorem ne_nil (h : Respells kind spelling new) (opens : kind.Opens spelling rest) : new ≠ [] := by
  cases h with
  | word o =>
    obtain ⟨c, run, eq, -⟩ := o.word_eq_cons
    simp [eq]
  | glyph | const => simp
  | kept operator const =>
    cases opens with
    | blank filled => exact filled
    | sign mem =>
      obtain ⟨-, rfl⟩ := Symbol.spelling_of_mem_signs mem operator const
      simp
    | word | other => simp

theorem solid (h : Respells kind spelling new) (opens : kind.Opens spelling rest)
    (unblank : kind ≠ .blank) : Text.Solid (new ++ out) := by
  refine Text.Solid.append ?_ (h.ne_nil opens) out
  cases h with
  | word o =>
    obtain ⟨c, run, eq, solid, -⟩ := o.word_eq_cons
    exact eq ▸ Text.solid_cons.mpr solid
  | glyph o =>
    exact Text.solid_cons.mpr
      (Symbol.isBlank_of_mem_signs (Symbol.glyph_mem_signs (s := .op o) (by simp)))
  | const b =>
    exact Text.solid_cons.mpr
      (Symbol.isBlank_of_mem_signs (Symbol.glyph_mem_signs (s := .const b) (by simp)))
  | kept => exact opens.solid unblank

theorem opens (h : Respells kind spelling new) (opens : kind.Opens spelling rest)
    (parted : kind = .blank → Text.Solid out)
    (severed : kind ≠ .blank → ∀ c, new.getLast? = some c → Text.isWordChar c = true →
      Text.Severed out)
    (marks : kind = .other → MarksFrom out rest) : kind.Opens new out := by
  have ends {c : Char} {run : List Char} (word : ∀ d ∈ c :: run, Text.isWordChar d = true)
      (severed : ∀ d, (c :: run).getLast? = some d → Text.isWordChar d = true → Text.Severed out) :
      Text.Severed out :=
    severed _ (List.getLast?_eq_some_getLast (List.cons_ne_nil c run))
      (word _ (List.getLast_mem _))
  cases h with
  | word o =>
    obtain ⟨c, run, eq, solid, word, spells⟩ := o.word_eq_cons
    rw [eq] at severed ⊢
    rw [← spells]
    exact .word solid word (ends word (severed (by simp)))
  | glyph o => exact .sign (Symbol.glyph_mem_signs (s := .op o) (by simp))
  | const b => exact .sign (Symbol.glyph_mem_signs (s := .const b) (by simp))
  | kept operator const =>
    cases opens with
    | blank filled blanks => exact .blank filled blanks (parted rfl)
    | sign mem => exact .sign mem
    | word solid word =>
      exact .word solid word (ends word (severed (LexemeKind.ofWord_ne _).1))
    | other solid plain unsigned =>
      exact .other solid plain ((marks rfl).sign?_eq_none unsigned)

/-- Where the new spelling ends a word, the old one was a word, so no word goes on behind it. -/
theorem severed_rest (h : Respells kind spelling new) (opens : kind.Opens spelling rest)
    (unblank : kind ≠ .blank) (operator : ∀ o, kind ≠ .symbol (.op o))
    (last : new.getLast? = some c) (wordChar : Text.isWordChar c = true) : Text.Severed rest := by
  have noGlyph {s : Symbol} (letterless : ∀ v, s ≠ .var v) (new : [s.glyph].getLast? = some c) :
      Text.Severed rest := by
    obtain rfl : s.glyph = c := by simpa using new
    simp [Text.not_isWordChar_glyph letterless] at wordChar
  cases h with
  | word o | glyph o => exact absurd rfl (operator o)
  | const b => exact noGlyph (s := .const b) (by simp) last
  | kept noOperator const =>
    cases opens with
    | blank => exact absurd rfl unblank
    | sign mem =>
      obtain ⟨letterless, rfl⟩ := Symbol.spelling_of_mem_signs mem noOperator const
      exact noGlyph letterless last
    | word solid word severed => exact severed
    | other solid plain =>
      obtain rfl := Option.some.inj last
      simp [plain] at wordChar

/-- A new spelling that is no word goes on a word only where the old one did. -/
theorem severed (h : Respells kind spelling new) (opens : kind.Opens spelling rest)
    (glyphs : ∀ o, kind = .symbol (.op o) → new = [o.glyph])
    (severed : Text.Severed (spelling ++ rest)) : Text.Severed (new ++ out) := by
  have glyph {s : Symbol} (letterless : ∀ v, s ≠ .var v) : Text.Severed ([s.glyph] ++ out) :=
    Text.severed_cons.mpr (Text.not_isWordChar_glyph letterless)
  have filled := h.ne_nil opens
  cases h with
  | word o =>
    rw [glyphs o rfl]
    exact glyph (s := .op o) (by simp)
  | glyph o => exact glyph (s := .op o) (by simp)
  | const b => exact glyph (s := .const b) (by simp)
  | kept =>
    obtain ⟨d, tail, rfl⟩ := List.exists_cons_of_ne_nil filled
    exact severed

theorem other_of_mark {d : Char} {tail : List Char} (h : Respells kind spelling (d :: tail))
    (opens : kind.Opens spelling rest) (mark : d ∈ ['-', '=', '>']) :
    kind = .other ∧ spelling = [d] ∧ tail = [] := by
  obtain ⟨solid, plain, unsigned⟩ : Text.isBlank d = false ∧ Text.isWordChar d = false ∧
      ∀ sign ∈ Symbol.signs, sign.1 ≠ [d] := by
    simp only [List.mem_cons, List.not_mem_nil, or_false] at mark
    rcases mark with rfl | rfl | rfl <;> decide +kernel
  generalize eq : d :: tail = new at h
  cases h with
  | word o =>
    obtain ⟨c, run, word, -, wordChars, -⟩ := o.word_eq_cons
    obtain ⟨rfl, -⟩ := List.cons.inj (eq.trans word)
    simp [plain] at wordChars
  | glyph o =>
    obtain ⟨rfl, -⟩ := List.cons.inj eq
    exact absurd rfl (unsigned _ (Symbol.glyph_mem_signs (s := .op o) (by simp)))
  | const b =>
    obtain ⟨rfl, -⟩ := List.cons.inj eq
    exact absurd rfl (unsigned _ (Symbol.glyph_mem_signs (s := .const b) (by simp)))
  | kept operator const =>
    subst eq
    cases opens with
    | blank _ blanks => simp [solid] at blanks
    | sign mem =>
      obtain ⟨-, same⟩ := Symbol.spelling_of_mem_signs mem operator const
      obtain ⟨rfl, rfl⟩ := List.cons.inj same
      exact absurd rfl (unsigned _ mem)
    | word _ wordChars => simp [plain] at wordChars
    | other => exact ⟨rfl, rfl, rfl⟩

theorem marksFrom (h : Respells kind spelling new) (opens : kind.Opens spelling rest)
    (behind : kind = .other → MarksFrom out rest) : MarksFrom (new ++ out) (spelling ++ rest) := by
  obtain ⟨d, tail, rfl⟩ := List.exists_cons_of_ne_nil (h.ne_nil opens)
  intro s marks begins
  cases s with
  | nil => exact List.nil_prefix
  | cons e s =>
    obtain ⟨mark, marks⟩ := List.forall_mem_cons.mp marks
    rw [List.cons_append, List.cons_prefix_cons] at begins
    obtain ⟨rfl, begins⟩ := begins
    obtain ⟨other, rfl, rfl⟩ := h.other_of_mark opens mark
    exact List.cons_prefix_cons.mpr ⟨rfl, behind other s marks begins⟩

end Respells

-- ---------------------------------------------------------------------------
-- Lexemes in another spelling
-- ---------------------------------------------------------------------------

namespace Lexeme

def respelled (respell : Lexeme → List Char) (l : Lexeme) : Lexeme :=
  { l with spelling := respell l }

variable {l next : Lexeme} {rest : List Char}

theorem needsBlank_of_blank_left (opens : l.kind.Opens l.spelling rest) (blank : l.kind = .blank)
    (next : Lexeme) : l.needsBlank next = false := by
  have same : l.inWords = l.spelling := by simp [inWords, blank]
  have last : l.spelling.getLast?.any Text.isWordChar = false :=
    Text.any_isWordChar_of_blank fun c mem => (opens.isBlank blank).1 c (List.mem_of_getLast? mem)
  simp [needsBlank, isOperator, blank, same, last]

theorem needsBlank_of_blank_right (opens : next.kind.Opens next.spelling rest)
    (blank : next.kind = .blank) (l : Lexeme) : l.needsBlank next = false := by
  have first : next.spelling.head?.any Text.isWordChar = false :=
    Text.any_isWordChar_of_blank fun c mem => (opens.isBlank blank).1 c (List.mem_of_mem_head? mem)
  simp [needsBlank, isOperator, blank, first]

theorem pieces_of_filter {respell : Lexeme → List Char} {lexemes others : List Lexeme}
    (h : others.filter (!·.isBlank) = (lexemes.map (respelled respell)).filter (!·.isBlank)) :
    pieces spelling others = pieces respell lexemes := by
  rw [pieces, h, List.filter_map, List.map_map]
  rfl

end Lexeme

-- ---------------------------------------------------------------------------
-- Words
-- ---------------------------------------------------------------------------

open Lexeme (Scanned pieces)

namespace Respelling

variable {text rest : List Char} {lexemes : List Lexeme} {l : Lexeme} {c : Char}

def wordLexemesAfter (l : Lexeme) : List Lexeme → List Lexeme
  | [] => []
  | next :: lexemes =>
    (if l.needsBlank next then [.gap] else []) ++
      (next.respelled Lexeme.inWords :: wordLexemesAfter next lexemes)

/-- What a text with these lexemes is cut into once it is respelled in words. -/
def wordLexemes : List Lexeme → List Lexeme
  | [] => []
  | l :: lexemes => l.respelled Lexeme.inWords :: wordLexemesAfter l lexemes

theorem filter_wordLexemesAfter (l : Lexeme) (lexemes : List Lexeme) :
    (wordLexemesAfter l lexemes).filter (!·.isBlank) =
      (lexemes.map (Lexeme.respelled Lexeme.inWords)).filter (!·.isBlank) := by
  induction lexemes generalizing l with
  | nil => rfl
  | cons next lexemes ih =>
    have none : (if l.needsBlank next then [Lexeme.gap] else []).filter (!·.isBlank) = [] := by
      split <;> rfl
    rw [wordLexemesAfter, List.filter_append, none, List.nil_append, List.filter_cons, ih,
      List.map_cons, List.filter_cons]

theorem filter_wordLexemes (lexemes : List Lexeme) :
    (wordLexemes lexemes).filter (!·.isBlank) =
      (lexemes.map (Lexeme.respelled Lexeme.inWords)).filter (!·.isBlank) := by
  cases lexemes with
  | nil => rfl
  | cons l lexemes =>
    rw [wordLexemes, List.filter_cons, filter_wordLexemesAfter, List.map_cons, List.filter_cons]

theorem wordsAfter_other (opens : l.kind.Opens l.spelling rest) (h : l.kind = .other)
    (lexemes : List Lexeme) : wordsAfter l lexemes = words lexemes := by
  obtain ⟨c, spelled, plain⟩ := opens.plain h
  cases lexemes with
  | nil => rfl
  | cons next lexemes =>
    simp [wordsAfter, words, Lexeme.needsBlank, Lexeme.isOperator, Lexeme.inWords, h, spelled,
      plain]

theorem marksFrom_words (h : Scanned text lexemes) : MarksFrom (words lexemes) text := by
  induction h with
  | nil => exact fun s _ begins => begins
  | @cons l rest lexemes opens scanned ih =>
    refine l.respells_inWords.marksFrom opens fun other => ?_
    rw [wordsAfter_other opens other]
    exact ih

theorem severed_wordsAfter (opens : l.kind.Opens l.spelling rest) (scanned : Scanned rest lexemes)
    (unblank : l.kind ≠ .blank) (last : l.inWords.getLast? = some c)
    (wordChar : Text.isWordChar c = true) : Text.Severed (wordsAfter l lexemes) := by
  cases scanned with
  | nil => exact Text.severed_nil
  | @cons next rest lexemes opensNext scanned =>
    rw [wordsAfter]
    split
    next => exact Text.severed_cons.mpr (by decide +kernel)
    next close =>
      simp only [Lexeme.needsBlank, last, Option.any_some, wordChar, Bool.and_true, Bool.or_eq_true,
        not_or, Bool.and_eq_true, not_and, Bool.not_eq_true] at close
      -- Without a blank `next` is no operator, and it goes on no word where `l` is one.
      obtain ⟨afterOperator, noOperator⟩ := close
      refine next.respells_inWords.severed opensNext (fun o operator => ?_) ?_
      · simp [Lexeme.isOperator, operator] at noOperator
      by_cases operator : l.isOperator = true
      · obtain ⟨d, tail, spelled⟩ := List.exists_cons_of_ne_nil opensNext.ne_nil
        have plain := afterOperator operator
        rw [spelled] at plain ⊢
        exact Text.severed_cons.mpr plain
      · refine l.respells_inWords.severed_rest opens unblank (fun o kind => ?_) last wordChar
        simp [Lexeme.isOperator, kind] at operator

theorem solid_wordsAfter (opens : l.kind.Opens l.spelling rest) (scanned : Scanned rest lexemes)
    (blank : l.kind = .blank) : Text.Solid (wordsAfter l lexemes) := by
  cases scanned with
  | nil => exact Text.solid_nil
  | @cons next rest lexemes opensNext scanned =>
    rw [wordsAfter, Lexeme.needsBlank_of_blank_left opens blank, if_neg Bool.false_ne_true]
    exact next.respells_inWords.solid opensNext (opensNext.unblank (opens.isBlank blank).2)

theorem scanned_words (h : Scanned text lexemes) :
    Scanned (words lexemes) (wordLexemes lexemes) := by
  induction h with
  | nil => exact .nil
  | @cons l rest lexemes opens scanned ih =>
    have behind : Scanned (wordsAfter l lexemes) (wordLexemesAfter l lexemes) := by
      cases scanned with
      | nil => exact .nil
      | @cons next rest lexemes opensNext scanned =>
        rw [wordsAfter, wordLexemesAfter]
        split
        next padded =>
          have unblank : next.kind ≠ .blank := fun blank => by
            simp [Lexeme.needsBlank_of_blank_right opensNext blank] at padded
          exact .cons (Lexeme.opens_gap (next.respells_inWords.solid opensNext unblank)) ih
        next => exact ih
    refine .cons (l := l.respelled Lexeme.inWords) ?_ behind
    refine l.respells_inWords.opens opens (solid_wordsAfter opens scanned) ?_ ?_
    · exact fun unblank c => severed_wordsAfter opens scanned unblank
    · intro other
      rw [wordsAfter_other opens other]
      exact marksFrom_words scanned

theorem cuts_words (h : Scanned text lexemes) :
    Cuts (words lexemes) (pieces Lexeme.inWords lexemes) := by
  rw [← Lexeme.pieces_of_filter (filter_wordLexemes lexemes)]
  exact (scanned_words h).cuts

-- ---------------------------------------------------------------------------
-- Glyphs
-- ---------------------------------------------------------------------------

theorem isNegation_eq_false (h : ∀ o, l.kind ≠ .symbol (.op o)) : l.isNegation = false := by
  simp [Lexeme.isNegation, h]

theorem marksFrom_glyphs (h : Scanned text lexemes) : MarksFrom (glyphs false lexemes) text := by
  induction h with
  | nil => exact fun s _ begins => begins
  | @cons l rest lexemes opens scanned ih =>
    refine l.respells_inGlyphs.marksFrom opens fun other => ?_
    rw [isNegation_eq_false (by simp [other])]
    exact ih

theorem severed_glyphs (scanned : Scanned rest lexemes) (severed : Text.Severed rest) :
    Text.Severed (glyphs false lexemes) := by
  cases scanned with
  | nil => exact Text.severed_nil
  | @cons next rest lexemes opens scanned =>
    refine next.respells_inGlyphs.severed opens (fun o operator => ?_) severed
    simp [Lexeme.inGlyphs, operator]

def glyphLexemes (dropBlank : Bool) : List Lexeme → List Lexeme
  | [] => []
  | l :: lexemes =>
    if dropBlank && l.isBlank then glyphLexemes true lexemes
    else l.respelled Lexeme.inGlyphs :: glyphLexemes l.isNegation lexemes

theorem filter_glyphLexemes (dropBlank : Bool) (lexemes : List Lexeme) :
    (glyphLexemes dropBlank lexemes).filter (!·.isBlank) =
      (lexemes.map (Lexeme.respelled Lexeme.inGlyphs)).filter (!·.isBlank) := by
  induction lexemes generalizing dropBlank with
  | nil => rfl
  | cons l lexemes ih =>
    rw [glyphLexemes, List.map_cons, List.filter_cons]
    split
    next dropped =>
      have blank : (l.respelled Lexeme.inGlyphs).isBlank = true :=
        (Bool.and_eq_true_iff.mp dropped).2
      rw [ih, blank]
      rfl
    next => rw [List.filter_cons, ih]

theorem solid_glyphs (opens : l.kind.Opens l.spelling rest) (scanned : Scanned rest lexemes)
    (blank : l.kind = .blank) : Text.Solid (glyphs false lexemes) := by
  cases scanned with
  | nil => exact Text.solid_nil
  | @cons next rest lexemes opensNext scanned =>
    exact next.respells_inGlyphs.solid opensNext (opensNext.unblank (opens.isBlank blank).2)

theorem severed_glyphs_isNegation (opens : l.kind.Opens l.spelling rest)
    (scanned : Scanned rest lexemes) (unblank : l.kind ≠ .blank)
    (last : l.inGlyphs.getLast? = some c) (wordChar : Text.isWordChar c = true) :
    Text.Severed (glyphs l.isNegation lexemes) := by
  have operator : ∀ o, l.kind ≠ .symbol (.op o) := by
    intro o operator
    obtain rfl : o.glyph = c := by simpa [Lexeme.inGlyphs, operator] using last
    have := Text.not_isWordChar_glyph (s := .op o) (by simp)
    simp [Symbol.glyph, wordChar] at this
  rw [isNegation_eq_false operator]
  exact severed_glyphs scanned
    (l.respells_inGlyphs.severed_rest opens unblank operator last wordChar)

theorem scanned_glyphs (h : Scanned text lexemes) (dropBlank : Bool) :
    Scanned (glyphs dropBlank lexemes) (glyphLexemes dropBlank lexemes) := by
  induction h generalizing dropBlank with
  | nil => exact .nil
  | @cons l rest lexemes opens scanned ih =>
    rw [glyphs, glyphLexemes]
    split
    next => exact ih true
    next =>
      refine .cons (l := l.respelled Lexeme.inGlyphs) ?_ (ih l.isNegation)
      refine l.respells_inGlyphs.opens opens ?_ ?_ ?_
      · intro blank
        rw [isNegation_eq_false (by simp [blank])]
        exact solid_glyphs opens scanned blank
      · exact fun unblank c => severed_glyphs_isNegation opens scanned unblank
      · intro other
        rw [isNegation_eq_false (by simp [other])]
        exact marksFrom_glyphs scanned

theorem cuts_glyphs (h : Scanned text lexemes) (dropBlank : Bool) :
    Cuts (glyphs dropBlank lexemes) (pieces Lexeme.inGlyphs lexemes) := by
  rw [← Lexeme.pieces_of_filter (filter_glyphLexemes dropBlank lexemes)]
  exact (scanned_glyphs h dropBlank).cuts

end Respelling

-- ---------------------------------------------------------------------------
-- Texts
-- ---------------------------------------------------------------------------

/-- The other lexeme is of the same kind, and is spelled alike unless it is an operator or a
constant. -/
structure Lexeme.Matches (l other : Lexeme) : Prop where
  kind : other.kind = l.kind
  spelling : (∀ o, l.kind ≠ .symbol (.op o)) → (∀ b, l.kind ≠ .symbol (.const b)) →
    other.spelling = l.spelling

theorem Respells.eq_of_kept {kind : LexemeKind} {spelling new : List Char}
    (h : Respells kind spelling new) (operator : ∀ o, kind ≠ .symbol (.op o))
    (const : ∀ b, kind ≠ .symbol (.const b)) : new = spelling := by
  cases h with
  | word o | glyph o => exact absurd rfl (operator o)
  | const b => exact absurd rfl (const b)
  | kept => rfl

theorem Lexeme.forall₂_matches {respell : Lexeme → List Char} {lexemes others : List Lexeme}
    (respells : ∀ l, Respells l.kind l.spelling (respell l))
    (h : others.map (fun l => (l.kind, l.spelling)) = lexemes.map fun l => (l.kind, respell l)) :
    List.Forall₂ Matches lexemes others := by
  induction lexemes generalizing others with
  | nil =>
    obtain rfl : others = [] := List.map_eq_nil_iff.mp h
    exact .nil
  | cons l lexemes ih =>
    obtain ⟨other, others, rfl, same, rest⟩ := List.map_eq_cons_iff.mp h
    obtain ⟨kind, spelling⟩ := Prod.mk.inj same
    refine .cons ⟨kind, fun operator const => ?_⟩ (ih rest)
    rw [spelling, (respells l).eq_of_kept operator const]

theorem Lexeme.map_kind_eq {lexemes others : List Lexeme}
    (h : List.Forall₂ Matches lexemes others) : others.map kind = lexemes.map kind := by
  induction h with
  | nil => rfl
  | cons same _ ih => rw [List.map_cons, List.map_cons, same.kind, ih]

structure Parsed.Alike (parsed other : Parsed) : Prop where
  root : other.root = parsed.root
  groups : other.groups = parsed.groups
  symbols : other.tokens.map Token.symbol = parsed.tokens.map Token.symbol

/-- Respelled in words or in glyphs, any text has the lexemes that it had, but for the spelling of
operators and constants. So the three texts read alike, or none can be read and the error is the
same one, about the same lexeme if it is about one. -/
theorem respelling_reads_alike (text : List Char) :
    let words := respellInWords text
    let glyphs := respellInGlyphs text
    (List.Forall₂ Lexeme.Matches (Lexeme.solid text) (Lexeme.solid words) ∧
      List.Forall₂ Lexeme.Matches (Lexeme.solid text) (Lexeme.solid glyphs)) ∧
    ((∃ p q r, Parsed.ofText text = .ok p ∧ Parsed.ofText words = .ok q ∧
        Parsed.ofText glyphs = .ok r ∧ p.Alike q ∧ p.Alike r) ∨
      (Parsed.ofText text = .error .emptyFormula ∧ Parsed.ofText words = .error .emptyFormula ∧
        Parsed.ofText glyphs = .error .emptyFormula) ∨
      ∃ (e : SyntaxError) (k : Nat) (l m n : Lexeme), e ≠ .emptyFormula ∧
        (Lexeme.solid text)[k]? = some l ∧ Parsed.ofText text = .error (e.blame l) ∧
        (Lexeme.solid words)[k]? = some m ∧ Parsed.ofText words = .error (e.blame m) ∧
        (Lexeme.solid glyphs)[k]? = some n ∧ Parsed.ofText glyphs = .error (e.blame n)) := by
  intro words glyphs
  have scanned := Lexeme.scanned_scan 1 text
  have inWords : List.Forall₂ Lexeme.Matches (Lexeme.solid text) (Lexeme.solid words) :=
    Lexeme.forall₂_matches Lexeme.respells_inWords (Respelling.cuts_words scanned 1)
  have inGlyphs : List.Forall₂ Lexeme.Matches (Lexeme.solid text) (Lexeme.solid glyphs) :=
    Lexeme.forall₂_matches Lexeme.respells_inGlyphs (Respelling.cuts_glyphs scanned false 1)
  refine ⟨⟨inWords, inGlyphs⟩, ?_⟩
  have sameInWords := Lexeme.map_kind_eq inWords
  have sameInGlyphs := Lexeme.map_kind_eq inGlyphs
  rcases Parsed.ofText_of_kinds ((Lexeme.solid text).map Lexeme.kind) with
    ⟨root, symbols, groups, reads⟩ | empty | ⟨e, k, positioned, refused⟩
  · obtain ⟨p, hp, rfl, rfl, rfl⟩ := reads text rfl
    obtain ⟨q, hq, rootq, symbolsq, groupsq⟩ := reads words sameInWords
    obtain ⟨r, hr, rootr, symbolsr, groupsr⟩ := reads glyphs sameInGlyphs
    exact .inl ⟨p, q, r, hp, hq, hr, ⟨rootq, groupsq, symbolsq⟩, ⟨rootr, groupsr, symbolsr⟩⟩
  · exact .inr (.inl ⟨empty text rfl, empty words sameInWords, empty glyphs sameInGlyphs⟩)
  · obtain ⟨l, hl, own⟩ := refused text rfl
    obtain ⟨m, hm, ofWords⟩ := refused words sameInWords
    obtain ⟨n, hn, ofGlyphs⟩ := refused glyphs sameInGlyphs
    exact .inr (.inr ⟨e, k, l, m, n, positioned, hl, own, hm, ofWords, hn, ofGlyphs⟩)

end Sentential
