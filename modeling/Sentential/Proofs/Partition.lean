import Mathlib.Data.List.Chain
import Sentential.Proofs.Cutting

/-!
# A text is parted into lexemes

`Lexeme.ofText_partitions`: the lexemes of any text make up the text, each where it says that it
stands. A run of blanks and a word go as far as they can, and where a sign begins, no longer one is
cut off than that lexeme. What a lexeme is depends on its own spelling only: the text behind it
tells how far it goes, but once it is cut off, it is the one lexeme of its spelling.
-/

namespace Sentential

-- ---------------------------------------------------------------------------
-- The lexeme and what stands behind it
-- ---------------------------------------------------------------------------

namespace LexemeKind

variable {kind kind' : LexemeKind} {spelling next rest behind : List Char}

theorem Opens.severed_of_word (h : Opens kind spelling rest)
    (word : ∀ c ∈ spelling, Text.isWordChar c = true) : Text.Severed rest := by
  obtain ⟨c, run, rfl⟩ := List.exists_cons_of_ne_nil h.ne_nil
  have wordChar := word c List.mem_cons_self
  cases h with
  | blank _ blanks =>
    simp [Text.not_isWordChar_of_isBlank (blanks c List.mem_cons_self)] at wordChar
  | sign mem => simp [Symbol.not_isWordChar_of_mem_signs mem] at wordChar
  | word _ _ severed => exact severed
  | other _ plain => simp [plain] at wordChar

theorem Opens.alone (h : Opens kind spelling rest) : Opens kind spelling [] := by
  cases h with
  | blank filled blanks => exact .blank filled blanks Text.solid_nil
  | sign mem => exact .sign mem
  | word solid word => exact .word solid word Text.severed_nil
  | other solid plain unsigned =>
    exact .other solid plain (Symbol.sign?_eq_none_of_prefix (List.prefix_append [_] rest) unsigned)

theorem Opens.unique (h : Opens kind spelling rest) (h' : Opens kind' next behind)
    (same : spelling ++ rest = next ++ behind) : kind = kind' ∧ spelling = next := by
  obtain ⟨c, run, rfl⟩ := List.exists_cons_of_ne_nil h.ne_nil
  obtain ⟨d, run', rfl⟩ := List.exists_cons_of_ne_nil h'.ne_nil
  obtain ⟨rfl, tails⟩ : c = d ∧ run ++ rest = run' ++ behind := List.cons.inj same
  have first := first_of_opens h
  rw [tails, first_of_opens h'] at first
  obtain ⟨rfl, spelled⟩ := Prod.mk.inj first
  exact ⟨rfl, spelled.symm⟩

end LexemeKind

-- ---------------------------------------------------------------------------
-- The lexemes of a text
-- ---------------------------------------------------------------------------

namespace Lexeme

/-- Neighbours are no two halves of one run of blanks or of one word. -/
structure Apart (l r : Lexeme) : Prop where
  blank : ¬ (l.kind = .blank ∧ r.kind = .blank)
  word : ¬ ((∀ c ∈ l.spelling, Text.isWordChar c = true) ∧
    ∀ c ∈ r.spelling, Text.isWordChar c = true)

/-- The lexeme is the longest sign that the text begins with. -/
structure LongestSign (l : Lexeme) (text : List Char) : Prop where
  sign : ∃ s, (l.spelling, s) ∈ Symbol.signs ∧ l.kind = .symbol s
  begins : l.spelling <+: text
  longest : ∀ sign ∈ Symbol.signs, sign.1 <+: text → sign.1.length ≤ l.spelling.length

structure Partitions (text : List Char) (lexemes : List Lexeme) : Prop where
  whole : lexemes.flatMap spelling = text
  filled : ∀ l ∈ lexemes, l.spelling ≠ []
  placed : ∀ before l behind, lexemes = before ++ l :: behind →
    l.position = 1 + (before.flatMap spelling).length
  apart : lexemes.IsChain Apart
  signs : ∀ before behind, lexemes = before ++ behind →
    ∀ sign ∈ Symbol.signs, sign.1 <+: behind.flatMap spelling →
      ∃ l rest, behind = l :: rest ∧ l.LongestSign (behind.flatMap spelling)
  alone : ∀ l ∈ lexemes, ofText l.spelling = [{ l with position := 1 }]

variable {l r : Lexeme} {text rest behind : List Char} {before lexemes : List Lexeme}

theorem apart_of_opens (left : l.kind.Opens l.spelling (r.spelling ++ rest))
    (right : r.kind.Opens r.spelling rest) : Apart l r where
  blank := by
    rintro ⟨blank, blank'⟩
    exact right.unblank (left.isBlank blank).2 blank'
  word := by
    rintro ⟨word, word'⟩
    obtain ⟨c, run, spelled⟩ := List.exists_cons_of_ne_nil right.ne_nil
    have severed := left.severed_of_word word
    rw [spelled] at severed word'
    simp [Text.severed_cons.mp severed] at word'

theorem Scanned.isChain_apart (h : Scanned text lexemes) : lexemes.IsChain Apart := by
  induction h with
  | nil => exact .nil
  | cons opens scanned ih =>
    cases scanned with
    | nil => exact .singleton _
    | cons opens' => exact ih.cons_cons (apart_of_opens opens opens')

theorem Scanned.of_append (h : Scanned text (before ++ lexemes)) :
    Scanned (lexemes.flatMap spelling) lexemes := by
  induction before generalizing text with
  | nil => exact h.flatMap_spelling ▸ h
  | cons l before ih =>
    cases h with
    | cons _ scanned => exact ih scanned

/-- No sign begins another one, so a text that begins with one begins with no longer one. -/
theorem Scanned.exists_longestSign (h : Scanned text lexemes) {sign : List Char × Symbol}
    (mem : sign ∈ Symbol.signs) (begins : sign.1 <+: text) :
    ∃ l rest, lexemes = l :: rest ∧ l.LongestSign text := by
  cases h with
  | nil => exact absurd (List.prefix_nil.mp begins) (Symbol.ne_nil_of_mem_signs mem)
  | @cons l rest others opens scanned =>
    have only (sign : List Char × Symbol) (mem : sign ∈ Symbol.signs)
        (begins : sign.1 <+: l.spelling ++ rest) :
        l.kind = .symbol sign.2 ∧ l.spelling = sign.1 := by
      obtain ⟨behind, split⟩ := begins
      exact opens.unique (.sign mem) split.symm
    obtain ⟨kind, spelled⟩ := only sign mem begins
    refine ⟨l, others, rfl, ⟨sign.2, spelled ▸ mem, kind⟩, List.prefix_append _ _, ?_⟩
    intro sign mem begins
    exact Nat.le_of_eq (congrArg List.length (only sign mem begins).2.symm)

theorem ofText_of_opens (h : l.kind.Opens l.spelling []) :
    ofText l.spelling = [{ l with position := 1 }] := by
  obtain ⟨kind, spelling, position⟩ := l
  obtain ⟨c, run, rfl⟩ := List.exists_cons_of_ne_nil h.ne_nil
  have first := LexemeKind.first_of_opens h
  rw [List.append_nil] at first
  simp [ofText, scan, first]

/-- Every text is parted into its lexemes. -/
theorem ofText_partitions (text : List Char) : Partitions text (ofText text) where
  whole := flatMap_spelling_scan 1 text
  filled l mem := by
    obtain ⟨rest, opens⟩ := (scanned_scan 1 text).exists_opens mem
    exact opens.ne_nil
  placed before l behind split := position_of_scan split
  apart := (scanned_scan 1 text).isChain_apart
  signs before behind split sign mem begins := by
    have scanned := scanned_scan 1 text
    rw [← ofText, split] at scanned
    exact scanned.of_append.exists_longestSign mem begins
  alone l mem := by
    obtain ⟨rest, opens⟩ := (scanned_scan 1 text).exists_opens mem
    exact ofText_of_opens opens.alone

/-- The word ends where the arrow begins, and of the arrow nothing is left for another sign. -/
theorem ofText_partitions_arrow :
    ofText "ab<->~C".toList =
      [⟨.word, ['a', 'b'], 1⟩, ⟨.symbol (.op (.binary .iff)), ['<', '-', '>'], 3⟩,
        ⟨.symbol (.op .not), ['~'], 6⟩, ⟨.symbol (.var 'C'), ['C'], 7⟩] ∧
    (∃ l rest, (ofText "ab<->~C".toList).tail = l :: rest ∧
      l.LongestSign ['<', '-', '>', '~', 'C']) ∧
    ofText ['a', 'b'] = [⟨.word, ['a', 'b'], 1⟩] := by
  have cut : ofText "ab<->~C".toList =
      [⟨.word, ['a', 'b'], 1⟩, ⟨.symbol (.op (.binary .iff)), ['<', '-', '>'], 3⟩,
        ⟨.symbol (.op .not), ['~'], 6⟩, ⟨.symbol (.var 'C'), ['C'], 7⟩] := by decide +kernel
  have parted := ofText_partitions "ab<->~C".toList
  rw [cut] at parted ⊢
  exact ⟨rfl, parted.signs [_] _ rfl (['<', '-', '>'], .op (.binary .iff)) (by decide) (by decide),
    parted.alone _ List.mem_cons_self⟩

end Lexeme

end Sentential
