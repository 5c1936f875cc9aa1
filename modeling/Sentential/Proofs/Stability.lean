import Mathlib.Data.List.Chain
import Sentential.Proofs.Printing
import Sentential.Proofs.Respelling

/-!
# Respelling is stable

What has been respelled is cut into its lexemes again, each in its new spelling, and asks for no
more blanks and drops none. So respelling it once more changes nothing. In uniform spacing a formula
has blanks beside its binary connectives only: respelled in words it gets blanks behind negations
and nowhere else, and these are the ones that glyphs drop. Both halves make up `respelling_stable`.
-/

namespace Sentential

open Lexeme (Scanned)

namespace Lexeme

variable {l next : Lexeme}

theorem inWords_respelled (l : Lexeme) : (l.respelled inWords).inWords = l.inWords := by
  obtain ⟨kind, spelling, position⟩ := l
  cases kind with
  | symbol s => cases s <;> rfl
  | _ => rfl

theorem inGlyphs_respelled (l : Lexeme) : (l.respelled inGlyphs).inGlyphs = l.inGlyphs := by
  obtain ⟨kind, spelling, position⟩ := l
  cases kind with
  | symbol s => cases s <;> rfl
  | _ => rfl

theorem inGlyphs_respelled_inWords (l : Lexeme) :
    (l.respelled inWords).inGlyphs = l.inGlyphs := by
  obtain ⟨kind, spelling, position⟩ := l
  cases kind with
  | symbol s => cases s <;> rfl
  | _ => rfl

theorem gap_needsBlank (next : Lexeme) : gap.needsBlank next = false :=
  needsBlank_of_blank_left (opens_gap Text.solid_nil) rfl next

theorem needsBlank_gap (l : Lexeme) : l.needsBlank gap = false :=
  needsBlank_of_blank_right (opens_gap Text.solid_nil) rfl l

theorem getLast?_any_of_isOperator (h : l.isOperator = true) :
    l.inWords.getLast?.any Text.isWordChar = true := by
  unfold isOperator at h
  split at h
  next o operator =>
    obtain ⟨c, run, word, -, wordChars, -⟩ := o.word_eq_cons
    have last := List.getLast?_eq_some_getLast (List.cons_ne_nil c run)
    simp only [inWords, operator, word, last, Option.any_some]
    exact wordChars _ (List.getLast_mem _)
  next => cases h

theorem needsBlank_respelled (h : l.needsBlank next = false) :
    (l.respelled inWords).needsBlank (next.respelled inWords) = false := by
  have unchanged : (l.respelled inWords).needsBlank (next.respelled inWords) =
      (l.isOperator && next.inWords.head?.any Text.isWordChar ||
        next.isOperator && l.inWords.getLast?.any Text.isWordChar) := by
    rw [needsBlank, inWords_respelled]
    rfl
  rw [unchanged]
  rw [needsBlank, Bool.or_eq_false_iff] at h
  obtain ⟨before, behind⟩ := h
  rw [behind, Bool.or_false]
  cases operator : l.isOperator with
  | false => rfl
  | true =>
    rw [operator, Bool.true_and] at before
    have wordEnd := getLast?_any_of_isOperator operator
    obtain ⟨kind, spelling, position⟩ := next
    cases kind with
    | symbol s =>
      cases s with
      | op o => simp [wordEnd, isOperator] at behind
      | const b => exact Text.not_isWordChar_glyph (s := .const b) (by simp)
      | _ => exact before
    | _ => exact before

end Lexeme

namespace Respelling

theorem wordsAfter_map_unplaced (l : Lexeme) (lexemes : List Lexeme) :
    wordsAfter l.unplaced (lexemes.map .unplaced) = wordsAfter l lexemes := by
  induction lexemes generalizing l with
  | nil => rfl
  | cons next lexemes ih =>
    rw [List.map_cons, wordsAfter, wordsAfter, ih]
    rfl

theorem words_map_unplaced (lexemes : List Lexeme) :
    words (lexemes.map .unplaced) = words lexemes := by
  cases lexemes with
  | nil => rfl
  | cons l lexemes =>
    rw [List.map_cons, words, words, wordsAfter_map_unplaced]
    rfl

theorem glyphs_map_unplaced (dropBlank : Bool) (lexemes : List Lexeme) :
    glyphs dropBlank (lexemes.map .unplaced) = glyphs dropBlank lexemes := by
  induction lexemes generalizing dropBlank with
  | nil => rfl
  | cons l lexemes ih =>
    rw [List.map_cons, glyphs, glyphs, ih, ih]
    rfl

theorem wordsAfter_wordLexemesAfter (l : Lexeme) (lexemes : List Lexeme) :
    wordsAfter (l.respelled Lexeme.inWords) (wordLexemesAfter l lexemes) =
      wordsAfter l lexemes := by
  induction lexemes generalizing l with
  | nil => rfl
  | cons next lexemes ih =>
    rw [wordLexemesAfter, wordsAfter]
    split
    next =>
      rw [List.singleton_append, wordsAfter, Lexeme.needsBlank_gap, wordsAfter,
        Lexeme.gap_needsBlank, Lexeme.inWords_respelled, ih]
      rfl
    next close =>
      have close := Lexeme.needsBlank_respelled (Bool.not_eq_true _ ▸ close)
      rw [List.nil_append, wordsAfter, close, Lexeme.inWords_respelled, ih]
      rfl

theorem words_wordLexemes (lexemes : List Lexeme) :
    words (wordLexemes lexemes) = words lexemes := by
  cases lexemes with
  | nil => rfl
  | cons l lexemes =>
    rw [wordLexemes, words, words, Lexeme.inWords_respelled, wordsAfter_wordLexemesAfter]

theorem glyphs_glyphLexemes (dropBlank : Bool) (lexemes : List Lexeme) :
    glyphs dropBlank (glyphLexemes dropBlank lexemes) = glyphs dropBlank lexemes := by
  induction lexemes generalizing dropBlank with
  | nil => rfl
  | cons l lexemes ih =>
    rw [glyphLexemes, glyphs]
    split
    next dropped =>
      obtain ⟨rfl, -⟩ := Bool.and_eq_true_iff.mp dropped
      exact ih true
    next shown =>
      have shown : ¬(dropBlank && (l.respelled Lexeme.inGlyphs).isBlank) = true := shown
      rw [glyphs, if_neg shown, Lexeme.inGlyphs_respelled]
      exact congrArg (l.inGlyphs ++ ·) (ih l.isNegation)

end Respelling

open Respelling (words glyphs wordLexemes)

theorem respellInWords_of_scanned {text : List Char} {lexemes : List Lexeme}
    (h : Scanned text lexemes) : respellInWords text = words lexemes := by
  rw [respellInWords, ← Respelling.words_map_unplaced, Lexeme.ofText, h.map_unplaced_scan,
    Respelling.words_map_unplaced]

theorem respellInGlyphs_of_scanned {text : List Char} {lexemes : List Lexeme}
    (h : Scanned text lexemes) : respellInGlyphs text = glyphs false lexemes := by
  rw [respellInGlyphs, ← Respelling.glyphs_map_unplaced, Lexeme.ofText, h.map_unplaced_scan,
    Respelling.glyphs_map_unplaced]

theorem respellInWords_idem (text : List Char) :
    respellInWords (respellInWords text) = respellInWords text := by
  have scanned := Lexeme.scanned_scan 1 text
  calc respellInWords (respellInWords text)
    _ = words (wordLexemes (Lexeme.ofText text)) :=
      respellInWords_of_scanned (Respelling.scanned_words scanned)
    _ = respellInWords text := Respelling.words_wordLexemes _

theorem respellInGlyphs_idem (text : List Char) :
    respellInGlyphs (respellInGlyphs text) = respellInGlyphs text := by
  have scanned := Lexeme.scanned_scan 1 text
  calc respellInGlyphs (respellInGlyphs text)
    _ = glyphs false (Respelling.glyphLexemes false (Lexeme.ofText text)) :=
      respellInGlyphs_of_scanned (Respelling.scanned_glyphs scanned false)
    _ = respellInGlyphs text := Respelling.glyphs_glyphLexemes false _

-- ---------------------------------------------------------------------------
-- From glyphs to words and back
-- ---------------------------------------------------------------------------

namespace Lexeme

/-- Words put a blank between the two only behind a negation, and there is none yet. -/
def Settled (l next : Lexeme) : Prop :=
  (l.needsBlank next = true → l.isNegation = true) ∧
    (l.isNegation = true → next.isBlank = false)

def InGlyphs (l : Lexeme) : Prop := l.inGlyphs = l.spelling

end Lexeme

namespace Respelling

open Lexeme (Settled InGlyphs)

variable {l : Lexeme} {lexemes : List Lexeme}

theorem glyphs_wordLexemesAfter (shown : ∀ next ∈ lexemes, next.InGlyphs)
    (settled : (l :: lexemes).IsChain Settled) :
    glyphs l.isNegation (wordLexemesAfter l lexemes) = lexemes.flatMap Lexeme.spelling := by
  induction lexemes generalizing l with
  | nil => rfl
  | cons next lexemes ih =>
    obtain ⟨shownNext, shown⟩ := List.forall_mem_cons.mp shown
    obtain ⟨⟨padded, unblank⟩, settled⟩ := List.isChain_cons_cons.mp settled
    have kept : ¬(l.isNegation && (next.respelled Lexeme.inWords).isBlank) = true := by
      rintro dropped
      obtain ⟨negation, blank⟩ := Bool.and_eq_true_iff.mp dropped
      exact Bool.false_ne_true ((unblank negation).symm.trans blank)
    have rest :
        glyphs l.isNegation (next.respelled Lexeme.inWords :: wordLexemesAfter next lexemes) =
          next.spelling ++ lexemes.flatMap Lexeme.spelling := by
      rw [glyphs, if_neg kept, Lexeme.inGlyphs_respelled_inWords, shownNext]
      exact congrArg (next.spelling ++ ·) (ih shown settled)
    rw [wordLexemesAfter, List.flatMap_cons, ← rest]
    split
    next needed =>
      -- The blank that is put behind a negation is dropped again.
      rw [padded needed]
      rfl
    next => rfl

theorem glyphs_wordLexemes (shown : ∀ l ∈ lexemes, l.InGlyphs) (settled : lexemes.IsChain Settled) :
    glyphs false (wordLexemes lexemes) = lexemes.flatMap Lexeme.spelling := by
  cases lexemes with
  | nil => rfl
  | cons l lexemes =>
    obtain ⟨shownFirst, shown⟩ := List.forall_mem_cons.mp shown
    rw [wordLexemes, glyphs, if_neg (by simp), Lexeme.inGlyphs_respelled_inWords, shownFirst,
      List.flatMap_cons]
    exact congrArg (l.spelling ++ ·) (glyphs_wordLexemesAfter shown settled)

end Respelling

-- ---------------------------------------------------------------------------
-- Formulas in uniform spacing
-- ---------------------------------------------------------------------------

namespace Phrase

variable {p : Phrase}

theorem inGlyphs_of_mem_lexemes {l : Lexeme} (mem : l ∈ p.lexemes) : l.InGlyphs := by
  obtain ⟨s, -, mem⟩ := List.mem_flatMap.mp mem
  unfold Symbol.lexemes at mem
  split at mem
  · simp only [List.mem_cons, List.not_mem_nil, or_false] at mem
    rcases mem with rfl | rfl | rfl <;> rfl
  · obtain rfl := List.mem_singleton.mp mem
    cases s <;> rfl

end Phrase

namespace Lexeme

variable {l next : Lexeme} {rest : List Lexeme} {p : Phrase}

theorem settled_of_needsBlank (h : l.needsBlank next = false) (h' : l.isNegation = false) :
    Settled l next := by
  simp [Settled, h, h']

theorem settled_gap (next : Lexeme) : Settled gap next :=
  settled_of_needsBlank (gap_needsBlank next) rfl

theorem settled_opening (next : Lexeme) : Settled Symbol.opening.lexeme next := by
  refine settled_of_needsBlank ?_ rfl
  have plain : Text.isWordChar '(' = false := by decide +kernel
  simp [needsBlank, isOperator, Symbol.lexeme, Symbol.glyph, inWords, plain]

theorem isChain_settled (behind : rest.IsChain Settled)
    (apart : ∀ next ∈ rest.head?, next.isOperator = false) :
    (p.lexemes ++ rest).IsChain Settled := by
  have before {l : Lexeme} {rest : List Lexeme} (operand : l.isOperator = false)
      (noNegation : l.isNegation = false) (behind : rest.IsChain Settled)
      (apart : ∀ next ∈ rest.head?, next.isOperator = false) : (l :: rest).IsChain Settled := by
    refine List.isChain_cons.mpr ⟨fun next mem => settled_of_needsBlank ?_ noNegation, behind⟩
    simp [needsBlank, operand, apart next mem]
  induction p generalizing rest with
  | var v => exact before rfl rfl behind apart
  | const b => exact before rfl rfl behind apart
  | enclosed p ih =>
    have closing : (Symbol.closing.lexeme :: rest).IsChain Settled := before rfl rfl behind apart
    have body := ih closing (by simp [Symbol.lexeme, isOperator])
    rw [Phrase.lexemes_enclosed, List.cons_append, List.append_assoc]
    exact List.isChain_cons.mpr ⟨fun next _ => settled_opening next, body⟩
  | not p ih =>
    obtain ⟨s, others, first⟩ := p.lexemes_eq_cons
    have body := ih behind apart
    refine List.isChain_cons.mpr ⟨fun next mem => ⟨fun _ => rfl, fun _ => ?_⟩, body⟩
    have mem : next ∈ (p.lexemes ++ rest).head? := mem
    obtain rfl : s.lexeme = next := by simpa [first] using mem
    rfl
  | binary c p q ihp ihq =>
    have operand := List.isChain_cons.mpr ⟨fun next _ => settled_gap next, ihq behind apart⟩
    have glyph : ((Symbol.op (.binary c)).lexeme :: gap :: (q.lexemes ++ rest)).IsChain Settled :=
      List.isChain_cons_cons.mpr ⟨settled_of_needsBlank (needsBlank_gap _) rfl, operand⟩
    have link := List.isChain_cons_cons.mpr ⟨settled_gap _, glyph⟩
    rw [Phrase.lexemes_binary, List.append_assoc]
    exact ihp link (by simp [gap, isOperator])

end Lexeme

theorem Phrase.respellInGlyphs_respellInWords {p : Phrase} (lettered : p.formula.Lettered) :
    respellInGlyphs (respellInWords (Symbol.render p.symbols)) = Symbol.render p.symbols := by
  have scanned : Scanned (Symbol.render p.symbols ++ []) (p.lexemes ++ []) :=
    Scanned.nil.render lettered Text.severed_nil
  have settled : (p.lexemes ++ []).IsChain Lexeme.Settled :=
    Lexeme.isChain_settled .nil (by simp)
  rw [List.append_nil, List.append_nil] at scanned
  rw [List.append_nil] at settled
  calc respellInGlyphs (respellInWords (Symbol.render p.symbols))
    _ = respellInGlyphs (words p.lexemes) := by rw [respellInWords_of_scanned scanned]
    _ = glyphs false (wordLexemes p.lexemes) :=
      respellInGlyphs_of_scanned (Respelling.scanned_words scanned)
    _ = p.lexemes.flatMap Lexeme.spelling :=
      Respelling.glyphs_wordLexemes (fun _ => inGlyphs_of_mem_lexemes) settled
    _ = Symbol.render p.symbols := scanned.flatMap_spelling

/-- Respelling a text once more the same way changes nothing, and a formula in uniform spacing comes
back from words as it was. -/
theorem respelling_stable :
    (∀ text, respellInWords (respellInWords text) = respellInWords text ∧
      respellInGlyphs (respellInGlyphs text) = respellInGlyphs text) ∧
    ∀ text parsed, Parsed.ofText text = .ok parsed →
      respellInGlyphs (respellInWords (Token.render parsed.tokens)) =
        Token.render parsed.tokens := by
  refine ⟨fun text => ⟨respellInWords_idem text, respellInGlyphs_idem text⟩, ?_⟩
  intro text parsed read
  obtain ⟨tokens, p, tokenized, derives, fits, rfl⟩ := Parsed.ofText_eq_ok.mp read
  have rendered : Token.render tokens = Symbol.render p.symbols := by rw [Token.render, derives.2]
  rw [rendered]
  exact p.respellInGlyphs_respellInWords (Token.lettered_of_ofText tokenized derives)

theorem respelling_stable_negations :
    ∃ parsed, Parsed.ofText "!~A&(not TRUE)".toList = .ok parsed ∧
      Token.render parsed.tokens = "¬¬A ∧ (¬⊤)".toList ∧
      respellInWords "¬¬A ∧ (¬⊤)".toList = "NOT NOT A AND (NOT⊤)".toList ∧
      respellInGlyphs "NOT NOT A AND (NOT⊤)".toList = "¬¬A ∧ (¬⊤)".toList := by
  let tokens : List Token := [⟨.op .not, ['!'], 1⟩, ⟨.op .not, ['~'], 2⟩, ⟨.var 'A', ['A'], 3⟩,
    ⟨.op (.binary .and), ['&'], 4⟩, ⟨.opening, ['('], 5⟩, ⟨.op .not, ['n', 'o', 't'], 6⟩,
    ⟨.const true, ['T', 'R', 'U', 'E'], 10⟩, ⟨.closing, [')'], 14⟩]
  have read : Parsed.ofText "!~A&(not TRUE)".toList =
      .ok ⟨.binary .and (.not (.not (.var 'A'))) (.not (.const true)), tokens,
        [⟨.not (.const true), 5, 7, 0⟩]⟩ := by decide +kernel
  have rendered : Token.render tokens = "¬¬A ∧ (¬⊤)".toList := by decide
  have words : respellInWords "¬¬A ∧ (¬⊤)".toList = "NOT NOT A AND (NOT⊤)".toList := by
    decide +kernel
  have stable := respelling_stable.2 _ _ read
  simp only [rendered, words] at stable
  exact ⟨_, read, rendered, words, stable⟩

end Sentential
