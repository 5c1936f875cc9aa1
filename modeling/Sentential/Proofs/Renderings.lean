import Mathlib.Control.Monad.Basic
import Sentential.Proofs.Printing

/-!
# Renderings of a formula

The rendering of a text keeps its symbols, so it reads as the text does. Of all renderings of one
formula the printed one has the fewest parentheses: a phrase that stands where a level is asked for
is tight enough or in parentheses, so the phrase that is printed spares parentheses against every
other one, operand by operand.
-/

namespace Sentential

-- ---------------------------------------------------------------------------
-- Reading a rendering
-- ---------------------------------------------------------------------------

/-- The uniform rendering of a text that is a formula reads as the same formula, with the same
symbols and the same groups, and is its own rendering. -/
theorem Parsed.rendered_reads_alike {text : List Char} {parsed : Parsed}
    (h : ofText text = .ok parsed) :
    ∃ again, ofText (Token.render parsed.tokens) = .ok again ∧ again.root = parsed.root ∧
      again.tokens.map Token.symbol = parsed.tokens.map Token.symbol ∧
      again.groups = parsed.groups ∧
      Token.render again.tokens = Token.render parsed.tokens := by
  obtain ⟨again, read, root, groups, symbols⟩ := ofText_render h
  refine ⟨again, read, root, symbols, groups, ?_⟩
  rw [Token.render, symbols, ← Token.render]

theorem Parsed.rendered_reads_alike_words :
    ∃ parsed, ofText "not(A)iff TRUE|B".toList = .ok parsed ∧
      parsed.groups = [⟨.var 'A', 2, 3, 0⟩] ∧
      ∃ again, ofText "¬(A) ↔ ⊤ ∨ B".toList = .ok again ∧ again.root = parsed.root ∧
        again.groups = parsed.groups ∧ Token.render again.tokens = "¬(A) ↔ ⊤ ∨ B".toList := by
  let tokens : List Token := [⟨.op .not, ['n', 'o', 't'], 1⟩, ⟨.opening, ['('], 4⟩,
    ⟨.var 'A', ['A'], 5⟩, ⟨.closing, [')'], 6⟩, ⟨.op (.binary .iff), ['i', 'f', 'f'], 7⟩,
    ⟨.const true, ['T', 'R', 'U', 'E'], 11⟩, ⟨.op (.binary .or), ['|'], 15⟩, ⟨.var 'B', ['B'], 16⟩]
  have read : ofText "not(A)iff TRUE|B".toList =
      .ok ⟨.binary .iff (.not (.var 'A')) (.binary .or (.const true) (.var 'B')), tokens,
        [⟨.var 'A', 2, 3, 0⟩]⟩ := by decide +kernel
  have rendered : Token.render tokens = "¬(A) ↔ ⊤ ∨ B".toList := by decide
  obtain ⟨again, reread, root, -, groups, stable⟩ := rendered_reads_alike read
  simp only [rendered] at reread stable
  exact ⟨_, read, rfl, again, reread, root, groups, stable⟩

-- ---------------------------------------------------------------------------
-- Pairs of parentheses
-- ---------------------------------------------------------------------------

namespace Phrase

def pairs : Phrase → Nat
  | .var _ | .const _ => 0
  | .enclosed p => p.pairs + 1
  | .not p => p.pairs
  | .binary _ p q => p.pairs + q.pairs

theorem count_opening_symbols (p : Phrase) : p.symbols.count .opening = p.pairs := by
  induction p with
  | var | const => simp [symbols, pairs]
  | enclosed p ih => simp [symbols, pairs, ih]
  | not p ih => simp [symbols, pairs, ih]
  | binary c p q ihp ihq => simp [symbols, pairs, ihp, ihq]

/-- The phrases are the same, or the first one has fewer parentheses. -/
def Spares (p q : Phrase) : Prop := p = q ∨ p.pairs < q.pairs

variable {p q l r : Phrase}

theorem Spares.pairs_le (h : p.Spares q) : p.pairs ≤ q.pairs := by
  rcases h with rfl | fewer
  · exact Nat.le_refl _
  · exact Nat.le_of_lt fewer

theorem Spares.eq_of_pairs_eq (h : p.Spares q) (same : p.pairs = q.pairs) : p = q :=
  h.resolve_right fun fewer => Nat.ne_of_lt fewer same

theorem Spares.enclosed (h : p.Spares q) : p.enclosed.Spares q.enclosed := by
  rcases h with rfl | fewer
  · exact .inl rfl
  · exact .inr (Nat.succ_lt_succ fewer)

theorem Spares.not (h : p.Spares q) : p.not.Spares q.not := by
  rcases h with rfl | fewer
  · exact .inl rfl
  · exact .inr fewer

theorem Spares.binary {c : Connective} (hl : p.Spares l) (hr : q.Spares r) :
    (Phrase.binary c p q).Spares (.binary c l r) := by
  rcases hl with rfl | fewer
  · rcases hr with rfl | fewer
    · exact .inl rfl
    · exact .inr (Nat.add_lt_add_left fewer _)
  · exact .inr (Nat.add_lt_add_of_lt_of_le fewer hr.pairs_le)

end Phrase

-- ---------------------------------------------------------------------------
-- The phrase that is printed
-- ---------------------------------------------------------------------------

namespace Formula

def phraseAt (level : Nat) (f : Formula) : Phrase := f.phrase.enclosedIf (f.level < level)

variable {f g : Formula} {level : Nat}

theorem phraseAt_of_le (h : level ≤ f.level) : f.phraseAt level = f.phrase := by
  simp [phraseAt, Phrase.enclosedIf, Nat.not_lt.mpr h]

theorem phraseAt_of_lt (h : f.level < level) : f.phraseAt level = .enclosed f.phrase := by
  simp [phraseAt, Phrase.enclosedIf, h]

theorem phrase_binary (c : Connective) (f g : Formula) : (Formula.binary c f g).phrase =
    .binary c (f.phraseAt c.level) (g.phraseAt (c.level + 1)) := by
  simp only [phrase, phraseAt, Nat.lt_succ_iff]

end Formula

/-- A phrase that may stand at a level has no fewer parentheses than what is printed there. -/
theorem Phrase.phraseAt_spares {p : Phrase} {level : Nat} (wf : p.WellFormed)
    (tight : level ≤ p.level) : (p.formula.phraseAt level).Spares p := by
  induction p generalizing level with
  | var v => exact .inl (Formula.phraseAt_of_le tight)
  | const b => exact .inl (Formula.phraseAt_of_le tight)
  | enclosed p ih =>
    have inside := ih wf (Nat.zero_le _)
    rw [Formula.phraseAt_of_le (Nat.zero_le _)] at inside
    by_cases needed : p.formula.level < level
    · have printed : (enclosed p).formula.phraseAt level = .enclosed p.formula.phrase :=
        Formula.phraseAt_of_lt needed
      rw [printed]
      exact inside.enclosed
    · have printed : (enclosed p).formula.phraseAt level = p.formula.phrase :=
        Formula.phraseAt_of_le (Nat.not_lt.mp needed)
      rw [printed]
      exact .inr (Nat.lt_succ_of_le inside.pairs_le)
  | not p ih =>
    have printed : (not p).formula.phraseAt level = .not (p.formula.phraseAt 6) :=
      Formula.phraseAt_of_le tight
    rw [printed]
    exact (ih wf.1 wf.2).not
  | binary c p q ihp ihq =>
    obtain ⟨wfp, wfq, left, right⟩ := wf
    have printed : (binary c p q).formula.phraseAt level =
        .binary c (p.formula.phraseAt c.level) (q.formula.phraseAt (c.level + 1)) :=
      (Formula.phraseAt_of_le tight).trans (Formula.phrase_binary c p.formula q.formula)
    rw [printed]
    exact (ihp wfp left).binary (ihq wfq right)

theorem Phrase.phrase_spares {p : Phrase} (wf : p.WellFormed) : p.formula.phrase.Spares p := by
  have spares := phraseAt_spares wf (Nat.zero_le _)
  rwa [Formula.phraseAt_of_le (Nat.zero_le _)] at spares

-- ---------------------------------------------------------------------------
-- Texts
-- ---------------------------------------------------------------------------

theorem Symbol.count_spaced {s : Symbol} (letter : ∀ v, s = .var v → v.isUpper) :
    s.spaced.count '(' = [s].count .opening := by
  cases s with
  | var v =>
    have other : v ≠ '(' := by
      rintro rfl
      simpa using letter '(' rfl
    simp [spaced, glyph, other]
  | const b => cases b <;> rfl
  | op o =>
    cases o with
    | not => rfl
    | binary c => cases c <;> rfl
  | opening | closing => rfl

theorem Symbol.count_render {symbols : List Symbol} (letters : ∀ v, .var v ∈ symbols → v.isUpper) :
    (render symbols).count '(' = symbols.count .opening := by
  induction symbols with
  | nil => rfl
  | cons s symbols ih =>
    have first := count_spaced (s := s) fun v eq => letters v (eq ▸ List.mem_cons_self)
    have others := ih fun v mem => letters v (List.mem_cons_of_mem s mem)
    rw [render, List.flatMap_cons, List.count_append, first, ← render, others, ← List.count_append,
      List.singleton_append]

theorem Formula.count_print {f : Formula} (h : f.Lettered) : f.print.count '(' = f.phrase.pairs := by
  rw [← Phrase.count_opening_symbols, symbols_phrase]
  exact Symbol.count_render fun v mem => h.isUpper_of_mem_symbols mem

/-- A text that is a formula has at least as many opening parentheses as the formula's print. If it
has no more, its symbols are those of the print, and so is its uniform spacing. -/
theorem Parsed.print_has_fewest_parentheses {text : List Char} {parsed : Parsed}
    (h : ofText text = .ok parsed) :
    (toString parsed.root).toList.count '(' ≤
      (parsed.tokens.map Token.symbol).count .opening ∧
    ((toString parsed.root).toList.count '(' =
        (parsed.tokens.map Token.symbol).count .opening →
      (∃ printed, Token.ofText (toString parsed.root).toList = .ok printed ∧
        printed.map Token.symbol = parsed.tokens.map Token.symbol) ∧
      String.ofList (Token.render parsed.tokens) = toString parsed.root) := by
  obtain ⟨tokens, p, tokenized, derives, -, rfl⟩ := ofText_eq_ok.mp h
  have lettered := Token.lettered_of_ofText tokenized derives
  have spares := Phrase.phrase_spares derives.1
  have print : (toString p.formula).toList = p.formula.print := String.toList_ofList
  simp only [print, Formula.count_print lettered, ← derives.2, Phrase.count_opening_symbols]
  refine ⟨spares.pairs_le, fun same => ?_⟩
  have printed : p.formula.symbols = p.symbols := by
    rw [← Formula.symbols_phrase, spares.eq_of_pairs_eq same]
  obtain ⟨again, cut, derives'⟩ := Formula.tokens_print lettered
  refine ⟨⟨again, cut, ?_⟩, ?_⟩
  · rw [← derives'.2, Formula.symbols_phrase, printed]
  · rw [Token.render, ← derives.2, ← printed]
    rfl

/-- One text that needs its parentheses, and one that has a pair which it does not need. -/
theorem Parsed.print_has_fewest_parentheses_or :
    (∃ parsed, ofText "(A|B)&C".toList = .ok parsed ∧
      String.ofList (Token.render parsed.tokens) = toString parsed.root) ∧
    ∃ parsed, ofText "(A&B)|C".toList = .ok parsed ∧
      (toString parsed.root).toList.count '(' ≤
        (parsed.tokens.map Token.symbol).count .opening ∧
      String.ofList (Token.render parsed.tokens) ≠ toString parsed.root := by
  have read : ofText "(A|B)&C".toList =
      .ok ⟨.binary .and (.binary .or (.var 'A') (.var 'B')) (.var 'C'),
        [⟨.opening, ['('], 1⟩, ⟨.var 'A', ['A'], 2⟩, ⟨.op (.binary .or), ['|'], 3⟩,
          ⟨.var 'B', ['B'], 4⟩, ⟨.closing, [')'], 5⟩, ⟨.op (.binary .and), ['&'], 6⟩,
          ⟨.var 'C', ['C'], 7⟩],
        [⟨.binary .or (.var 'A') (.var 'B'), 1, 4, 0⟩]⟩ := by decide +kernel
  have read' : ofText "(A&B)|C".toList =
      .ok ⟨.binary .or (.binary .and (.var 'A') (.var 'B')) (.var 'C'),
        [⟨.opening, ['('], 1⟩, ⟨.var 'A', ['A'], 2⟩, ⟨.op (.binary .and), ['&'], 3⟩,
          ⟨.var 'B', ['B'], 4⟩, ⟨.closing, [')'], 5⟩, ⟨.op (.binary .or), ['|'], 6⟩,
          ⟨.var 'C', ['C'], 7⟩],
        [⟨.binary .and (.var 'A') (.var 'B'), 1, 4, 0⟩]⟩ := by decide +kernel
  obtain ⟨-, tight⟩ := print_has_fewest_parentheses read
  obtain ⟨fewer, -⟩ := print_has_fewest_parentheses read'
  exact ⟨⟨_, read, (tight (by decide)).2⟩, _, read', fewer, by decide⟩

end Sentential
