import Sentential.Proofs.Lexing
import Sentential.Proofs.Parentheses
import Sentential.Proofs.Reading.Sound

/-!
# What the parser accepts

The parser accepts a list of tokens exactly where their symbols have a derivation within the two
limits, and then gives the tree of that derivation.
-/

namespace Sentential

-- ---------------------------------------------------------------------------
-- The parentheses of a phrase match
-- ---------------------------------------------------------------------------

theorem Phrase.Derives.checkParentheses {p : Phrase} {tokens : List Token}
    (h : p.Derives (tokens.map Token.symbol)) : Token.checkParentheses tokens = .ok () := by
  rw [Token.checkParentheses_eq_ok, ← h.2]
  exact p.balanced_symbols

namespace Parsed

variable {p : Phrase} {tokens : List Token} {parsed : Parsed}

-- ---------------------------------------------------------------------------
-- Token lists
-- ---------------------------------------------------------------------------

theorem readAs_of_derives (h : p.Derives (tokens.map Token.symbol)) :
    p.ReadAs 0 (Cursor.start tokens) (Parser.formula maxDepth (Cursor.start tokens)) := by
  refine Parser.formula_complete (Nat.zero_add _) h.1 p.level_pos ?_ (Parser.stops_nil 1)
  rw [List.append_nil, h.2]
  rfl

theorem filled_of_derives (h : p.Derives (tokens.map Token.symbol)) : tokens.isEmpty = false := by
  cases tokens with
  | nil => exact absurd h.2 p.symbols_ne_nil
  | cons t tokens => rfl

theorem ofTokens_of_fits (h : p.Derives (tokens.map Token.symbol)) (fits : p.Fits 0) :
    ofTokens tokens = .ok ⟨p.formula, tokens, p.groups 0 0⟩ := by
  have read := readAs_of_derives h
  generalize result : Parser.formula maxDepth (Cursor.start tokens) = outcome at read
  cases read with
  | fits =>
    have ended : ((Cursor.start tokens).skip p.symbols.length).next? = none := by
      refine Cursor.next?_eq_none (Cursor.symbols_skip ?_)
      rw [List.append_nil, h.2]
      rfl
    simp only [ofTokens, filled_of_derives h, h.checkParentheses, result, ok_bind, ended]
    rfl
  | tooDeep position deep => exact absurd fits deep

theorem ofTokens_of_not_fits (h : p.Derives (tokens.map Token.symbol)) (deep : ¬ p.Fits 0) :
    ∃ position, ofTokens tokens = .error (.tooDeep position) := by
  have read := readAs_of_derives h
  generalize result : Parser.formula maxDepth (Cursor.start tokens) = outcome at read
  cases read with
  | fits fits => exact absurd fits deep
  | tooDeep position =>
    refine ⟨position, ?_⟩
    simp only [ofTokens, filled_of_derives h, h.checkParentheses, result, ok_bind, error_bind]
    rfl

theorem derives_of_ofTokens (h : ofTokens tokens = .ok parsed) :
    ∃ p : Phrase, p.Derives (tokens.map Token.symbol) := by
  unfold ofTokens at h
  split at h
  · simp at h
  obtain ⟨-, -, h⟩ := bind_eq_ok.mp h
  obtain ⟨⟨operand, after⟩, read, h⟩ := bind_eq_ok.mp h
  obtain ⟨p, wf, -, split⟩ := Parser.formula_sound maxDepth read
  cases hnext : after.next? with
  | some step => simp [hnext] at h
  | none =>
    refine ⟨p, wf, ?_⟩
    rw [Cursor.symbols_eq_nil hnext, List.append_nil] at split
    exact split.symm

theorem ofTokens_eq_ok :
    ofTokens tokens = .ok parsed ↔
      ∃ p : Phrase, p.Derives (tokens.map Token.symbol) ∧ p.Fits 0 ∧
        parsed = ⟨p.formula, tokens, p.groups 0 0⟩ := by
  constructor
  · intro h
    obtain ⟨p, derives⟩ := derives_of_ofTokens h
    by_cases fits : p.Fits 0
    · refine ⟨p, derives, fits, ?_⟩
      rw [ofTokens_of_fits derives fits] at h
      exact (Except.ok.inj h).symm
    · obtain ⟨position, result⟩ := ofTokens_of_not_fits derives fits
      simp [result] at h
  · rintro ⟨p, derives, fits, rfl⟩
    exact ofTokens_of_fits derives fits

-- ---------------------------------------------------------------------------
-- Texts
-- ---------------------------------------------------------------------------

theorem ofText_eq_ok {text : List Char} :
    ofText text = .ok parsed ↔
      ∃ tokens, ∃ p : Phrase, Token.ofText text = .ok tokens ∧
        p.Derives (tokens.map Token.symbol) ∧ p.Fits 0 ∧
          parsed = ⟨p.formula, tokens, p.groups 0 0⟩ := by
  simp only [ofText, bind_eq_ok, ofTokens_eq_ok, exists_and_left]

theorem fits_iff_of_derives {symbols : List Symbol} (h : p.Derives symbols) :
    p.Fits 0 ↔ p.formula.height ≤ maxDepth ∧ ∀ d ∈ Symbol.depths 0 symbols, d ≤ maxDepth := by
  rw [← h.2, p.forall_depths_le 0]
  rfl

/-- Symbols have at most one derivation. Where those of a text have one, the parser gives its tree
just if the tree is no higher than `maxDepth` and no symbol lies inside more than `maxDepth`
parentheses, and finds the text too deep otherwise. A text without a derivation is an error. -/
theorem ofText_exact {text : List Char} (tokenized : Token.ofText text = .ok tokens) :
    (∀ (symbols : List Symbol) (p q : Phrase), p.Derives symbols → q.Derives symbols → p = q) ∧
    (∀ p : Phrase, p.Derives (tokens.map Token.symbol) →
      ((∃ parsed, ofText text = .ok parsed ∧ parsed.root = p.formula) ↔
        p.formula.height ≤ maxDepth ∧
          ∀ d ∈ Symbol.depths 0 (tokens.map Token.symbol), d ≤ maxDepth) ∧
      (¬ (p.formula.height ≤ maxDepth ∧
          ∀ d ∈ Symbol.depths 0 (tokens.map Token.symbol), d ≤ maxDepth) →
        ∃ position, ofText text = .error (.tooDeep position))) ∧
    ((¬ ∃ p : Phrase, p.Derives (tokens.map Token.symbol)) → ∃ e, ofText text = .error e) := by
  have read : ofText text = ofTokens tokens := by rw [ofText, tokenized, ok_bind]
  rw [read]
  refine ⟨fun symbols p q hp hq => Phrase.unambiguous hp.1 hq.1 (hp.2.trans hq.2.symm), ?_, ?_⟩
  · intro p derives
    rw [← fits_iff_of_derives derives]
    refine ⟨⟨?_, fun fits => ⟨_, ofTokens_of_fits derives fits, rfl⟩⟩,
      ofTokens_of_not_fits derives⟩
    rintro ⟨parsed, accepted, -⟩
    refine Classical.byContradiction fun deep => ?_
    obtain ⟨position, refused⟩ := ofTokens_of_not_fits derives deep
    simp [accepted] at refused
  · intro underivable
    cases result : ofTokens tokens with
    | error e => exact ⟨e, rfl⟩
    | ok parsed => exact absurd (derives_of_ofTokens result) underivable

theorem ofText_exact_negated_conjunction :
    ∃ tokens, Token.ofText ['¬', '(', 'A', ' ', '∧', ' ', 'B', ')'] = .ok tokens ∧
      ∃ parsed, ofText ['¬', '(', 'A', ' ', '∧', ' ', 'B', ')'] = .ok parsed ∧
        parsed.root = .not (.binary .and (.var 'A') (.var 'B')) := by
  let p : Phrase := .not (.enclosed (.binary .and (.var 'A') (.var 'B')))
  have wf : p.WellFormed := by simp [p, Phrase.WellFormed, Phrase.level, Connective.level]
  have lettered : p.formula.Lettered := by decide
  obtain ⟨tokens, tokenized, symbols⟩ := Spells.nil.render lettered (by simp) 1
  have derives : p.Derives (tokens.map Token.symbol) := ⟨wf, by rw [symbols, List.append_nil]⟩
  obtain ⟨-, derived, -⟩ := ofText_exact tokenized
  refine ⟨tokens, tokenized, (derived p derives).1.mpr ⟨by decide, ?_⟩⟩
  rw [symbols]
  decide

end Parsed

end Sentential
