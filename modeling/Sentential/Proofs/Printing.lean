import Sentential.Formula.Printer
import Sentential.Proofs.Lexing
import Sentential.Proofs.Reading.Exact

/-!
# Printed formulas read back

A printed formula is the rendering of a phrase that encloses what the printer encloses. The printer
encloses a connective only, so the parentheses never nest as deep as the formula is high, and of the
parser's two limits only the one on heights matters.
-/

namespace Sentential

-- ---------------------------------------------------------------------------
-- The phrase that is printed
-- ---------------------------------------------------------------------------

namespace Phrase

def enclosedIf (needed : Bool) (p : Phrase) : Phrase := if needed then .enclosed p else p

variable {needed : Bool} {p : Phrase}

theorem symbols_enclosedIf : (p.enclosedIf needed).symbols = Formula.enclose needed p.symbols := by
  cases needed <;> rfl

theorem formula_enclosedIf : (p.enclosedIf needed).formula = p.formula := by
  cases needed <;> rfl

theorem wellFormed_enclosedIf (h : p.WellFormed) : (p.enclosedIf needed).WellFormed := by
  cases needed <;> exact h

theorem nesting_enclosedIf_le (needed : Bool) (p : Phrase) :
    (p.enclosedIf needed).nesting ≤ p.nesting + 1 := by
  cases needed <;> simp [enclosedIf, nesting]

theorem le_level_enclosedIf {level : Nat} (h : needed = false → level ≤ p.level)
    (atom : level ≤ 7) : level ≤ (p.enclosedIf needed).level := by
  cases needed with
  | false => exact h rfl
  | true => exact atom

end Phrase

namespace Formula

def phrase : Formula → Phrase
  | .var v => .var v
  | .const b => .const b
  | .not f => .not (f.phrase.enclosedIf (f.level < 6))
  | .binary c f g =>
    .binary c (f.phrase.enclosedIf (f.level < c.level)) (g.phrase.enclosedIf (g.level ≤ c.level))

theorem level_phrase (f : Formula) : f.phrase.level = f.level := by
  cases f <;> rfl

theorem symbols_phrase (f : Formula) : f.phrase.symbols = f.symbols := by
  induction f with
  | var | const => rfl
  | not f ih => simp only [phrase, Phrase.symbols, Phrase.symbols_enclosedIf, ih, symbols]
  | binary c f g ihf ihg =>
    simp only [phrase, Phrase.symbols, Phrase.symbols_enclosedIf, ihf, ihg, symbols]

theorem formula_phrase (f : Formula) : f.phrase.formula = f := by
  induction f with
  | var | const => rfl
  | not f ih => simp only [phrase, Phrase.formula, Phrase.formula_enclosedIf, ih]
  | binary c f g ihf ihg =>
    simp only [phrase, Phrase.formula, Phrase.formula_enclosedIf, ihf, ihg]

theorem wellFormed_phrase (f : Formula) : f.phrase.WellFormed := by
  induction f with
  | var | const => trivial
  | not f ih =>
    refine ⟨Phrase.wellFormed_enclosedIf ih, Phrase.le_level_enclosedIf ?_ (by omega)⟩
    intro bare
    rw [level_phrase]
    simpa using bare
  | binary c f g ihf ihg =>
    have := c.level_lt_six
    refine ⟨Phrase.wellFormed_enclosedIf ihf, Phrase.wellFormed_enclosedIf ihg,
      Phrase.le_level_enclosedIf ?_ (by omega), Phrase.le_level_enclosedIf ?_ (by omega)⟩
    · intro bare
      rw [level_phrase]
      simpa using bare
    · intro bare
      rw [level_phrase]
      simpa [Nat.succ_le_iff] using bare

theorem nesting_phrase_lt (f : Formula) : f.phrase.nesting < f.height := by
  induction f with
  | var | const => simp [phrase, Phrase.nesting, height]
  | not f ih =>
    have := Phrase.nesting_enclosedIf_le (f.level < 6) f.phrase
    simp only [phrase, Phrase.nesting, height]
    omega
  | binary c f g ihf ihg =>
    have left := Phrase.nesting_enclosedIf_le (f.level < c.level) f.phrase
    have right := Phrase.nesting_enclosedIf_le (g.level ≤ c.level) g.phrase
    simp only [phrase, Phrase.nesting, height]
    omega

theorem fits_phrase (f : Formula) : f.phrase.Fits 0 ↔ f.height ≤ maxDepth := by
  have := f.nesting_phrase_lt
  rw [Phrase.Fits, formula_phrase]
  omega

end Formula

-- ---------------------------------------------------------------------------
-- The letters of a formula that was read
-- ---------------------------------------------------------------------------

theorem Phrase.mem_occurrences {v : Char} {p : Phrase} :
    v ∈ p.formula.occurrences ↔ .var v ∈ p.symbols := by
  induction p with
  | var w => simp [formula, Formula.occurrences, symbols]
  | const b => simp [formula, Formula.occurrences, symbols]
  | enclosed p ih => simp [formula, symbols, ih]
  | not p ih => simp [formula, Formula.occurrences, symbols, ih]
  | binary c p q ihp ihq => simp [formula, Formula.occurrences, symbols, ihp, ihq]

theorem Token.lettered_of_ofText {text : List Char} {tokens : List Token} {p : Phrase}
    (h : ofText text = .ok tokens) (derives : p.Derives (tokens.map symbol)) :
    p.formula.Lettered := by
  intro v occurs
  rw [Phrase.mem_occurrences, derives.2] at occurs
  obtain ⟨t, mem, ht⟩ := List.mem_map.mp occurs
  exact isUpper_of_ofText h mem ht

-- ---------------------------------------------------------------------------
-- Rendered phrases
-- ---------------------------------------------------------------------------

theorem Phrase.tokens_render {p : Phrase} (wf : p.WellFormed) (lettered : p.formula.Lettered) :
    ∃ tokens, Token.ofText (Symbol.render p.symbols) = .ok tokens ∧
      p.Derives (tokens.map Token.symbol) := by
  have spelled : Spells (Symbol.render p.symbols ++ []) (p.symbols ++ []) :=
    Spells.nil.render lettered (by simp)
  rw [List.append_nil, List.append_nil] at spelled
  obtain ⟨tokens, tokenized, same⟩ := spelled 1
  exact ⟨tokens, tokenized, wf, same.symm⟩

/-- A text that was read is read alike in uniform spacing, and has that spacing then. -/
theorem Parsed.ofText_render {text : List Char} {parsed : Parsed} (h : ofText text = .ok parsed) :
    ∃ again, ofText (Token.render parsed.tokens) = .ok again ∧ again.root = parsed.root ∧
      again.groups = parsed.groups ∧
      again.tokens.map Token.symbol = parsed.tokens.map Token.symbol := by
  obtain ⟨tokens, p, tokenized, derives, fits, rfl⟩ := ofText_eq_ok.mp h
  have rendered : Token.render tokens = Symbol.render p.symbols := by rw [Token.render, derives.2]
  obtain ⟨others, cut, derives'⟩ :=
    Phrase.tokens_render derives.1 (Token.lettered_of_ofText tokenized derives)
  have read := ofText_eq_ok.mpr ⟨others, p, cut, derives', fits, rfl⟩
  rw [rendered]
  exact ⟨_, read, rfl, rfl, derives'.2.symm.trans derives.2⟩

-- ---------------------------------------------------------------------------
-- Printed formulas
-- ---------------------------------------------------------------------------

namespace Formula

variable {f g : Formula} {text : List Char}

theorem ofText_eq_ok :
    ofText text = .ok f ↔
      ∃ tokens, ∃ p : Phrase, Token.ofText text = .ok tokens ∧
        p.Derives (tokens.map Token.symbol) ∧ p.Fits 0 ∧ p.formula = f := by
  constructor
  · intro h
    obtain ⟨parsed, read, root⟩ := bind_eq_ok.mp h
    obtain ⟨tokens, p, tokenized, derives, fits, rfl⟩ := Parsed.ofText_eq_ok.mp read
    exact ⟨tokens, p, tokenized, derives, fits, Except.ok.inj root⟩
  · rintro ⟨tokens, p, tokenized, derives, fits, rfl⟩
    have read := Parsed.ofText_eq_ok.mpr ⟨tokens, p, tokenized, derives, fits, rfl⟩
    rw [ofText, read, ok_bind]
    rfl

theorem lettered_of_ofText (h : ofText text = .ok f) : f.Lettered ∧ f.height ≤ maxDepth := by
  obtain ⟨tokens, p, tokenized, derives, fits, rfl⟩ := ofText_eq_ok.mp h
  exact ⟨Token.lettered_of_ofText tokenized derives, fits.1⟩

theorem Lettered.isUpper_of_mem_symbols (h : f.Lettered) {v : Char} (mem : .var v ∈ f.symbols) :
    v.isUpper = true := by
  refine h v ?_
  rw [← f.formula_phrase, Phrase.mem_occurrences, symbols_phrase]
  exact mem

theorem tokens_print (h : f.Lettered) :
    ∃ tokens, Token.ofText f.print = .ok tokens ∧ f.phrase.Derives (tokens.map Token.symbol) := by
  have rendered : f.print = Symbol.render f.phrase.symbols := by rw [symbols_phrase, print]
  rw [rendered]
  exact Phrase.tokens_render f.wellFormed_phrase (by rwa [formula_phrase])

theorem parsed_print (lettered : f.Lettered) (low : f.height ≤ maxDepth) :
    ∃ parsed, Parsed.ofText f.print = .ok parsed ∧ parsed.root = f ∧
      Token.render parsed.tokens = f.print := by
  obtain ⟨tokens, tokenized, derives⟩ := tokens_print lettered
  have read := Parsed.ofText_eq_ok.mpr
    ⟨tokens, f.phrase, tokenized, derives, f.fits_phrase.mpr low, rfl⟩
  refine ⟨_, read, f.formula_phrase, ?_⟩
  · rw [Token.render, ← derives.2, symbols_phrase]
    rfl

theorem ofText_print (lettered : f.Lettered) (low : f.height ≤ maxDepth) :
    ofText f.print = .ok f := by
  obtain ⟨parsed, read, root, -⟩ := parsed_print lettered low
  rw [ofText, read, ok_bind, root]
  rfl

theorem print_injective (hf : f.Lettered) (hg : g.Lettered) (h : f.print = g.print) : f = g := by
  obtain ⟨tokens, tokenized, derives⟩ := tokens_print hf
  obtain ⟨tokens', tokenized', derives'⟩ := tokens_print hg
  rw [h, tokenized'] at tokenized
  obtain rfl := Except.ok.inj tokenized
  have same := Phrase.unambiguous derives.1 derives'.1 (derives.2.trans derives'.2.symm)
  rw [← f.formula_phrase, same, g.formula_phrase]

/-- A formula is read back from its print just if its variables are letters and it is no higher than
`maxDepth`; if only the height is wrong the print is too deep. Prints of formulas over letters
differ, however high the formulas are. -/
theorem ofText_toString (f : Formula) :
    (ofText (toString f).toList = .ok f ↔ f.Lettered ∧ f.height ≤ maxDepth) ∧
    (f.Lettered → maxDepth < f.height →
      ∃ position, ofText (toString f).toList = .error (.tooDeep position)) ∧
    (∀ g : Formula, f.Lettered → g.Lettered → toString f = toString g → f = g) := by
  have printed (f : Formula) : (toString f).toList = f.print := String.toList_ofList
  rw [printed]
  refine ⟨⟨lettered_of_ofText, ?_⟩, ?_, ?_⟩
  · rintro ⟨lettered, low⟩
    exact ofText_print lettered low
  · intro lettered high
    obtain ⟨tokens, tokenized, derives⟩ := tokens_print lettered
    have deep : ¬ f.phrase.Fits 0 := by
      rw [fits_phrase]
      omega
    obtain ⟨position, refused⟩ := Parsed.ofTokens_of_not_fits derives deep
    refine ⟨position, ?_⟩
    simp only [ofText, Parsed.ofText, tokenized, ok_bind, refused, error_bind]
  · intro g hf hg same
    refine print_injective hf hg ?_
    rw [← printed, ← printed, same]

end Formula

end Sentential
