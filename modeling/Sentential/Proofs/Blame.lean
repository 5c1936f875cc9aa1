import Sentential.Proofs.Depth
import Sentential.Proofs.Lexing

/-!
# What an error points at

Each lexeme bears the place in the text where it begins, and each token the place of its lexeme.
`Parsed.ofText_blames`: the place that an error names is that of a lexeme of the text which is what
the error says of it. A lexeme that no formula can hold is blamed first; no place is named where
there are only blanks.
-/

namespace Sentential

-- ---------------------------------------------------------------------------
-- Where lexemes stand
-- ---------------------------------------------------------------------------

namespace Lexeme

variable {l : Lexeme} {text : List Char}

/-- The lexeme is cut from the text where its position says that it begins. -/
structure StandsIn (l : Lexeme) (text : List Char) : Prop where
  mem : l ∈ ofText text
  filled : l.spelling ≠ []
  spelled : ∃ before behind, text = before ++ l.spelling ++ behind ∧
    l.position = before.length + 1

theorem standsIn_of_mem (mem : l ∈ ofText text) : l.StandsIn text where
  mem := mem
  filled := by
    obtain ⟨rest, opens⟩ := (scanned_scan 1 text).exists_opens mem
    exact opens.ne_nil
  spelled := by
    obtain ⟨before, behind, split⟩ := List.append_of_mem mem
    refine ⟨before.flatMap spelling, behind.flatMap spelling, ?_, ?_⟩
    · have whole := flatMap_spelling_scan 1 text
      rw [← ofText, split] at whole
      simpa using whole.symm
    · rw [position_of_scan split, Nat.add_comm]

theorem forall_kind_eq_blank : (∀ l ∈ ofText text, l.kind = .blank) ↔
    ∀ c ∈ text, Text.isBlank c = true := by
  have whole : (ofText text).flatMap spelling = text := flatMap_spelling_scan 1 text
  constructor
  · intro blanks c mem
    rw [← whole] at mem
    obtain ⟨l, hl, mem⟩ := List.mem_flatMap.mp mem
    obtain ⟨rest, opens⟩ := (scanned_scan 1 text).exists_opens hl
    exact (opens.isBlank (blanks l hl)).1 c mem
  · intro blanks l hl
    by_contra unblank
    obtain ⟨rest, opens⟩ := (scanned_scan 1 text).exists_opens hl
    obtain ⟨c, spelling, spelled⟩ := List.exists_cons_of_ne_nil opens.ne_nil
    have mem : c ∈ text := by
      rw [← whole]
      exact List.mem_flatMap.mpr ⟨l, hl, spelled ▸ List.mem_cons_self⟩
    have solid := opens.solid unblank
    rw [spelled, Text.solid_cons, blanks c mem] at solid
    cases solid

theorem isForeign_iff : l.isForeign = true ↔ l.kind ≠ .blank ∧ l.token? = none := by
  unfold isForeign token?
  cases l.kind <;> simp

/-- The error names the place and the spelling of the lexeme, which is what the error says. -/
inductive Blamed (l : Lexeme) : SyntaxError → Prop
  | invalid : l.kind ≠ .blank → l.token? = none →
      Blamed l (.invalidToken (String.ofList l.spelling) l.position)
  | unmatchedOpening : l.kind = .symbol .opening → Blamed l (.unmatchedOpening l.position)
  | unmatchedClosing : l.kind = .symbol .closing → Blamed l (.unmatchedClosing l.position)
  | missing {s : Symbol} : l.kind = .symbol s → s.startsOperand = true →
      Blamed l (.missingOperator l.position)
  | misplaced {c : Connective} : l.kind = .symbol (.op (.binary c)) →
      Blamed l (.misplacedOperator (String.ofList l.spelling) l.position)
  | dangling {o : Operator} : l.kind = .symbol (.op o) →
      Blamed l (.danglingOperator (String.ofList l.spelling) l.position)
  | empty : l.kind = .symbol .opening → Blamed l (.emptyParentheses l.position)
  | crowded : l.kind = .symbol .opening → Blamed l (.tooDeep l.position)
  | tooHigh {o : Operator} : l.kind = .symbol (.op o) → Blamed l (.tooDeep l.position)

variable {e : SyntaxError}

theorem Blamed.position?_eq (h : l.Blamed e) : e.position? = some l.position := by
  cases h <;> rfl

theorem Blamed.kind_ne (h : l.Blamed e) : l.kind ≠ .blank := by
  cases h with
  | invalid unblank => exact unblank
  | unmatchedOpening kind | unmatchedClosing kind | missing kind | misplaced kind | dangling kind
  | empty kind | crowded kind | tooHigh kind => simp [kind]

end Lexeme

-- ---------------------------------------------------------------------------
-- Which token is blamed
-- ---------------------------------------------------------------------------

namespace Token

variable {tokens : List Token} {t : Token} {e : SyntaxError}

theorem Faults.blamed (h : t.Faults e) : t.lexeme.Blamed e := by
  cases h with
  | empty opening => exact .empty (congrArg LexemeKind.symbol opening)
  | dangling operator => exact .dangling (congrArg LexemeKind.symbol operator)
  | misplaced binary => exact .misplaced (congrArg LexemeKind.symbol binary)
  | missing starts => exact .missing rfl starts

theorem Unmatched.exists_blamed (h : Unmatched tokens e) : ∃ t ∈ tokens, t.lexeme.Blamed e := by
  cases h with
  | @closing before behind t split closing =>
    exact ⟨t, by simp [split], .unmatchedClosing (congrArg LexemeKind.symbol closing)⟩
  | @opening before behind t split opening =>
    exact ⟨t, by simp [split], .unmatchedOpening (congrArg LexemeKind.symbol opening)⟩

theorem Oversteps.mem (h : Oversteps tokens t) : t ∈ tokens := by
  rcases h with ⟨⟨split, -, -⟩⟩ | ⟨⟨split, -⟩, -⟩ | ⟨⟨split, -⟩, -, -⟩
  all_goals simp [split]

theorem Oversteps.blamed (h : Oversteps tokens t) : t.lexeme.Blamed (.tooDeep t.position) := by
  cases h with
  | crowded crowded =>
    obtain ⟨-, opening, -⟩ := crowded
    exact .crowded (congrArg LexemeKind.symbol opening)
  | joins joins =>
    obtain ⟨-, link, -⟩ := joins
    exact .tooHigh (congrArg LexemeKind.symbol link)
  | negates negates =>
    obtain ⟨-, run, -⟩ := negates
    exact .tooHigh (congrArg LexemeKind.symbol (run t (by simp)))

end Token

-- ---------------------------------------------------------------------------
-- What the parser reports
-- ---------------------------------------------------------------------------

namespace Parsed

variable {text : List Char} {tokens : List Token} {e : SyntaxError}

theorem exists_blamed (filled : tokens ≠ []) (failed : ofTokens tokens = .error e) :
    ∃ t ∈ tokens, t.lexeme.Blamed e := by
  by_cases balanced : Symbol.Balanced (tokens.map Token.symbol)
  · rcases ofTokens_alternates filled balanced with same | ⟨position, deep⟩
    · rw [failed] at same
      obtain ⟨t, mem, faults⟩ := faults_of_checkAlternation filled balanced same.symm
      exact ⟨t, mem, faults.blamed⟩
    · obtain ⟨t, oversteps, rfl⟩ := exists_oversteps deep
      obtain rfl := Except.error.inj (failed.symm.trans deep)
      exact ⟨t, oversteps.mem, oversteps.blamed⟩
  · obtain ⟨e', unmatched⟩ := Token.exists_unmatched balanced
    obtain rfl := Except.error.inj (failed.symm.trans (ofTokens_of_unmatched unmatched))
    exact unmatched.exists_blamed

variable {l : Lexeme}

theorem ofText_of_foreign (foreign : (Lexeme.ofText text).find? Lexeme.isForeign = some l) :
    ofText text = .error (.invalidToken (String.ofList l.spelling) l.position) := by
  simp only [ofText, Token.ofText, Token.ofLexemes, foreign, error_bind]

/-- Where no lexeme is foreign, an error is about one of the tokens unless there is none. -/
theorem ofText_of_native (native : (Lexeme.ofText text).find? Lexeme.isForeign = none)
    (failed : ofText text = .error e) :
    (e = .emptyFormula ∧ ∀ l ∈ Lexeme.ofText text, l.kind = .blank) ∨
      ∃ t : Token, t.lexeme ∈ Lexeme.ofText text ∧ t.lexeme.Blamed e := by
  have tokenized : Token.ofText text = .ok ((Lexeme.ofText text).filterMap Lexeme.token?) := by
    simp only [Token.ofText, Token.ofLexemes, native]
  rw [ofText, tokenized, ok_bind] at failed
  by_cases filled : (Lexeme.ofText text).filterMap Lexeme.token? = []
  · refine .inl ⟨?_, fun l mem => ?_⟩
    · rw [filled] at failed
      exact (Except.error.inj failed).symm
    · by_contra unblank
      have known := List.find?_eq_none.mp native l mem
      exact known (Lexeme.isForeign_iff.mpr ⟨unblank, List.filterMap_eq_nil_iff.mp filled l mem⟩)
  · obtain ⟨t, mem, blamed⟩ := exists_blamed filled failed
    exact .inr ⟨t, Token.lexeme_mem_of_ofText tokenized mem, blamed⟩

theorem exists_lexeme_blamed (failed : ofText text = .error e) (filled : e ≠ .emptyFormula) :
    ∃ l ∈ Lexeme.ofText text, l.Blamed e := by
  cases first : (Lexeme.ofText text).find? Lexeme.isForeign with
  | some l =>
    obtain rfl := Except.error.inj (failed.symm.trans (ofText_of_foreign first))
    obtain ⟨unblank, unknown⟩ := Lexeme.isForeign_iff.mp (List.find?_some first)
    exact ⟨l, List.mem_of_find?_eq_some first, .invalid unblank unknown⟩
  | none =>
    rcases ofText_of_native first failed with ⟨rfl, -⟩ | ⟨t, mem, blamed⟩
    · exact absurd rfl filled
    · exact ⟨t.lexeme, mem, blamed⟩

theorem ofText_eq_invalidToken {s : String} {p : Nat} :
    ofText text = .error (.invalidToken s p) ↔
      ∃ l, (Lexeme.ofText text).find? Lexeme.isForeign = some l ∧ String.ofList l.spelling = s ∧
        l.position = p := by
  constructor
  · intro failed
    cases first : (Lexeme.ofText text).find? Lexeme.isForeign with
    | some l =>
      obtain ⟨rfl, rfl⟩ : s = String.ofList l.spelling ∧ p = l.position := by
        simpa [failed] using ofText_of_foreign first
      exact ⟨l, rfl, rfl, rfl⟩
    | none =>
      -- A token is never blamed for being none.
      rcases ofText_of_native first failed with ⟨empty, -⟩ | ⟨t, -, blamed⟩
      · cases empty
      · cases blamed with
        | invalid _ unknown => simp [Token.lexeme, Lexeme.token?] at unknown
  · rintro ⟨l, first, rfl, rfl⟩
    exact ofText_of_foreign first

theorem ofText_eq_emptyFormula :
    ofText text = .error .emptyFormula ↔ ∀ c ∈ text, Text.isBlank c = true := by
  rw [← Lexeme.forall_kind_eq_blank]
  constructor
  · intro failed
    cases first : (Lexeme.ofText text).find? Lexeme.isForeign with
    | some l => simp [ofText_of_foreign first] at failed
    | none =>
      rcases ofText_of_native first failed with ⟨-, blanks⟩ | ⟨t, -, blamed⟩
      · exact blanks
      · cases blamed
  · intro blanks
    have native : (Lexeme.ofText text).find? Lexeme.isForeign = none :=
      List.find?_eq_none.mpr fun l mem => by simp [Lexeme.isForeign, blanks l mem]
    have none_left : (Lexeme.ofText text).filterMap Lexeme.token? = [] :=
      List.filterMap_eq_nil_iff.mpr fun l mem => by simp [Lexeme.token?, blanks l mem]
    simp only [ofText, Token.ofText, Token.ofLexemes, native, none_left, ok_bind]
    rfl

/-- The place that an error names is where a lexeme that is no blank begins, and the lexeme is what
the error says it is, in its own spelling. The first lexeme that no formula can hold is reported
before all else, and only blanks are no formula at all. -/
theorem ofText_blames (text : List Char) :
    (∀ e p, ofText text = .error e → e.position? = some p →
      ∃ l : Lexeme, l.StandsIn text ∧ l.kind ≠ .blank ∧ l.position = p ∧ l.Blamed e) ∧
    (∀ s p, ofText text = .error (.invalidToken s p) ↔
      ∃ l, (Lexeme.ofText text).find? Lexeme.isForeign = some l ∧ String.ofList l.spelling = s ∧
        l.position = p) ∧
    (ofText text = .error .emptyFormula ↔ ∀ c ∈ text, Text.isBlank c = true) := by
  refine ⟨?_, fun s p => ofText_eq_invalidToken, ofText_eq_emptyFormula⟩
  intro e p failed placed
  have filled : e ≠ .emptyFormula := by
    rintro rfl
    cases placed
  obtain ⟨l, mem, blamed⟩ := exists_lexeme_blamed failed filled
  have position : l.position = p := Option.some.inj (blamed.position?_eq.symm.trans placed)
  exact ⟨l, Lexeme.standsIn_of_mem mem, blamed.kind_ne, position, blamed⟩

/-- The word comes behind two other faults, and its place counts characters, not bytes. -/
theorem ofText_blames_word :
    (∃ l : Lexeme, l.StandsIn " ¬A ∧ ∨ B".toList ∧ l.kind ≠ .blank ∧ l.position = 7 ∧
      l.Blamed (.misplacedOperator "∨" 7)) ∧
    ofText "(⊤ ∧∧ xy".toList = .error (.invalidToken "xy" 7) ∧
    ofText "\t ".toList = .error .emptyFormula := by
  have failed : ofText " ¬A ∧ ∨ B".toList = .error (.misplacedOperator "∨" 7) := by
    decide +kernel
  refine ⟨(ofText_blames _).1 _ 7 failed rfl, ?_, ?_⟩
  · exact ((ofText_blames _).2.1 "xy" 7).mpr ⟨⟨.word, ['x', 'y'], 7⟩, by decide +kernel, rfl, rfl⟩
  · have blanks : "\t ".toList.all Text.isBlank = true := by decide +kernel
    exact (ofText_blames _).2.2.mpr (List.all_eq_true.mp blanks)

end Parsed

end Sentential
