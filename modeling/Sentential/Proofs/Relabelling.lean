import Sentential.Parser
import Sentential.Proofs.Lexing

/-!
# Parsing looks at kinds alone

How a lexeme is spelled and where it stands shows in the errors that blame it and nowhere else. So
lexemes may be numbered first, read, and only then be told what their numbers stand for.
-/

namespace Sentential

abbrev Places := Nat → Lexeme

variable {places : Places}

def Lexeme.relabel (places : Places) (l : Lexeme) : Lexeme :=
  ⟨l.kind, (places l.position).spelling, (places l.position).position⟩

def Token.relabel (places : Places) (t : Token) : Token :=
  ⟨t.symbol, (places t.position).spelling, (places t.position).position⟩

namespace SyntaxError

def blame (l : Lexeme) : SyntaxError → SyntaxError
  | .emptyFormula => .emptyFormula
  | .invalidToken .. => .invalidToken (String.ofList l.spelling) l.position
  | .unmatchedOpening _ => .unmatchedOpening l.position
  | .unmatchedClosing _ => .unmatchedClosing l.position
  | .missingOperator _ => .missingOperator l.position
  | .misplacedOperator .. => .misplacedOperator (String.ofList l.spelling) l.position
  | .danglingOperator .. => .danglingOperator (String.ofList l.spelling) l.position
  | .emptyParentheses _ => .emptyParentheses l.position
  | .tooDeep _ => .tooDeep l.position

theorem position?_blame {e : SyntaxError} {k : Nat} (l : Lexeme) (h : e.position? = some k) :
    (e.blame l).position? = some l.position := by
  cases e with
  | emptyFormula => simp [position?] at h
  | _ => rfl

def relabel (places : Places) (e : SyntaxError) : SyntaxError :=
  match e.position? with
  | none => e
  | some k => e.blame (places k)

end SyntaxError

section Results

variable {α β : Type}

def relabelResult (places : Places) (move : α → α) : Except SyntaxError α → Except SyntaxError α
  | .ok a => .ok (move a)
  | .error e => .error (e.relabel places)

theorem relabelResult_bind {move : α → α} {moveOn : β → β} {f g : α → Except SyntaxError β}
    (h : ∀ a, f (move a) = relabelResult places moveOn (g a)) (x : Except SyntaxError α) :
    relabelResult places move x >>= f = relabelResult places moveOn (x >>= g) := by
  cases x with
  | ok a => exact h a
  | error e => rfl

end Results

-- ---------------------------------------------------------------------------
-- Tokens and parentheses
-- ---------------------------------------------------------------------------

namespace Token

@[simp] theorem symbol_relabel (t : Token) : (t.relabel places).symbol = t.symbol := rfl

theorem unexpected_relabel (t : Token) :
    (t.relabel places).unexpected = t.unexpected.relabel places := by
  obtain ⟨symbol, spelling, position⟩ := t
  unfold unexpected
  cases symbol with
  | op o => cases o <;> rfl
  | _ => rfl

theorem ofLexemes_relabel (lexemes : List Lexeme) :
    ofLexemes (lexemes.map (Lexeme.relabel places)) =
      relabelResult places (List.map (relabel places)) (ofLexemes lexemes) := by
  have token (l : Lexeme) : (l.relabel places).token? = l.token?.map (relabel places) := by
    obtain ⟨kind, spelling, position⟩ := l
    cases kind <;> rfl
  have foreign : Lexeme.isForeign ∘ Lexeme.relabel places = Lexeme.isForeign := rfl
  unfold ofLexemes
  rw [List.find?_map, foreign]
  cases lexemes.find? Lexeme.isForeign with
  | some l => rfl
  | none =>
    rw [List.filterMap_map, Option.map_none]
    simp only [relabelResult, List.map_filterMap, Function.comp_def, token]

theorem matchParentheses_relabel (opened : List Nat) (tokens : List Token) :
    matchParentheses (opened.map fun k => (places k).position) (tokens.map (relabel places)) =
      relabelResult places id (matchParentheses opened tokens) := by
  induction tokens generalizing opened with
  | nil =>
    rw [List.map_nil, matchParentheses, matchParentheses, List.getLast?_map]
    cases opened.getLast? <;> rfl
  | cons t tokens ih =>
    obtain ⟨symbol, spelling, position⟩ := t
    cases symbol with
    | opening => exact ih (position :: opened)
    | closing =>
      cases opened with
      | nil => rfl
      | cons k opened => exact ih opened
    | _ => exact ih opened

end Token

-- ---------------------------------------------------------------------------
-- Cursors
-- ---------------------------------------------------------------------------

namespace Cursor

def relabel (places : Places) (cur : Cursor) : Cursor where
  previous := cur.previous.map (Token.relabel places)
  index := cur.index
  rest := cur.rest.map (Token.relabel places)

theorem next?_relabel (cur : Cursor) : (cur.relabel places).next? =
    cur.next?.map fun (t, next) => (t.relabel places, next.relabel places) := by
  obtain ⟨previous, index, rest⟩ := cur
  cases rest <;> rfl

theorem dangling_relabel (cur : Cursor) :
    (cur.relabel places).dangling = cur.dangling.relabel places := by
  obtain ⟨previous, index, rest⟩ := cur
  cases previous <;> rfl

theorem negations_relabel (cur : Cursor) :
    (cur.relabel places).negations = cur.negations.map (Token.relabel places) := by
  rw [negations, relabel, List.takeWhile_map]
  rfl

theorem afterNegations_relabel (cur : Cursor) :
    (cur.relabel places).afterNegations = cur.afterNegations.relabel places := by
  unfold afterNegations
  rw [negations_relabel, List.getLast?_map, List.length_map]
  simp only [relabel, List.dropWhile_map, Option.map_or]
  rfl

end Cursor

-- ---------------------------------------------------------------------------
-- The parser
-- ---------------------------------------------------------------------------

theorem Operand.negate_relabel (operand : Operand) (negation : Token) :
    operand.negate (negation.relabel places) =
      relabelResult places id (operand.negate negation) := by
  unfold negate
  split <;> rfl

theorem Operand.foldlM_negate_relabel (operand : Operand)
    (negations : List Token) : (negations.map (Token.relabel places)).foldlM negate operand =
      relabelResult places id (negations.foldlM negate operand) := by
  induction negations generalizing operand with
  | nil => rfl
  | cons negation negations ih =>
    rw [List.map_cons, List.foldlM_cons, List.foldlM_cons, negate_relabel]
    exact relabelResult_bind ih _

namespace Parser

variable {operand contents : Parser} {depth : Nat}

def moved (places : Places) (read : Operand × Cursor) : Operand × Cursor :=
  (read.1, read.2.relabel places)

def Natural (places : Places) (p : Parser) : Prop :=
  ∀ cur : Cursor, p (cur.relabel places) = relabelResult places (moved places) (p cur)

theorem atom_natural {group : Token → Parser}
    (h : ∀ (t : Token) (cur : Cursor), group (t.relabel places) (cur.relabel places) =
      relabelResult places (moved places) (group t cur)) : Natural places (atom group) := by
  intro cur
  rw [atom, atom, Cursor.next?_relabel, Cursor.dangling_relabel]
  cases cur.next? with
  | none => rfl
  | some step =>
    obtain ⟨⟨symbol, spelling, position⟩, next⟩ := step
    cases symbol with
    | opening => exact h _ next
    | _ => rfl

theorem group_natural (h : Natural places contents) (opening : Token) (cur : Cursor) :
    group depth contents (opening.relabel places) (cur.relabel places) =
      relabelResult places (moved places) (group depth contents opening cur) := by
  have empty : (cur.relabel places).rest.head?.any (·.symbol == .closing) =
      cur.rest.head?.any (·.symbol == .closing) := by
    rw [Cursor.relabel, List.head?_map, Option.any_map]
    rfl
  unfold group
  rw [empty]
  split
  · rfl
  rw [h cur]
  refine relabelResult_bind (fun read => ?_) (contents cur)
  obtain ⟨body, after⟩ := read
  simp only [moved, Cursor.next?_relabel]
  cases after.next? with
  | none => rfl
  | some step =>
    obtain ⟨t, next⟩ := step
    simp only [Option.map_some]
    by_cases closing : t.symbol = .closing
    · simp only [Token.symbol_relabel, closing, if_true]
      rfl
    · simp only [Token.symbol_relabel, closing, if_false, Token.unexpected_relabel]
      rfl

theorem negated_natural (h : Natural places operand) : Natural places (negated operand) := by
  intro cur
  unfold negated
  rw [Cursor.afterNegations_relabel, h]
  refine relabelResult_bind (fun read => ?_) _
  obtain ⟨body, next⟩ := read
  rw [Cursor.negations_relabel, ← List.map_reverse]
  simp only [moved, Operand.foldlM_negate_relabel]
  refine relabelResult_bind (fun operand => ?_) _
  rfl

theorem chain_natural (c : Connective) (h : Natural places operand) (left : Operand)
    (cur : Cursor) : chain c operand left (cur.relabel places) =
      relabelResult places (moved places) (chain c operand left cur) := by
  fun_induction chain c operand left cur with
  | case1 left cur hnext =>
    rw [chain, Cursor.next?_relabel, hnext]
    rfl
  | case2 left cur t next hnext link e hright =>
    have right := (h next).trans (congrArg _ hright)
    rw [chain, Cursor.next?_relabel, hnext]
    simp only [Option.map_some, Token.symbol_relabel, link, if_true, right]
    rfl
  | case3 left cur t next hnext link body after hright height low ih =>
    have right := (h next).trans (congrArg _ hright)
    rw [chain, Cursor.next?_relabel, hnext]
    simp only [Option.map_some, Token.symbol_relabel, link, if_true, right, relabelResult, moved]
    exact (if_pos low).trans ih
  | case4 left cur t next hnext link body after hright height high =>
    have right := (h next).trans (congrArg _ hright)
    rw [chain, Cursor.next?_relabel, hnext]
    simp only [Option.map_some, Token.symbol_relabel, link, if_true, right, relabelResult, moved]
    exact if_neg high
  | case5 left cur t next hnext other =>
    rw [chain, Cursor.next?_relabel, hnext]
    simp only [Option.map_some, Token.symbol_relabel, other, if_false]
    rfl

theorem chains_natural (h : Natural places operand) (connectives : List Connective) :
    Natural places (chains operand connectives) := by
  induction connectives with
  | nil => exact h
  | cons c tighter ih =>
    intro cur
    simp only [chains, ih cur]
    exact relabelResult_bind (fun read => chain_natural c ih read.1 read.2) _

theorem formula_natural (room : Nat) : Natural places (formula room) := by
  induction room with
  | zero => exact chains_natural (negated_natural (atom_natural fun _ _ => rfl)) Connective.all
  | succ room ih =>
    exact chains_natural (negated_natural (atom_natural (group_natural ih))) Connective.all

end Parser

-- ---------------------------------------------------------------------------
-- Texts
-- ---------------------------------------------------------------------------

namespace Lexeme

def solid (text : List Char) : List Lexeme := (ofText text).filter (!·.isBlank)

def numbered (kinds : List LexemeKind) : List Lexeme :=
  kinds.zipIdx.map fun (kind, k) => ⟨kind, [], k⟩

def placesOf (lexemes : List Lexeme) : Places := fun k => lexemes.getD k ⟨.blank, [], 0⟩

theorem map_relabel_numbered (lexemes : List Lexeme) :
    (numbered (lexemes.map kind)).map (relabel (placesOf lexemes)) = lexemes := by
  refine List.ext_getElem? fun k => ?_
  simp only [numbered, List.getElem?_map, List.getElem?_zipIdx]
  cases h : lexemes[k]? with
  | none => rfl
  | some l => simp [relabel, placesOf, List.getD, h]

end Lexeme

namespace Parsed

variable {kinds : List LexemeKind}

def relabel (places : Places) (parsed : Parsed) : Parsed :=
  ⟨parsed.root, parsed.tokens.map (Token.relabel places), parsed.groups⟩

theorem ofTokens_relabel (tokens : List Token) :
    ofTokens (tokens.map (Token.relabel places)) =
      relabelResult places (relabel places) (ofTokens tokens) := by
  unfold ofTokens
  rw [List.isEmpty_map]
  split
  · rfl
  have matched : Token.checkParentheses (tokens.map (Token.relabel places)) = _ :=
    Token.matchParentheses_relabel [] tokens
  rw [matched]
  refine relabelResult_bind (fun _ => ?_) (Token.checkParentheses tokens)
  have start : Cursor.start (tokens.map (Token.relabel places)) =
      (Cursor.start tokens).relabel places := rfl
  rw [start, Parser.formula_natural]
  refine relabelResult_bind (fun read => ?_) _
  obtain ⟨operand, after⟩ := read
  simp only [Parser.moved, Cursor.next?_relabel]
  cases after.next? with
  | none => rfl
  | some step =>
    obtain ⟨t, next⟩ := step
    simp only [Option.map_some, Token.unexpected_relabel]
    rfl

/-- What any text reads as whose lexemes have these kinds, as far as the kinds tell. -/
def ofKinds (kinds : List LexemeKind) : Except SyntaxError Parsed :=
  Token.ofLexemes (Lexeme.numbered kinds) >>= ofTokens

theorem ofLexemes_relabel (lexemes : List Lexeme) :
    Token.ofLexemes (lexemes.map (Lexeme.relabel places)) >>= ofTokens =
      relabelResult places (relabel places) (Token.ofLexemes lexemes >>= ofTokens) := by
  rw [Token.ofLexemes_relabel]
  exact relabelResult_bind ofTokens_relabel _

theorem ofText_eq_ofKinds (text : List Char) :
    let own := Lexeme.placesOf (Lexeme.solid text)
    ofText text =
      relabelResult own (relabel own) (ofKinds ((Lexeme.solid text).map Lexeme.kind)) := by
  intro own
  rw [ofKinds, ← ofLexemes_relabel, Lexeme.map_relabel_numbered, Lexeme.solid,
    Token.ofLexemes_filter]
  rfl

/-- Only numbers of lexemes are blamed: others could stand for anything, and no error changes when
they do. -/
theorem position_lt_of_ofKinds {e : SyntaxError} {k : Nat} (h : ofKinds kinds = .error e)
    (blamed : e.position? = some k) : k < kinds.length := by
  let others : Places := fun j => ⟨.blank, [], if j < kinds.length then j else j + 1⟩
  have same : (Lexeme.numbered kinds).map (Lexeme.relabel others) = Lexeme.numbered kinds := by
    refine List.ext_getElem? fun j => ?_
    simp only [Lexeme.numbered, List.getElem?_map, List.getElem?_zipIdx]
    cases here : kinds[j]? with
    | none => rfl
    | some kind =>
      have inside : j < kinds.length := (List.getElem?_eq_some_iff.mp here).1
      simp [Lexeme.relabel, others, inside]
  have fixed : Token.ofLexemes ((Lexeme.numbered kinds).map (Lexeme.relabel others)) >>= ofTokens =
      _ := ofLexemes_relabel (Lexeme.numbered kinds)
  rw [same, ← ofKinds, h] at fixed
  have fixed : e = SyntaxError.blame (others k) e := by
    simpa [relabelResult, SyntaxError.relabel, blamed] using fixed
  have moved := SyntaxError.position?_blame (others k) blamed
  rw [← fixed, blamed, Option.some.injEq] at moved
  by_cases inside : k < kinds.length
  · exact inside
  · simp [others, inside] at moved

/-- Texts with the same kinds of lexemes read alike: as the same formula with the same groups, or
with the same error, which blames the same lexeme if it blames one. -/
theorem ofText_of_kinds (kinds : List LexemeKind) :
    (∃ root symbols groups, ∀ text, (Lexeme.solid text).map Lexeme.kind = kinds →
      ∃ parsed, ofText text = .ok parsed ∧ parsed.root = root ∧
        parsed.tokens.map Token.symbol = symbols ∧ parsed.groups = groups) ∨
    (∀ text, (Lexeme.solid text).map Lexeme.kind = kinds → ofText text = .error .emptyFormula) ∨
    ∃ (e : SyntaxError) (k : Nat), e ≠ .emptyFormula ∧
      ∀ text, (Lexeme.solid text).map Lexeme.kind = kinds →
        ∃ l, (Lexeme.solid text)[k]? = some l ∧ ofText text = .error (e.blame l) := by
  cases outcome : ofKinds kinds with
  | ok parsed =>
    refine .inl ⟨parsed.root, parsed.tokens.map Token.symbol, parsed.groups, ?_⟩
    rintro text rfl
    rw [ofText_eq_ofKinds, outcome]
    refine ⟨_, rfl, rfl, ?_, rfl⟩
    rw [relabel, List.map_map]
    rfl
  | error e =>
    refine .inr ?_
    cases blamed : e.position? with
    | none =>
      obtain rfl : e = .emptyFormula := by
        cases e <;> simp [SyntaxError.position?] at blamed ⊢
      refine .inl ?_
      rintro text rfl
      rw [ofText_eq_ofKinds, outcome]
      rfl
    | some k =>
      refine .inr ⟨e, k, ?_, ?_⟩
      · rintro rfl
        simp [SyntaxError.position?] at blamed
      rintro text rfl
      have inside := position_lt_of_ofKinds outcome blamed
      rw [List.length_map] at inside
      have here := List.getElem?_eq_getElem inside
      refine ⟨_, here, ?_⟩
      rw [ofText_eq_ofKinds, outcome]
      simp [relabelResult, SyntaxError.relabel, blamed, Lexeme.placesOf, List.getD, here]

end Parsed

end Sentential
