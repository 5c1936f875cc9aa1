import Mathlib.Control.Monad.Basic
import Sentential.Proofs.Parentheses
import Sentential.Proofs.Reading.Complete

/-!
# Alternation

Operands and operators take turns. One pass over the tokens, which knows only whose turn it is and
the token before, finds the first token that is out of turn. `Parsed.ofText_alternates`: where the
parentheses are balanced and nothing is too deep, the parser comes to the same result.

The parser is compared with the pass one function at a time. Where it has read an operand it stands
before a token that the pass takes with an operator due, and behind a whole formula that token is no
connective.
-/

namespace Sentential

open Sentential.Symbol (Closes)

-- ---------------------------------------------------------------------------
-- The pass over the tokens
-- ---------------------------------------------------------------------------

namespace Token

def missingOperand : Option Token → SyntaxError
  | some t => .danglingOperator (String.ofList t.spelling) t.position
  | none => .emptyFormula

theorem missingOperand_previous (cur : Cursor) : missingOperand cur.previous = cur.dangling := rfl

mutual

/-- The tokens from one on where an operand is due, `previous` being the one before it. -/
def expectOperand (previous : Option Token) : List Token → Except SyntaxError Unit
  | [] => .error (missingOperand previous)
  | t :: tokens =>
    match t.symbol with
    | .var _ | .const _ => expectOperator tokens
    | .op .not => expectOperand (some t) tokens
    | .opening =>
      if tokens.head?.any (·.symbol == .closing) then .error (.emptyParentheses t.position)
      else expectOperand (some t) tokens
    | .closing => .error (missingOperand previous)
    | .op (.binary _) => .error (.misplacedOperator (String.ofList t.spelling) t.position)

def expectOperator : List Token → Except SyntaxError Unit
  | [] => .ok ()
  | t :: tokens =>
    match t.symbol with
    | .op (.binary _) => expectOperand (some t) tokens
    | .closing => expectOperator tokens
    | .var _ | .const _ | .opening | .op .not => .error (.missingOperator t.position)

end

def checkAlternation (tokens : List Token) : Except SyntaxError Unit := expectOperand none tokens

/-- The error blames the token for what the token is. -/
inductive Faults (t : Token) : SyntaxError → Prop
  | empty : t.symbol = .opening → Faults t (.emptyParentheses t.position)
  | dangling {o : Operator} : t.symbol = .op o →
      Faults t (.danglingOperator (String.ofList t.spelling) t.position)
  | misplaced {c : Connective} : t.symbol = .op (.binary c) →
      Faults t (.misplacedOperator (String.ofList t.spelling) t.position)
  | missing : t.symbol.startsOperand = true → Faults t (.missingOperator t.position)

inductive Due : Option Token → List Token → Prop
  | behind {t : Token} {o : Operator} {tokens : List Token} : t.symbol = .op o →
      Due (some t) tokens
  | here {previous : Option Token} {t : Token} {tokens : List Token} : t.symbol ≠ .closing →
      Due previous (t :: tokens)

variable {t : Token} {tokens : List Token} {opened : Nat} {previous : Option Token}

theorem expectOperator_of_startsOperand (h : t.symbol.startsOperand = true) :
    expectOperator (t :: tokens) = .error (.missingOperator t.position) := by
  rw [expectOperator]
  split <;> simp_all [Symbol.startsOperand]

theorem due_behind_opening (filled : tokens.head?.any (·.symbol == .closing) = false)
    (closes : Closes (opened + 1) (tokens.map symbol)) : Due (some t) tokens := by
  cases tokens with
  | nil => simp at closes
  | cons u tokens => exact .here (by simpa using filled)

mutual

theorem faults_of_expectOperand : ∀ {tokens : List Token} {opened : Nat} {previous : Option Token}
    {e : SyntaxError}, Closes opened (tokens.map symbol) → Due previous tokens →
      expectOperand previous tokens = .error e → ∃ t ∈ previous.toList ++ tokens, t.Faults e
  | [], opened, previous, e, _, due, fault => by
    cases due with
    | @behind t _ _ operator =>
      obtain rfl : missingOperand (some t) = e := by simpa [expectOperand] using fault
      exact ⟨t, by simp, .dangling operator⟩
  | u :: tokens, opened, previous, e, closes, due, fault => by
    have inside : (∃ t ∈ u :: tokens, t.Faults e) → ∃ t ∈ previous.toList ++ u :: tokens, t.Faults e
      | ⟨t, mem, faults⟩ => ⟨t, List.mem_append_right _ mem, faults⟩
    have later : (∃ t ∈ tokens, t.Faults e) → ∃ t ∈ previous.toList ++ u :: tokens, t.Faults e
      | ⟨t, mem, faults⟩ => inside ⟨t, .tail u mem, faults⟩
    rw [List.map_cons] at closes
    rw [expectOperand] at fault
    split at fault
    next v hu =>
      rw [hu, Symbol.closes_var] at closes
      exact later (faults_of_expectOperator closes fault)
    next b hu =>
      rw [hu, Symbol.closes_const] at closes
      exact later (faults_of_expectOperator closes fault)
    next hu =>
      rw [hu, Symbol.closes_op] at closes
      exact inside (faults_of_expectOperand closes (.behind hu) fault)
    next hu =>
      rw [hu, Symbol.closes_opening] at closes
      split at fault
      · obtain rfl := Except.error.inj fault
        exact inside ⟨u, .head tokens, .empty hu⟩
      next filled =>
        have due : Due (some u) tokens := due_behind_opening (by simpa using filled) closes
        exact inside (faults_of_expectOperand closes due fault)
    next hu =>
      obtain rfl := Except.error.inj fault
      cases due with
      | @behind t _ _ operator => exact ⟨t, by simp, .dangling operator⟩
      | here other => exact absurd hu other
    next c hu =>
      obtain rfl := Except.error.inj fault
      exact inside ⟨u, .head tokens, .misplaced hu⟩

theorem faults_of_expectOperator : ∀ {tokens : List Token} {opened : Nat} {e : SyntaxError},
    Closes opened (tokens.map symbol) → expectOperator tokens = .error e →
      ∃ t ∈ tokens, t.Faults e
  | [], opened, e, _, fault => by simp [expectOperator] at fault
  | u :: tokens, opened, e, closes, fault => by
    by_cases starts : u.symbol.startsOperand = true
    · rw [expectOperator_of_startsOperand starts] at fault
      obtain rfl := Except.error.inj fault
      exact ⟨u, .head tokens, .missing starts⟩
    rw [List.map_cons] at closes
    rw [expectOperator] at fault
    split at fault
    next c hu =>
      rw [hu, Symbol.closes_op] at closes
      exact faults_of_expectOperand closes (.behind hu) fault
    next hu =>
      rw [hu] at closes
      cases opened with
      | zero => simp at closes
      | succ opened =>
        obtain ⟨t, mem, faults⟩ := faults_of_expectOperator (Symbol.closes_closing.mp closes) fault
        exact ⟨t, .tail u mem, faults⟩
    all_goals simp_all [Symbol.startsOperand]

end

end Token

-- ---------------------------------------------------------------------------
-- What a parser leaves
-- ---------------------------------------------------------------------------

namespace Parser

open Token (expectOperand expectOperator)

variable {operand : Parser} {c : Connective}

/-- Behind what it reads the parser leaves nothing that it goes on with. -/
def Exhaustive (parser : Parser) (level : Nat) : Prop :=
  ∀ ⦃cur next : Cursor⦄ ⦃result : Operand⦄, parser cur = .ok (result, next) →
    Stops level next.symbols

theorem chain_exhaustive (h : Exhaustive operand (c.level + 1)) {left result : Operand}
    {cur next : Cursor} (before : Stops (c.level + 1) cur.symbols)
    (read : chain c operand left cur = .ok (result, next)) : Stops c.level next.symbols := by
  -- The connective itself would have been the next link.
  have tighten {rest : List Symbol} (stops : Stops (c.level + 1) rest)
      (other : rest.head? ≠ some (.op (.binary c))) : Stops c.level rest := by
    intro d here
    have near := stops d here
    have apart : d.level ≠ c.level := by
      intro same
      exact other (Connective.level_injective same ▸ here)
    omega
  fun_induction chain c operand left cur with
  | case1 left cur ended =>
    obtain ⟨-, rfl⟩ : left = result ∧ cur = next := by simpa using read
    exact tighten before (by simp [Cursor.symbols_eq_nil ended])
  | case2 => simp at read
  | case3 left cur t behind hnext link right after inner height low ih => exact ih (h inner) read
  | case4 => simp at read
  | case5 left cur t behind hnext other =>
    obtain ⟨-, rfl⟩ : left = result ∧ cur = next := by simpa using read
    exact tighten before (by simpa [(Cursor.symbols_of_next? hnext).1] using other)

theorem chains_exhaustive {tighter : List Connective}
    (h : Exhaustive (chains operand tighter) (c.level + 1)) :
    Exhaustive (chains operand (c :: tighter)) c.level := by
  intro cur next result read
  obtain ⟨⟨left, behind⟩, first, read⟩ := bind_eq_ok.mp read
  exact chain_exhaustive h (h first) read

theorem all_exhaustive (operand : Parser) : Exhaustive (chains operand Connective.all) 1 :=
  have tightest : Exhaustive operand 6 := fun _ _ _ _ c _ => c.level_lt_six
  chains_exhaustive (c := .iff) <| chains_exhaustive (c := .implies) <|
    chains_exhaustive (c := .xor) <| chains_exhaustive (c := .or) <|
      chains_exhaustive (c := .and) tightest

theorem formula_exhaustive (room : Nat) : Exhaustive (formula room) 1 := by
  cases room <;> exact all_exhaustive _

theorem not_binary_of_stops {cur next : Cursor} {t : Token} (h : Stops 1 cur.symbols)
    (hnext : cur.next? = some (t, next)) (c : Connective) : t.symbol ≠ .op (.binary c) := by
  intro binary
  have loose := h c (by rw [(Cursor.symbols_of_next? hnext).1, binary]; rfl)
  have := c.level_pos
  omega

/-- A token that cannot follow a whole formula is out of turn, unless it closes a parenthesis. -/
theorem expectOperator_unexpected {cur next : Cursor} {t : Token} (h : Stops 1 cur.symbols)
    (hnext : cur.next? = some (t, next)) (closing : t.symbol ≠ .closing) :
    expectOperator cur.rest = .error t.unexpected := by
  have binary := not_binary_of_stops h hnext
  rw [(Cursor.rest_of_next? hnext).1, expectOperator, Token.unexpected]
  split <;> simp_all

-- ---------------------------------------------------------------------------
-- Each parser keeps to the pass
-- ---------------------------------------------------------------------------

/-- What a parser makes of a cursor, where the pass comes to `outcome` from there: it has read an
operand and the pass goes on behind it, or it fails as the pass does, or something is too deep. -/
inductive Agrees (opened : Nat) (outcome : Except SyntaxError Unit) :
    Except SyntaxError (Operand × Cursor) → Prop
  | read {operand : Operand} {next : Cursor} : Closes opened next.symbols →
      outcome = expectOperator next.rest → Agrees opened outcome (.ok (operand, next))
  | fault {e : SyntaxError} : outcome = .error e → Agrees opened outcome (.error e)
  | tooDeep (position : Nat) : Agrees opened outcome (.error (.tooDeep position))

def Alternates (parser : Parser) : Prop :=
  ∀ ⦃opened : Nat⦄ ⦃cur : Cursor⦄, Closes opened cur.symbols →
    Agrees opened (expectOperand cur.previous cur.rest) (parser cur)

def GroupAlternates (group : Token → Parser) : Prop :=
  ∀ ⦃opened : Nat⦄ ⦃t : Token⦄ ⦃cur next : Cursor⦄, Closes opened cur.symbols →
    cur.next? = some (t, next) → t.symbol = .opening →
      Agrees opened (expectOperand cur.previous cur.rest) (group t next)

variable {opened inner : Nat} {outcome : Except SyntaxError Unit}

theorem Agrees.bind {x : Except SyntaxError (Operand × Cursor)}
    {f : Operand × Cursor → Except SyntaxError (Operand × Cursor)} (h : Agrees inner outcome x)
    (hf : ∀ operand next, x = .ok (operand, next) → Closes inner next.symbols →
      Agrees opened (expectOperator next.rest) (f (operand, next))) :
    Agrees opened outcome (x >>= f) := by
  cases h with
  | read closes same =>
    rw [same]
    exact hf _ _ rfl closes
  | fault same => exact .fault same
  | tooDeep position => exact .tooDeep position

theorem full_alternates :
    GroupAlternates (fun opening _ => .error (.tooDeep opening.position)) :=
  fun _ t _ _ _ _ _ => .tooDeep t.position

theorem group_alternates {contents : Parser} (whole : Exhaustive contents 1)
    (h : Alternates contents) (depth : Nat) : GroupAlternates (group depth contents) := by
  intro opened t cur next closes hnext opening
  obtain ⟨hrest, hprevious⟩ := Cursor.rest_of_next? hnext
  rw [(Cursor.symbols_of_next? hnext).1, opening, Symbol.closes_opening] at closes
  simp only [hrest, expectOperand, opening, group, ← hprevious]
  split
  · exact .fault rfl
  refine (h closes).bind fun operand after read closes => ?_
  dsimp only
  cases hafter : after.next? with
  | none =>
    -- The parenthesis that was read is still open.
    rw [Cursor.symbols_eq_nil hafter] at closes
    simp at closes
  | some step =>
    obtain ⟨u, behind⟩ := step
    dsimp only
    split
    next closing =>
      rw [(Cursor.symbols_of_next? hafter).1, closing, Symbol.closes_closing] at closes
      refine .read closes ?_
      simp only [(Cursor.rest_of_next? hafter).1, expectOperator, closing]
    next other => exact .fault (expectOperator_unexpected (whole read) hafter other)

theorem atom_alternates {group : Token → Parser} (h : GroupAlternates group) {cur : Cursor}
    (closes : Closes opened cur.symbols) (head : cur.symbols.head? ≠ some (.op .not)) :
    Agrees opened (expectOperand cur.previous cur.rest) (atom group cur) := by
  unfold atom
  split
  next ended =>
    refine .fault ?_
    rw [Cursor.rest_eq_nil ended, expectOperand, Token.missingOperand_previous]
  next t next hnext =>
    obtain ⟨hrest, -⟩ := Cursor.rest_of_next? hnext
    rw [(Cursor.symbols_of_next? hnext).1] at head
    split
    next v ht =>
      rw [(Cursor.symbols_of_next? hnext).1, ht, Symbol.closes_var] at closes
      refine .read closes ?_
      simp only [hrest, expectOperand, ht]
    next b ht =>
      rw [(Cursor.symbols_of_next? hnext).1, ht, Symbol.closes_const] at closes
      refine .read closes ?_
      simp only [hrest, expectOperand, ht]
    next ht => exact h closes hnext ht
    next ht =>
      refine .fault ?_
      simp only [hrest, expectOperand, ht, Token.missingOperand_previous]
    next o ht =>
      cases o with
      | not => simp [ht] at head
      | binary c =>
        refine .fault ?_
        simp only [hrest, expectOperand, ht]

theorem negated_alternates {group : Token → Parser} (h : GroupAlternates group) :
    Alternates (negated (atom group)) := by
  intro opened cur closes
  generalize hs : cur.symbols = symbols at closes
  induction symbols generalizing cur with
  | nil =>
    have head : cur.symbols.head? ≠ some (.op .not) := by simp [hs]
    rw [negated_of_head head]
    exact atom_alternates h (hs ▸ closes) head
  | cons s symbols ih =>
    by_cases negation : s = .op .not
    · subst negation
      obtain ⟨t, ht, hnext⟩ := Cursor.next?_of_symbols hs
      obtain ⟨hrest, hprevious⟩ := Cursor.rest_of_next? hnext
      rw [negated_not ht hnext]
      simp only [hrest, expectOperand, ht, ← hprevious]
      -- The negation is applied behind its operand, where it changes nothing but the height.
      refine (ih (Cursor.symbols_skip_one hs) (Symbol.closes_op.mp closes)).bind ?_
      intro body next _ closes
      dsimp only
      unfold Operand.negate
      split
      · exact .read closes rfl
      · exact .tooDeep t.position
    · have head : cur.symbols.head? ≠ some (.op .not) := by simpa [hs] using negation
      rw [negated_of_head head]
      exact atom_alternates h (hs ▸ closes) head

theorem chain_alternates (h : Alternates operand) (left : Operand) {cur : Cursor}
    (closes : Closes opened cur.symbols) :
    Agrees opened (expectOperator cur.rest) (chain c operand left cur) := by
  have linked {t : Token} {cur next : Cursor} (hnext : cur.next? = some (t, next))
      (link : t.symbol = .op (.binary c)) (closes : Closes opened cur.symbols) :
      Agrees opened (expectOperator cur.rest) (operand next) := by
    obtain ⟨hrest, hprevious⟩ := Cursor.rest_of_next? hnext
    rw [(Cursor.symbols_of_next? hnext).1, link, Symbol.closes_op] at closes
    simp only [hrest, expectOperator, link, ← hprevious]
    exact h closes
  fun_induction chain c operand left cur with
  | case1 left cur ended => exact .read closes rfl
  | case2 left cur t behind hnext link e failed =>
    have agrees := linked hnext link closes
    rw [failed] at agrees
    cases agrees with
    | fault same => exact .fault same
    | tooDeep position => exact .tooDeep position
  | case3 left cur t behind hnext link right after inner height low ih =>
    have agrees := linked hnext link closes
    rw [inner] at agrees
    cases agrees with
    | read closes same =>
      rw [same]
      exact ih closes
  | case4 left cur t => exact .tooDeep t.position
  | case5 left cur t behind hnext other => exact .read closes rfl

theorem chains_alternates (h : Alternates operand) (connectives : List Connective) :
    Alternates (chains operand connectives) := by
  induction connectives with
  | nil => exact h
  | cons c tighter ih =>
    intro opened cur closes
    exact (ih closes).bind fun left next _ closes => chain_alternates ih left closes

theorem formula_alternates (room : Nat) : Alternates (formula room) := by
  induction room with
  | zero => exact chains_alternates (negated_alternates full_alternates) _
  | succ room ih =>
    have group := group_alternates (formula_exhaustive room) ih (maxDepth - (room + 1))
    exact chains_alternates (negated_alternates group) _

end Parser

namespace Parsed

open Token (checkAlternation)

variable {tokens : List Token}

-- ---------------------------------------------------------------------------
-- Whole texts
-- ---------------------------------------------------------------------------

theorem ofTokens_alternates (filled : tokens ≠ [])
    (balanced : Symbol.Balanced (tokens.map Token.symbol)) :
    (ofTokens tokens).map (fun _ => ()) = checkAlternation tokens ∨
      ∃ position, ofTokens tokens = .error (.tooDeep position) := by
  have nonempty : tokens.isEmpty = false := by simpa using filled
  have closes : Closes 0 (Cursor.start tokens).symbols := balanced
  have agrees := Parser.formula_alternates maxDepth closes
  simp only [ofTokens, nonempty, Token.checkParentheses_eq_ok.mpr balanced, ok_bind]
  generalize result : Parser.formula maxDepth (Cursor.start tokens) = outcome at agrees
  cases agrees with
  | @read operand after closes same =>
    refine .inl ?_
    have whole := Parser.formula_exhaustive maxDepth result
    rw [checkAlternation]
    refine .trans ?_ same.symm
    cases hafter : after.next? with
    | none =>
      rw [Cursor.rest_eq_nil hafter, Token.expectOperator]
      simp only [ok_bind, hafter]
      rfl
    | some step =>
      obtain ⟨u, behind⟩ := step
      have other : u.symbol ≠ .closing := by
        intro closing
        rw [(Cursor.symbols_of_next? hafter).1, closing] at closes
        simp at closes
      rw [Parser.expectOperator_unexpected whole hafter other]
      simp only [ok_bind, hafter]
      rfl
  | fault same => exact .inl same.symm
  | tooDeep position => exact .inr ⟨position, rfl⟩

theorem faults_of_checkAlternation {e : SyntaxError} (filled : tokens ≠ [])
    (balanced : Symbol.Balanced (tokens.map Token.symbol))
    (fault : checkAlternation tokens = .error e) :
    ∃ t ∈ tokens, t.Faults e := by
  have due : Token.Due none tokens := by
    cases tokens with
    | nil => exact absurd rfl filled
    | cons t tokens =>
      refine .here fun closing => ?_
      rw [Symbol.Balanced, List.map_cons, closing] at balanced
      simp at balanced
  exact Token.faults_of_expectOperand balanced due fault

/-- Where the parentheses of a text are balanced, the parser finds it too deep or comes to the same
result as the pass over its tokens. The pass blames a token for what the token is, so neither
parentheses nor the lack of a formula are ever blamed, and no connective comes behind a formula that
has been read. -/
theorem ofText_alternates {text : List Char} (tokenized : Token.ofText text = .ok tokens)
    (filled : tokens ≠ []) (balanced : Symbol.Balanced (tokens.map Token.symbol)) :
    ((∀ position, ofText text ≠ .error (.tooDeep position)) →
      (ofText text).map (fun _ => ()) = checkAlternation tokens) ∧
    (∀ e, checkAlternation tokens = .error e → ∃ t ∈ tokens, t.Faults e) ∧
    (∀ e, ofText text = .error e → e ≠ .emptyFormula ∧
      ∀ position, e ≠ .unmatchedOpening position ∧ e ≠ .unmatchedClosing position) ∧
    ∀ (room : Nat) (cur next behind : Cursor) (operand : Operand) (t : Token),
      Parser.formula room cur = .ok (operand, next) → next.next? = some (t, behind) →
        ∀ c, t.symbol ≠ .op (.binary c) := by
  have read : ofText text = ofTokens tokens := by rw [ofText, tokenized, ok_bind]
  rw [read]
  have faults {e : SyntaxError} := faults_of_checkAlternation (e := e) filled balanced
  refine ⟨?_, fun e => faults, ?_, ?_⟩
  · intro shallow
    rcases ofTokens_alternates filled balanced with same | ⟨position, deep⟩
    · exact same
    · exact absurd deep (shallow position)
  · intro e failed
    rcases ofTokens_alternates filled balanced with same | ⟨position, deep⟩
    · rw [failed] at same
      obtain ⟨t, -, blamed⟩ := faults same.symm
      cases blamed <;> simp
    · obtain rfl : e = .tooDeep position := Except.error.inj (failed.symm.trans deep)
      simp
  · intro room cur next behind operand t read hnext
    exact Parser.not_binary_of_stops (Parser.formula_exhaustive room read) hnext

theorem ofText_alternates_dangling :
    (ofText ['(', 'A', ' ', '∧', ')']).map (fun _ => ()) = .error (.danglingOperator "∧" 4) := by
  let tokens : List Token := [⟨.opening, ['('], 1⟩, ⟨.var 'A', ['A'], 2⟩,
    ⟨.op (.binary .and), ['∧'], 4⟩, ⟨.closing, [')'], 5⟩]
  have tokenized : Token.ofText ['(', 'A', ' ', '∧', ')'] = .ok tokens := by decide +kernel
  have balanced : Symbol.Balanced (tokens.map Token.symbol) :=
    Token.checkParentheses_eq_ok.mp (by decide)
  have shallow (position : Nat) :
      ofText ['(', 'A', ' ', '∧', ')'] ≠ .error (.tooDeep position) := by
    have read : ofText ['(', 'A', ' ', '∧', ')'] = .error (.danglingOperator "∧" 4) := by
      decide +kernel
    simp [read]
  rw [(ofText_alternates tokenized (by simp [tokens]) balanced).1 shallow]
  decide

end Parsed

end Sentential
