import Mathlib.Data.List.Induction
import Sentential.Proofs.Alternation
import Sentential.Proofs.Pairing

/-!
# Unmatched parentheses

A list of parentheses that is not balanced can be cut in one of two places: at the first parenthesis
that closes none, or, where there is no such one, at the first that no other closes. What stands
before the cut is balanced in both cases, so the check that keeps the open parentheses on a stack
comes to the cut with nothing on it. `Parsed.ofText_unmatched`: the error is about the parenthesis
at the cut, whatever else is wrong.
-/

namespace Sentential

-- ---------------------------------------------------------------------------
-- Where symbols are not balanced
-- ---------------------------------------------------------------------------

namespace Symbol

/-- A beginning of the symbols closes more parentheses than it opens. -/
def Overcloses (symbols : List Symbol) : Prop := ∃ u, u <+: symbols ∧ balance u < 0

/-- The parenthesis that opens at index `j` has no partner. -/
def Partnerless (symbols : List Symbol) (j : Nat) : Prop :=
  symbols[j]? = some .opening ∧ ∀ m, ¬ Partners symbols j m

variable {symbols before behind : List Symbol} {opened j : Nat}

theorem not_overcloses : ¬ Overcloses symbols ↔ ∀ u, u <+: symbols → 0 ≤ balance u := by
  simp only [Overcloses, not_exists, not_and, Int.not_lt]

theorem Overcloses.append (h : Overcloses symbols) (behind : List Symbol) :
    Overcloses (symbols ++ behind) := by
  obtain ⟨u, begins, closed⟩ := h
  exact ⟨u, begins.trans (List.prefix_append _ _), closed⟩

theorem balanced_iff : Balanced symbols ↔ ¬ Overcloses symbols ∧ balance symbols = 0 := by
  simp only [Balanced, Closes, not_overcloses, Int.natCast_zero, Int.zero_add]

theorem overcloses_append_closing (balanced : Balanced before) (behind : List Symbol) :
    Overcloses (before ++ .closing :: behind) := by
  refine ⟨before ++ [.closing], ⟨behind, by simp⟩, ?_⟩
  have even := (balanced_iff.mp balanced).2
  simp only [balance_append, balance]
  omega

theorem exists_closes_of_balance_neg {u : List Symbol} (begins : u <+: symbols)
    (closed : opened + balance u < 0) :
    ∃ inside behind, symbols = inside ++ .closing :: behind ∧ Closes opened inside := by
  induction symbols generalizing opened u with
  | nil =>
    obtain rfl := List.prefix_nil.mp begins
    simp only [balance] at closed
    omega
  | cons s symbols ih =>
    rcases List.prefix_cons_iff.mp begins with rfl | ⟨u, rfl, later⟩
    · simp only [balance] at closed
      omega
    have step (next : Nat) (h : (next : Int) = opened + balance [s]) :
        ∃ inside behind, s :: symbols = inside ++ .closing :: behind ∧ Closes opened inside := by
      have behind := balance_append [s] u
      rw [List.singleton_append] at behind
      obtain ⟨inside, behind, rfl, closes⟩ := @ih next u later (by omega)
      exact ⟨s :: inside, behind, rfl, (closes_cons h).mpr closes⟩
    cases s with
    | opening => exact step (opened + 1) (by simp [balance])
    | closing =>
      cases opened with
      | zero => exact ⟨[], symbols, rfl, closes_nil.mpr rfl⟩
      | succ opened => exact step opened (by simp only [balance]; omega)
    | var | const | op => exact step opened (by simp [balance])

theorem Overcloses.exists_balanced (h : Overcloses symbols) :
    ∃ inside behind, symbols = inside ++ .closing :: behind ∧ Balanced inside := by
  obtain ⟨u, begins, closed⟩ := h
  exact @exists_closes_of_balance_neg symbols 0 u begins (by simpa using closed)

/-- The first parenthesis that stays open: what stands before it is balanced, and what stands
behind it never closes it. -/
theorem exists_unclosed (bounded : ¬ Overcloses symbols) (more : balance symbols ≠ 0) :
    ∃ before behind, symbols = before ++ .opening :: behind ∧ Balanced before ∧
      ¬ Overcloses behind := by
  induction symbols using List.reverseRecOn with
  | nil => simp [balance] at more
  | append_singleton symbols s ih =>
    have total := balance_append symbols [s]
    have nonneg := not_overcloses.mp bounded _ (List.prefix_refl _)
    have bounded' : ¬ Overcloses symbols := fun excess =>
      bounded (excess.append [s])
    by_cases even : balance symbols = 0
    · -- Only an opening parenthesis makes a difference that is allowed here.
      cases s with
      | opening =>
        have balanced : Balanced symbols := balanced_iff.mpr ⟨bounded', even⟩
        exact ⟨symbols, [], rfl, balanced, by simp [not_overcloses, balance]⟩
      | closing =>
        simp only [balance] at total
        omega
      | var | const | op => simp [balance, total, even] at more
    · obtain ⟨before, behind, rfl, balanced, stays⟩ := ih bounded' even
      refine ⟨before, behind ++ [s], by simp, balanced, not_overcloses.mpr fun u begins => ?_⟩
      rcases List.prefix_concat_iff.mp begins with rfl | begins
      · have closed := (balanced_iff.mp balanced).2
        simp only [List.append_assoc, List.cons_append, balance_append, balance] at more nonneg ⊢
        omega
      · exact not_overcloses.mp stays u begins

theorem exists_append_of_getElem? {s : Symbol} (here : symbols[j]? = some s) :
    ∃ before behind, symbols = before ++ s :: behind ∧ j = before.length := by
  obtain ⟨inside, rfl⟩ := List.getElem?_eq_some_iff.mp here
  refine ⟨symbols.take j, symbols.drop (j + 1), ?_, ?_⟩
  · rw [List.getElem_cons_drop, List.take_append_drop]
  · rw [List.length_take]
    omega

theorem not_overcloses_unclosed (balanced : Balanced before) (stays : ¬ Overcloses behind) :
    ¬ Overcloses (before ++ .opening :: behind) := by
  intro excess
  obtain ⟨inside, rest, split, between⟩ := excess.exists_balanced
  rcases append_cons_eq_append_cons split with ⟨-, same, -⟩ | ⟨more, rfl, rfl⟩ | ⟨more, rfl, -⟩
  · cases same
  · refine stays ⟨more, List.prefix_append _ _, ?_⟩
    have opened := (balanced_iff.mp between).2
    have closed := (balanced_iff.mp balanced).2
    simp only [balance_append, balance] at opened
    omega
  · exact not_balanced_append_closing between balanced

theorem exists_partners (balanced : Balanced before) (here : before[j]? = some .opening)
    (behind : List Symbol) : ∃ m, Partners (before ++ behind) j m := by
  obtain ⟨first, rest, rfl, rfl⟩ := exists_append_of_getElem? here
  have opens := balanced.1 first (List.prefix_append _ _)
  have closed := balanced.2
  simp only [balance_append, balance] at opens closed
  have excess : Overcloses rest := ⟨rest, List.prefix_refl _, by omega⟩
  obtain ⟨inside, others, rfl, between⟩ := excess.exists_balanced
  exact ⟨_, first, inside, others ++ behind, by simp, between, rfl, rfl⟩

theorem not_partners_of_not_overcloses (stays : ¬ Overcloses behind) (m : Nat) :
    ¬ Partners (before ++ .opening :: behind) before.length m := by
  rintro ⟨first, inside, others, split, between, same, -⟩
  obtain ⟨-, rest⟩ := List.append_inj split same
  obtain rfl := (List.cons.inj rest).2
  exact stays (overcloses_append_closing between others)

end Symbol

-- ---------------------------------------------------------------------------
-- What the check finds
-- ---------------------------------------------------------------------------

namespace Token

open Sentential.Symbol (Balanced Closes Overcloses Partnerless balance)

variable {tokens before behind : List Token} {t : Token} {opened others : List Nat}

/-- With the token, and not before, more parentheses are closed than opened. -/
def FirstOverclosing (tokens : List Token) (t : Token) : Prop :=
  ∃ before behind, tokens = before ++ t :: behind ∧ ¬ Overcloses (before.map symbol) ∧
    Overcloses ((before ++ [t]).map symbol)

/-- The token opens the leftmost parenthesis that has no partner. -/
def FirstPartnerless (tokens : List Token) (t : Token) : Prop :=
  ∃ before behind, tokens = before ++ t :: behind ∧
    Partnerless (tokens.map symbol) before.length ∧
    ∀ j < before.length, ¬ Partnerless (tokens.map symbol) j

/-- What closes all that is open leaves nothing of it on the stack. -/
theorem matchParentheses_append (closes : Closes opened.length (before.map symbol)) :
    matchParentheses (opened ++ others) (before ++ tokens) = matchParentheses others tokens := by
  induction before generalizing opened with
  | nil =>
    obtain rfl : opened = [] := List.length_eq_zero_iff.mp (by simpa using closes)
    rfl
  | cons t before ih =>
    rw [List.map_cons] at closes
    cases hs : t.symbol with
    | opening =>
      rw [hs, Symbol.closes_opening] at closes
      simpa only [List.cons_append, matchParentheses, hs] using @ih (t.position :: opened) closes
    | closing =>
      rw [hs] at closes
      cases opened with
      | nil => simp at closes
      | cons p opened =>
        rw [List.length_cons, Symbol.closes_closing] at closes
        simpa only [List.cons_append, matchParentheses, hs] using ih closes
    | var | const | op =>
      simp only [hs, Symbol.closes_var, Symbol.closes_const, Symbol.closes_op] at closes
      simpa only [List.cons_append, matchParentheses, hs] using ih closes

theorem matchParentheses_of_balanced (balanced : Balanced (before.map symbol)) :
    matchParentheses others (before ++ tokens) = matchParentheses others tokens :=
  @matchParentheses_append tokens before [] others balanced

/-- The parenthesis at the bottom of the stack is never closed. -/
theorem matchParentheses_concat {p : Nat}
    (stays : ∀ u, u <+: tokens.map symbol → 0 ≤ opened.length + balance u) :
    matchParentheses (opened ++ [p]) tokens = .error (.unmatchedOpening p) := by
  induction tokens generalizing opened with
  | nil => simp [matchParentheses]
  | cons t tokens ih =>
    have next (opened' : List Nat)
        (h : (opened'.length : Int) = opened.length + balance [t.symbol]) :
        matchParentheses (opened' ++ [p]) tokens = .error (.unmatchedOpening p) := by
      refine ih fun u begins => ?_
      have here := stays (t.symbol :: u) (List.cons_prefix_cons.mpr ⟨rfl, begins⟩)
      have split := Symbol.balance_append [t.symbol] u
      rw [List.singleton_append] at split
      omega
    cases hs : t.symbol with
    | opening =>
      simpa only [List.cons_append, matchParentheses, hs] using
        next (t.position :: opened) (by simp [hs, balance])
    | closing =>
      cases opened with
      | nil =>
        have here := stays [t.symbol] (by simp)
        simp [hs, balance] at here
      | cons q opened =>
        simpa only [List.cons_append, matchParentheses, hs] using
          next opened (by simp only [hs, balance, List.length_cons]; omega)
    | var | const | op =>
      simpa only [matchParentheses, hs] using next opened (by simp [hs, balance])

/-- The two places at which a list that is not balanced can be cut. -/
inductive Unmatched (tokens : List Token) : SyntaxError → Prop
  | closing {before behind : List Token} {t : Token} : tokens = before ++ t :: behind →
      t.symbol = .closing → Balanced (before.map symbol) →
        Unmatched tokens (.unmatchedClosing t.position)
  | opening {before behind : List Token} {t : Token} : tokens = before ++ t :: behind →
      t.symbol = .opening → Balanced (before.map symbol) → ¬ Overcloses (behind.map symbol) →
        Unmatched tokens (.unmatchedOpening t.position)

theorem exists_unmatched (unbalanced : ¬ Balanced (tokens.map symbol)) :
    ∃ e, Unmatched tokens e := by
  by_cases excess : Overcloses (tokens.map symbol)
  · obtain ⟨inside, rest, split, balanced⟩ := excess.exists_balanced
    obtain ⟨before, last, rfl, rfl, cut⟩ := List.map_eq_append_iff.mp split
    obtain ⟨t, behind, rfl, closing, -⟩ := List.map_eq_cons_iff.mp cut
    exact ⟨_, .closing rfl closing balanced⟩
  · have more : balance (tokens.map symbol) ≠ 0 := fun even =>
      unbalanced (Symbol.balanced_iff.mpr ⟨excess, even⟩)
    obtain ⟨inside, rest, split, balanced, stays⟩ := Symbol.exists_unclosed excess more
    obtain ⟨before, last, rfl, rfl, cut⟩ := List.map_eq_append_iff.mp split
    obtain ⟨t, behind, rfl, opening, rfl⟩ := List.map_eq_cons_iff.mp cut
    exact ⟨_, .opening rfl opening balanced stays⟩

theorem Unmatched.checkParentheses {e : SyntaxError} (h : Unmatched tokens e) :
    checkParentheses tokens = .error e := by
  cases h with
  | closing split closing balanced =>
    rw [split, Token.checkParentheses, matchParentheses_of_balanced balanced]
    simp only [matchParentheses, closing]
  | opening split opening balanced stays =>
    rw [split, Token.checkParentheses, matchParentheses_of_balanced balanced]
    simp only [matchParentheses, opening]
    refine @matchParentheses_concat _ [] _ fun u begins => ?_
    simpa using Symbol.not_overcloses.mp stays u begins

theorem checkParentheses_eq_error {e : SyntaxError} :
    checkParentheses tokens = .error e ↔ Unmatched tokens e := by
  refine ⟨fun failed => ?_, Unmatched.checkParentheses⟩
  have unbalanced : ¬ Balanced (tokens.map symbol) := fun balanced => by
    simp [checkParentheses_eq_ok.mpr balanced] at failed
  obtain ⟨e', unmatched⟩ := exists_unmatched unbalanced
  rw [unmatched.checkParentheses] at failed
  exact Except.error.inj failed ▸ unmatched

/-- The cut is where the list first closes what is not open, or else where the leftmost parenthesis
without partner opens. -/
theorem Unmatched.place {e : SyntaxError} (h : Unmatched tokens e) :
    (∃ t, FirstOverclosing tokens t ∧ t.symbol = .closing ∧ e = .unmatchedClosing t.position) ∨
      ¬ Overcloses (tokens.map symbol) ∧
        ∃ t, FirstPartnerless tokens t ∧ e = .unmatchedOpening t.position := by
  cases h with
  | @closing before behind t split closing balanced =>
    obtain ⟨bounded, -⟩ := Symbol.balanced_iff.mp balanced
    refine .inl ⟨t, ⟨before, behind, split, bounded, ?_⟩, closing, rfl⟩
    simpa [closing] using Symbol.overcloses_append_closing balanced []
  | @opening before behind t split opening balanced stays =>
    have symbols : tokens.map symbol = before.map symbol ++ .opening :: behind.map symbol := by
      simp [split, opening]
    have lone (m : Nat) : ¬ Symbol.Partners (tokens.map symbol) before.length m := by
      have lone := @Symbol.not_partners_of_not_overcloses (before.map symbol) _ stays m
      rwa [List.length_map, ← symbols] at lone
    refine .inr ⟨?_, t, ⟨before, behind, split, ⟨by simp [split, opening], lone⟩, ?_⟩, rfl⟩
    · rw [symbols]
      exact Symbol.not_overcloses_unclosed balanced stays
    · rintro j inside ⟨here, lone⟩
      have here : (before.map symbol)[j]? = some .opening := by
        rwa [symbols, List.getElem?_append_left (by simpa using inside)] at here
      obtain ⟨m, partners⟩ := Symbol.exists_partners balanced here (.opening :: behind.map symbol)
      exact lone m (symbols ▸ partners)

variable {u : Token}

theorem FirstOverclosing.overcloses (h : FirstOverclosing tokens t) :
    Overcloses (tokens.map symbol) := by
  obtain ⟨before, behind, rfl, -, excess⟩ := h
  simpa using excess.append (behind.map symbol)

theorem FirstOverclosing.unique (ht : FirstOverclosing tokens t)
    (hu : FirstOverclosing tokens u) : t = u := by
  have apart {before m : List Token} {t : Token}
      (excess : Overcloses ((before ++ [t]).map symbol)) :
      Overcloses ((before ++ t :: m).map symbol) := by
    simpa using excess.append (m.map symbol)
  obtain ⟨before, behind, split, bounded, excess⟩ := ht
  obtain ⟨before', behind', split', bounded', excess'⟩ := hu
  rcases append_cons_eq_append_cons (split.symm.trans split') with
    ⟨-, same, -⟩ | ⟨m, rfl, -⟩ | ⟨m, rfl, -⟩
  · exact same
  · exact absurd (apart excess) bounded'
  · exact absurd (apart excess') bounded

theorem FirstPartnerless.unique (ht : FirstPartnerless tokens t)
    (hu : FirstPartnerless tokens u) : t = u := by
  obtain ⟨before, behind, split, lone, first⟩ := ht
  obtain ⟨before', behind', split', lone', first'⟩ := hu
  rcases append_cons_eq_append_cons (split.symm.trans split') with
    ⟨-, same, -⟩ | ⟨m, rfl, -⟩ | ⟨m, rfl, -⟩
  · exact same
  · exact absurd lone (first' _ (by simp))
  · exact absurd lone' (first _ (by simp))

theorem FirstPartnerless.opening (h : FirstPartnerless tokens t) : t.symbol = .opening := by
  obtain ⟨before, behind, rfl, ⟨here, -⟩, -⟩ := h
  simpa using here

theorem FirstPartnerless.not_balanced (h : FirstPartnerless tokens t) :
    ¬ Balanced (tokens.map symbol) := by
  intro balanced
  obtain ⟨before, behind, split, ⟨here, lone⟩, -⟩ := h
  obtain ⟨m, partners⟩ := Symbol.exists_partners balanced here []
  rw [List.append_nil] at partners
  exact lone m partners

end Token

-- ---------------------------------------------------------------------------
-- What the parser reports
-- ---------------------------------------------------------------------------

namespace Parsed

open Sentential.Symbol (Balanced Overcloses balance)
open Token (FirstOverclosing FirstPartnerless Unmatched)

variable {tokens : List Token} {p : Nat} {e : SyntaxError}

theorem ofTokens_of_unmatched (h : Unmatched tokens e) : ofTokens tokens = .error e := by
  have filled : tokens.isEmpty = false := by cases h <;> simp_all
  simp only [ofTokens, filled, h.checkParentheses, error_bind]
  rfl

theorem ofTokens_of_balanced (filled : tokens ≠ []) (balanced : Balanced (tokens.map Token.symbol))
    (p : Nat) : ofTokens tokens ≠ .error (.unmatchedClosing p) ∧
      ofTokens tokens ≠ .error (.unmatchedOpening p) := by
  rcases ofTokens_alternates filled balanced with same | ⟨position, deep⟩
  · have blames {e : SyntaxError} (failed : ofTokens tokens = .error e) :
        ∃ t ∈ tokens, t.Faults e := by
      rw [failed] at same
      exact faults_of_checkAlternation filled balanced same.symm
    constructor
    · intro failed
      obtain ⟨t, -, faults⟩ := blames failed
      cases faults
    · intro failed
      obtain ⟨t, -, faults⟩ := blames failed
      cases faults
  · simp [deep]

theorem ofTokens_of_not_balanced (unbalanced : ¬ Balanced (tokens.map Token.symbol)) :
    (∃ t, FirstOverclosing tokens t ∧ t.symbol = .closing ∧
      ofTokens tokens = .error (.unmatchedClosing t.position)) ∨
    ¬ Overcloses (tokens.map Token.symbol) ∧ ∃ t, FirstPartnerless tokens t ∧
      ofTokens tokens = .error (.unmatchedOpening t.position) := by
  obtain ⟨e, unmatched⟩ := Token.exists_unmatched unbalanced
  rw [ofTokens_of_unmatched unmatched]
  rcases unmatched.place with ⟨t, first, closing, rfl⟩ | ⟨bounded, t, first, rfl⟩
  · exact .inl ⟨t, first, closing, rfl⟩
  · exact .inr ⟨bounded, t, first, rfl⟩

theorem ofTokens_eq_unmatchedClosing (filled : tokens ≠ []) :
    ofTokens tokens = .error (.unmatchedClosing p) ↔
      ∃ t, FirstOverclosing tokens t ∧ t.symbol = .closing ∧ t.position = p := by
  constructor
  · intro failed
    have unbalanced : ¬ Balanced (tokens.map Token.symbol) := fun balanced =>
      (ofTokens_of_balanced filled balanced p).1 failed
    rcases ofTokens_of_not_balanced unbalanced with ⟨t, first, closing, found⟩ | ⟨-, t, -, found⟩
    · exact ⟨t, first, closing, by simpa [failed] using found.symm⟩
    · simp [failed] at found
  · rintro ⟨t, first, -, rfl⟩
    have unbalanced : ¬ Balanced (tokens.map Token.symbol) := fun balanced =>
      (Symbol.balanced_iff.mp balanced).1 first.overcloses
    rcases ofTokens_of_not_balanced unbalanced with ⟨u, first', -, found⟩ | ⟨bounded, -⟩
    · rw [found, first.unique first']
    · exact absurd first.overcloses bounded

theorem ofTokens_eq_unmatchedOpening (filled : tokens ≠ [])
    (bounded : ¬ Overcloses (tokens.map Token.symbol)) :
    ofTokens tokens = .error (.unmatchedOpening p) ↔
      ∃ t, FirstPartnerless tokens t ∧ t.symbol = .opening ∧ t.position = p := by
  constructor
  · intro failed
    have unbalanced : ¬ Balanced (tokens.map Token.symbol) := fun balanced =>
      (ofTokens_of_balanced filled balanced p).2 failed
    rcases ofTokens_of_not_balanced unbalanced with ⟨t, -, -, found⟩ | ⟨-, t, first, found⟩
    · simp [failed] at found
    · exact ⟨t, first, first.opening, by simpa [failed] using found.symm⟩
  · rintro ⟨t, first, -, rfl⟩
    rcases ofTokens_of_not_balanced first.not_balanced with ⟨u, excess, -⟩ | ⟨-, u, first', found⟩
    · exact absurd excess.overcloses bounded
    · rw [found, first.unique first']

theorem exists_unmatchedClosing (filled : tokens ≠ []) :
    (∃ p, ofTokens tokens = .error (.unmatchedClosing p)) ↔
      Overcloses (tokens.map Token.symbol) := by
  simp only [ofTokens_eq_unmatchedClosing filled]
  constructor
  · rintro ⟨p, t, first, -⟩
    exact first.overcloses
  · intro excess
    have unbalanced : ¬ Balanced (tokens.map Token.symbol) := fun balanced =>
      (Symbol.balanced_iff.mp balanced).1 excess
    rcases ofTokens_of_not_balanced unbalanced with ⟨t, first, closing, -⟩ | ⟨bounded, -⟩
    · exact ⟨_, t, first, closing, rfl⟩
    · exact absurd excess bounded

theorem exists_unmatchedOpening (filled : tokens ≠ [])
    (bounded : ¬ Overcloses (tokens.map Token.symbol)) :
    (∃ p, ofTokens tokens = .error (.unmatchedOpening p)) ↔
      0 < balance (tokens.map Token.symbol) := by
  have nonneg := Symbol.not_overcloses.mp bounded _ (List.prefix_refl _)
  constructor
  · rintro ⟨p, failed⟩
    have odd : balance (tokens.map Token.symbol) ≠ 0 := fun even =>
      (ofTokens_of_balanced filled (Symbol.balanced_iff.mpr ⟨bounded, even⟩) p).2 failed
    omega
  · intro more
    have unbalanced : ¬ Balanced (tokens.map Token.symbol) := fun balanced => by
      have := (Symbol.balanced_iff.mp balanced).2
      omega
    rcases ofTokens_of_not_balanced unbalanced with ⟨t, first, -⟩ | ⟨-, t, -, found⟩
    · exact absurd first.overcloses bounded
    · exact ⟨_, found⟩

/-- A text is reported to close a parenthesis that is not open just if a beginning of its tokens
closes more than it opens, and otherwise to leave one open just if all of them open more than they
close. The error stands at the first token with which more are closed, or at the leftmost
parenthesis that opens and has no partner. Both come before all other errors, and neither comes
where the parentheses are balanced. -/
theorem ofText_unmatched {text : List Char} (tokenized : Token.ofText text = .ok tokens)
    (filled : tokens ≠ []) :
    (∀ p, ofText text = .error (.unmatchedClosing p) ↔
      ∃ t, FirstOverclosing tokens t ∧ t.symbol = .closing ∧ t.position = p) ∧
    ((∃ p, ofText text = .error (.unmatchedClosing p)) ↔ Overcloses (tokens.map Token.symbol)) ∧
    (¬ Overcloses (tokens.map Token.symbol) →
      (∀ p, ofText text = .error (.unmatchedOpening p) ↔
        ∃ t, FirstPartnerless tokens t ∧ t.symbol = .opening ∧ t.position = p) ∧
      ((∃ p, ofText text = .error (.unmatchedOpening p)) ↔
        0 < balance (tokens.map Token.symbol))) ∧
    (¬ Balanced (tokens.map Token.symbol) → ∃ p, ofText text = .error (.unmatchedClosing p) ∨
      ofText text = .error (.unmatchedOpening p)) ∧
    (Balanced (tokens.map Token.symbol) → ∀ p, ofText text ≠ .error (.unmatchedClosing p) ∧
      ofText text ≠ .error (.unmatchedOpening p)) := by
  have read : ofText text = ofTokens tokens := by rw [ofText, tokenized, ok_bind]
  rw [read]
  refine ⟨fun p => ofTokens_eq_unmatchedClosing filled, exists_unmatchedClosing filled, ?_, ?_,
    ofTokens_of_balanced filled⟩
  · intro bounded
    exact ⟨fun p => ofTokens_eq_unmatchedOpening filled bounded,
      exists_unmatchedOpening filled bounded⟩
  · intro unbalanced
    rcases ofTokens_of_not_balanced unbalanced with ⟨t, -, -, found⟩ | ⟨-, t, -, found⟩
    · exact ⟨_, .inl found⟩
    · exact ⟨_, .inr found⟩

theorem ofText_unmatched_fourth :
    ∃ tokens, Token.ofText "&()((A)".toList = .ok tokens ∧
      ∃ t, FirstPartnerless tokens t ∧ t.symbol = .opening ∧ t.position = 4 := by
  let tokens : List Token := [⟨.op (.binary .and), ['&'], 1⟩, ⟨.opening, ['('], 2⟩,
    ⟨.closing, [')'], 3⟩, ⟨.opening, ['('], 4⟩, ⟨.opening, ['('], 5⟩, ⟨.var 'A', ['A'], 6⟩,
    ⟨.closing, [')'], 7⟩]
  have tokenized : Token.ofText "&()((A)".toList = .ok tokens := by decide +kernel
  have failed : ofText "&()((A)".toList = .error (.unmatchedOpening 4) := by decide +kernel
  obtain ⟨-, excess, first, -⟩ := ofText_unmatched tokenized (by simp [tokens])
  have bounded : ¬ Overcloses (tokens.map Token.symbol) := by
    rw [← excess, failed]
    simp
  exact ⟨tokens, tokenized, ((first bounded).1 4).mp failed⟩

end Parsed

end Sentential
