import Mathlib.Logic.Function.Iterate
import Sentential.Proofs.Reading.Levels
import Sentential.Proofs.Unmatched

/-!
# How deep a text is

The parser keeps the height of each operand beside it and counts the parentheses that are open.
`Parsed.depth_exact`: the heights are those of the formulas and within the limit, and a text is
found to be too deep at a token that oversteps a limit by one, be it a parenthesis that opens or the
operator of a tree that would be too high.
-/

namespace Sentential

open Sentential.Symbol (balance)

-- ---------------------------------------------------------------------------
-- Heights that are kept
-- ---------------------------------------------------------------------------

namespace Operand

structure Exact (operand : Operand) : Prop where
  height_eq : operand.height = operand.formula.height
  height_le : operand.height ≤ maxDepth

def link (c : Connective) (left right : Operand) : Operand :=
  ⟨.binary c left.formula right.formula, max left.height right.height + 1,
    left.groups ++ right.groups⟩

variable {operand result : Operand} {t : Token}

theorem Exact.negate (h : operand.Exact) (negated : operand.negate t = .ok result) :
    result.Exact := by
  unfold Operand.negate at negated
  split at negated
  next low =>
    obtain rfl := Except.ok.inj negated
    exact ⟨by simp only [Formula.height, h.height_eq], low⟩
  next => cases negated

theorem Exact.foldlM_negate {negations : List Token} (h : operand.Exact)
    (negated : negations.foldlM Operand.negate operand = .ok result) : result.Exact := by
  induction negations generalizing operand with
  | nil =>
    obtain rfl : operand = result := Except.ok.inj negated
    exact h
  | cons t negations ih =>
    obtain ⟨body, inner, outer⟩ := bind_eq_ok.mp negated
    exact ih (h.negate inner) outer

theorem Exact.link {c : Connective} {left right : Operand} (hl : left.Exact) (hr : right.Exact)
    (low : max left.height right.height + 1 ≤ maxDepth) : (link c left right).Exact where
  height_eq := by simp only [Operand.link, Formula.height, hl.height_eq, hr.height_eq]
  height_le := low

/-- A run of negations is too deep at the one whose body has the largest height there may be. -/
theorem exists_of_foldlM_negate {negations : List Token} {p : Nat}
    (low : operand.height ≤ maxDepth)
    (deep : negations.foldlM Operand.negate operand = .error (.tooDeep p)) :
    ∃ inner t outer, negations = inner ++ t :: outer ∧ inner.length + operand.height = maxDepth ∧
      t.position = p := by
  induction negations generalizing operand with
  | nil => cases deep
  | cons t negations ih =>
    rw [List.foldlM_cons, Operand.negate] at deep
    split at deep
    next lower =>
      let body : Operand := ⟨.not operand.formula, operand.height + 1, operand.groups⟩
      obtain ⟨inner, u, outer, rfl, length, position⟩ := @ih body lower deep
      refine ⟨t :: inner, u, outer, rfl, ?_, position⟩
      simp only [body, List.length_cons] at length ⊢
      omega
    next high =>
      obtain rfl : t.position = p := by simpa using deep
      refine ⟨[], t, negations, rfl, ?_, rfl⟩
      simp only [List.length_nil]
      omega

end Operand

namespace Parser

variable {operand : Parser} {c : Connective} {room depth : Nat}

theorem Takes.exact {level : Nat} {p : Phrase} {cur next : Cursor} {result : Operand}
    (h : Takes level depth p cur next result) : result.Exact := by
  rw [h.operand_eq]
  exact ⟨rfl, h.fits.1⟩

inductive Linked (c : Connective) (operand : Parser) : Operand → Cursor → Operand → Cursor → Prop
  | refl {left : Operand} {cur : Cursor} : Linked c operand left cur left cur
  | link {left right last : Operand} {cur behind next final : Cursor} {t : Token} :
      cur.next? = some (t, behind) → t.symbol = .op (.binary c) →
      operand behind = .ok (right, next) → max left.height right.height + 1 ≤ maxDepth →
      Linked c operand (left.link c right) next last final → Linked c operand left cur last final

/-- What comes of a chain whose loop has no whole link any more. -/
inductive Ends (c : Connective) (operand : Parser) (left : Operand) (cur : Cursor) :
    Except SyntaxError (Operand × Cursor) → Prop
  | stop : Ends c operand left cur (.ok (left, cur))
  | fault {t : Token} {behind : Cursor} {e : SyntaxError} : cur.next? = some (t, behind) →
      t.symbol = .op (.binary c) → operand behind = .error e → Ends c operand left cur (.error e)
  | tooDeep {t : Token} {behind next : Cursor} {right : Operand} : cur.next? = some (t, behind) →
      t.symbol = .op (.binary c) → operand behind = .ok (right, next) →
      maxDepth < max left.height right.height + 1 →
      Ends c operand left cur (.error (.tooDeep t.position))

theorem chain_linked (c : Connective) (operand : Parser) (left : Operand) (cur : Cursor) :
    ∃ last final, Linked c operand left cur last final ∧
      Ends c operand last final (chain c operand left cur) := by
  fun_induction chain c operand left cur with
  | case1 left cur ended => exact ⟨left, cur, .refl, .stop⟩
  | case2 left cur t behind hnext link e failed =>
    exact ⟨left, cur, .refl, .fault hnext link failed⟩
  | case3 left cur t behind hnext link right next inner height low ih =>
    obtain ⟨last, final, linked, ends⟩ := ih
    exact ⟨last, final, .link hnext link inner low linked, ends⟩
  | case4 left cur t behind hnext link right next inner height high =>
    exact ⟨left, cur, .refl, .tooDeep hnext link inner (Nat.lt_of_not_le high)⟩
  | case5 left cur t behind hnext other => exact ⟨left, cur, .refl, .stop⟩

theorem Linked.exact {left last : Operand} {cur final : Cursor}
    (operands : ∀ cur right next, operand cur = .ok (right, next) → right.Exact)
    (h : Linked c operand left cur last final) (first : left.Exact) : last.Exact := by
  induction h with
  | refl => exact first
  | link _ _ read low _ ih => exact ih (first.link (operands _ _ _ read) low)

/-- An operand that the parser has in hand at some time: what stands behind a run of negations, with
some of them applied, or what stands on the left in a chain, with some links made. -/
inductive Held : Operand → Prop
  | negated {room : Nat} {cur next : Cursor} {body operand : Operand} {applied : List Token} :
      room ≤ maxDepth → atomIn room cur.afterNegations = .ok (body, next) →
      applied <+: cur.negations.reverse → applied.foldlM Operand.negate body = .ok operand →
      Held operand
  | linked {room : Nat} {cur next final : Cursor} {first left : Operand} {c : Connective}
      {tighter : List Connective} : room ≤ maxDepth → c :: tighter <:+ Connective.all →
      chainsIn room tighter cur = .ok (first, next) →
      Linked c (chainsIn room tighter) first next left final → Held left

theorem held_of_chainsIn {connectives : List Connective} {cur next : Cursor} {result : Operand}
    (h : room ≤ maxDepth) (levels : connectives <:+ Connective.all)
    (read : chainsIn room connectives cur = .ok (result, next)) : Held result := by
  cases connectives with
  | nil =>
    obtain ⟨⟨body, behind⟩, inner, read⟩ := bind_eq_ok.mp read
    obtain ⟨whole, outer, read⟩ := bind_eq_ok.mp read
    obtain ⟨rfl, -⟩ := Prod.mk.inj (Except.ok.inj read)
    exact .negated h inner (List.prefix_refl _) outer
  | cons c tighter =>
    obtain ⟨⟨first, behind⟩, inner, read⟩ := bind_eq_ok.mp read
    obtain ⟨last, final, linked, ends⟩ := chain_linked c (chainsIn room tighter) first behind
    change chain c (chainsIn room tighter) first behind = .ok (result, next) at read
    rw [read] at ends
    cases ends with
    | stop => exact .linked h levels inner linked

theorem Held.exact {result : Operand} (h : Held result) : result.Exact := by
  cases h with
  | @negated room cur next body operand applied room_le read _ negated =>
    obtain ⟨p, takes⟩ := (atomIn_reads (Nat.sub_add_cancel room_le)).of_ok read
    exact takes.exact.foldlM_negate negated
  | @linked room cur next final first left c tighter room_le levels read linked =>
    have reads := chainsIn_reads (Nat.sub_add_cancel room_le)
      ((List.suffix_cons c tighter).trans levels)
    have operands (cur : Cursor) (right : Operand) (next : Cursor)
        (read : chainsIn room tighter cur = .ok (right, next)) : right.Exact := by
      obtain ⟨p, takes⟩ := reads.of_ok read
      exact takes.exact
    exact linked.exact operands (operands _ _ _ read)

end Parser

-- ---------------------------------------------------------------------------
-- The token that oversteps a limit
-- ---------------------------------------------------------------------------

theorem Formula.height_iterate_not (k : Nat) (f : Formula) : (not^[k] f).height = k + f.height := by
  induction k with
  | zero => simp
  | succ k ih =>
    rw [Function.iterate_succ_apply', height, ih]
    omega

def Parser.Starts (level : Nat) (before : List Symbol) : Prop :=
  ∀ s, before.getLast? = some s → s = .opening ∨ ∃ c, s = .op (.binary c) ∧ c.level < level

namespace Token

open Sentential.Parser (Starts Stops)

/-- As many parentheses as may be are open before the one that the token opens. -/
inductive Crowded (tokens : List Token) (t : Token) : Prop
  | intro {before behind : List Token} : tokens = before ++ t :: behind → t.symbol = .opening →
      balance (before.map symbol) = maxDepth → Crowded tokens t

/-- The token is the connective between two phrases, neither of which goes on on the far side. -/
inductive Joins (tokens : List Token) (t : Token) (c : Connective) : Formula → Formula → Prop
  | intro {before left right behind : List Token} {l r : Phrase} :
      tokens = before ++ (left ++ t :: right) ++ behind → t.symbol = .op (.binary c) →
      l.Derives (left.map symbol) → r.Derives (right.map symbol) →
      (Phrase.binary c l r).WellFormed → Starts c.level (before.map symbol) →
      Stops (c.level + 1) (behind.map symbol) → Joins tokens t c l.formula r.formula

/-- The token is the `k`-th negation before an atom or a phrase in parentheses, counted from there,
and no negation stands before the run. -/
inductive Negates (tokens : List Token) (t : Token) : (k : Nat) → Formula → Prop
  | intro {before outer inner body behind : List Token} {q : Phrase} :
      tokens = before ++ (outer ++ t :: inner) ++ body ++ behind →
      (∀ n ∈ outer ++ t :: inner, n.symbol = .op .not) → Starts 6 (before.map symbol) →
      q.Derives (body.map symbol) → 7 ≤ q.level → Negates tokens t (inner.length + 1) q.formula

/-- The token is one more than a limit allows: of the formulas that are to be operands none is too
high, and the one that the operator makes of them is too high by one. -/
inductive Oversteps (tokens : List Token) (t : Token) : Prop
  | crowded : Crowded tokens t → Oversteps tokens t
  | joins {c : Connective} {f g : Formula} : Joins tokens t c f g →
      max f.height g.height = maxDepth → Oversteps tokens t
  | negates {k : Nat} {f : Formula} : Negates tokens t k f → f.height ≤ maxDepth →
      k + f.height = maxDepth + 1 → Oversteps tokens t

theorem balance_negations {run : List Token} (h : ∀ n ∈ run, n.symbol = .op .not) :
    balance (run.map symbol) = 0 := by
  induction run with
  | nil => rfl
  | cons t run ih =>
    obtain ⟨negation, others⟩ := List.forall_mem_cons.mp h
    simpa only [List.map_cons, negation, balance] using ih others

theorem unexpected_ne_tooDeep (t : Token) (p : Nat) : t.unexpected ≠ .tooDeep p := by
  unfold unexpected
  split <;> simp

end Token

theorem Cursor.dangling_ne_tooDeep (cur : Cursor) (p : Nat) : cur.dangling ≠ .tooDeep p := by
  unfold dangling
  split <;> simp

namespace Parser

open Token (Oversteps)

variable {depth room : Nat}

theorem starts_concat {level : Nat} {before : List Symbol} {s : Symbol} :
    Starts level (before ++ [s]) ↔ s = .opening ∨ ∃ c, s = .op (.binary c) ∧ c.level < level := by
  simp [Starts]

theorem Starts.mono {level tighter : Nat} {before : List Symbol} (h : Starts level before)
    (le : level ≤ tighter) : Starts tighter before := by
  intro s last
  rcases h s last with opening | ⟨c, link, loose⟩
  · exact .inl opening
  · exact .inr ⟨c, link, Nat.lt_of_lt_of_le loose le⟩

/-- Where the parser finds the tokens too deep behind what has been read, with `depth` parentheses
open, one of them oversteps a limit. -/
def Deepens (before : List Symbol → Prop) (depth : Nat) (parser : Parser) : Prop :=
  ∀ ⦃tokens read : List Token⦄ ⦃cur : Cursor⦄ ⦃p : Nat⦄, tokens = read ++ cur.rest →
    balance (read.map Token.symbol) = depth → before (read.map Token.symbol) →
    parser cur = .error (.tooDeep p) → ∃ t, Oversteps tokens t ∧ t.position = p

def GroupDeepens (depth : Nat) (group : Token → Parser) : Prop :=
  ∀ ⦃tokens read : List Token⦄ ⦃t : Token⦄ ⦃cur : Cursor⦄ ⦃p : Nat⦄,
    tokens = read ++ t :: cur.rest → t.symbol = .opening →
    balance (read.map Token.symbol) = depth → group t cur = .error (.tooDeep p) →
    ∃ t, Oversteps tokens t ∧ t.position = p

theorem atomIn_deepens (h : GroupDeepens depth (groupIn room)) :
    Deepens (fun _ => True) depth (atomIn room) := by
  intro tokens read cur p split opened _ deep
  unfold atomIn atom at deep
  split at deep
  · exact absurd (Except.error.inj deep) (cur.dangling_ne_tooDeep p)
  next t next hnext =>
    rw [(Cursor.rest_of_next? hnext).1] at split
    split at deep
    next => cases deep
    next => cases deep
    next opening => exact h split opening opened deep
    next => exact absurd (Except.error.inj deep) (cur.dangling_ne_tooDeep p)
    next => cases deep

theorem negated_deepens (within : depth + room = maxDepth)
    (h : Deepens (fun _ => True) depth (atomIn room)) :
    Deepens (Starts 6) depth (negated (atomIn room)) := by
  intro tokens read cur p split opened starts deep
  have run : ∀ n ∈ cur.negations, n.symbol = .op .not := by
    intro n mem
    simpa [Token.isNegation] using List.all_eq_true.mp List.all_takeWhile n mem
  have split : tokens = read ++ cur.negations ++ cur.afterNegations.rest := by
    rw [split, List.append_assoc]
    exact congrArg (read ++ ·) List.takeWhile_append_dropWhile.symm
  rcases bind_eq_error.mp deep with inner | ⟨⟨body, next⟩, inner, deep⟩
  · refine h split ?_ trivial inner
    rw [List.map_append, Symbol.balance_append, opened, Token.balance_negations run, Int.add_zero]
  rcases bind_eq_error.mp deep with deep | ⟨whole, -, deep⟩
  · obtain ⟨q, takes⟩ := (atomIn_reads within).of_ok inner
    obtain ⟨passed, rest, derives⟩ := takes.exists_passed
    obtain ⟨later, t, outer, reversed, length, position⟩ :=
      Operand.exists_of_foldlM_negate takes.exact.height_le deep
    have negations : cur.negations = outer.reverse ++ t :: later.reverse := by
      simpa using congrArg List.reverse reversed
    rw [rest, negations, ← List.append_assoc] at split
    have height : body.height = q.formula.height := by rw [takes.operand_eq, Phrase.operand]
    refine ⟨t, .negates (.intro split (negations ▸ run) starts derives takes.le_level)
      takes.fits.1 ?_, position⟩
    rw [List.length_reverse]
    omega
  · cases deep

def Gathers (tokens before : List Token) (level : Nat) (left : Operand) (cur : Cursor) : Prop :=
  ∃ (passed : List Token) (l : Phrase), tokens = before ++ passed ++ cur.rest ∧
    l.Derives (passed.map Token.symbol) ∧ level ≤ l.level ∧ left.formula = l.formula ∧ left.Exact

variable {operand : Parser} {c : Connective} {tokens before : List Token}

theorem Gathers.of_takes {level tighter : Nat} {p : Phrase} {cur next : Cursor} {left : Operand}
    (split : tokens = before ++ cur.rest) (takes : Takes tighter depth p cur next left)
    (le : level ≤ tighter) : Gathers tokens before level left next := by
  obtain ⟨passed, rest, derives⟩ := takes.exists_passed
  rw [rest, ← List.append_assoc] at split
  refine ⟨passed, p, split, derives, Nat.le_trans le takes.le_level, ?_, takes.exact⟩
  rw [takes.operand_eq, Phrase.operand]

theorem Linked.gathers (reads : Reads operand (c.level + 1) depth) {left last : Operand}
    {cur final : Cursor} (h : Linked c operand left cur last final)
    (first : Gathers tokens before c.level left cur) :
    Gathers tokens before c.level last final := by
  induction h with
  | refl => exact first
  | @link left right last cur behind next final t hnext link read low _ ih =>
    obtain ⟨passed, l, split, derives, level, formula, exact⟩ := first
    obtain ⟨r, takes⟩ := reads.of_ok read
    obtain ⟨others, rest, derives'⟩ := takes.exists_passed
    refine ih ⟨passed ++ t :: others, .binary c l r, ?_, ⟨?_, ?_⟩, ?_, ?_, ?_⟩
    · rw [split, (Cursor.rest_of_next? hnext).1, rest]
      simp
    · exact ⟨derives.1, derives'.1, level, takes.le_level⟩
    · simp [Phrase.symbols, derives.2, derives'.2, link]
    · exact Nat.le_refl _
    · simp only [Operand.link, Phrase.formula, formula, takes.operand_eq, Phrase.operand]
    · exact exact.link takes.exact low

theorem chain_deepens (reads : Reads operand (c.level + 1) depth)
    (h : Deepens (Starts (c.level + 1)) depth operand) {left : Operand} {cur : Cursor} {p : Nat}
    (opened : balance (before.map Token.symbol) = depth)
    (starts : Starts c.level (before.map Token.symbol))
    (gathers : Gathers tokens before c.level left cur)
    (deep : chain c operand left cur = .error (.tooDeep p)) :
    ∃ t, Oversteps tokens t ∧ t.position = p := by
  obtain ⟨last, final, linked, ends⟩ := chain_linked c operand left cur
  obtain ⟨passed, l, split, derives, level, formula, exact⟩ := linked.gathers reads gathers
  rw [deep] at ends
  cases ends with
  | @fault t behind e hnext link failed =>
    -- The operand behind the connective is too deep by itself.
    have split : tokens = before ++ passed ++ [t] ++ behind.rest := by
      rw [split, (Cursor.rest_of_next? hnext).1]
      simp
    refine h split ?_ ?_ failed
    · have even := l.balance_symbols
      rw [derives.2] at even
      simp [Symbol.balance_append, opened, even, link, balance]
    · rw [List.map_append, List.map_singleton, link, starts_concat]
      exact .inr ⟨c, rfl, Nat.lt_succ_self _⟩
  | @tooDeep t behind next right hnext link read high =>
    obtain ⟨r, takes⟩ := reads.of_ok read
    obtain ⟨others, rest, derives'⟩ := takes.exists_passed
    have split : tokens = before ++ (passed ++ t :: others) ++ next.rest := by
      rw [split, (Cursor.rest_of_next? hnext).1, rest]
      simp
    have wf : (Phrase.binary c l r).WellFormed := ⟨derives.1, derives'.1, level, takes.le_level⟩
    refine ⟨t, .joins (.intro split link derives derives' wf starts takes.stops) ?_, rfl⟩
    have left := formula ▸ exact.height_eq
    have right := takes.formula_eq ▸ takes.exact.height_eq
    have low := Nat.max_le.mpr ⟨exact.height_le, takes.exact.height_le⟩
    omega

theorem chainsIn_deepens (within : depth + room = maxDepth)
    (h : GroupDeepens depth (groupIn room)) {connectives : List Connective}
    (levels : connectives <:+ Connective.all) :
    Deepens (Starts (loosest connectives)) depth (chainsIn room connectives) := by
  induction connectives with
  | nil => exact negated_deepens within (atomIn_deepens h)
  | cons c tighter ih =>
    have levels' := (List.suffix_cons c tighter).trans levels
    have reads := chainsIn_reads within levels'
    have operands := ih levels'
    rw [loosest_tail levels] at reads operands
    intro tokens before cur p split opened starts deep
    rcases bind_eq_error.mp deep with first | ⟨⟨left, next⟩, first, deep⟩
    · exact operands split opened (starts.mono (Nat.le_succ _)) first
    · obtain ⟨l, takes⟩ := reads.of_ok first
      exact chain_deepens reads operands opened starts
        (.of_takes split takes (Nat.le_succ _)) deep

theorem groupIn_deepens (within : depth + room = maxDepth) :
    GroupDeepens depth (groupIn room) := by
  induction room generalizing depth with
  | zero =>
    intro tokens before t cur p split opening opened deep
    obtain rfl : t.position = p := by simpa [groupIn] using deep
    obtain rfl : depth = maxDepth := within
    exact ⟨t, .crowded (.intro split opening opened), rfl⟩
  | succ room ih =>
    intro tokens before t cur p split opening opened deep
    have within' : depth + 1 + room = maxDepth := by omega
    have contents := chainsIn_deepens within' (ih within') (List.suffix_refl _)
    rw [← formula_eq_chainsIn] at contents
    change group (maxDepth - (room + 1)) (formula room) t cur = _ at deep
    unfold group at deep
    split at deep
    · cases deep
    rcases bind_eq_error.mp deep with inner | ⟨⟨body, after⟩, -, deep⟩
    · have split : tokens = before ++ [t] ++ cur.rest := by simpa using split
      refine contents split ?_ ?_ inner
      · simp [Symbol.balance_append, opened, opening, balance]
      · rw [List.map_append, List.map_singleton, opening, starts_concat]
        exact .inl rfl
    · -- Whatever is wrong behind the contents, it is not their depth.
      cases hnext : after.next? with
      | none => simp [hnext] at deep
      | some step =>
        obtain ⟨u, behind⟩ := step
        simp only [hnext] at deep
        split at deep
        · cases deep
        · exact absurd (Except.error.inj deep) (u.unexpected_ne_tooDeep p)

end Parser

namespace Parsed

open Sentential.Parser (Held chainsIn)
open Token (Crowded Joins Negates Oversteps)

variable {tokens : List Token} {p : Nat}

theorem exists_oversteps (deep : ofTokens tokens = .error (.tooDeep p)) :
    ∃ t, Oversteps tokens t ∧ t.position = p := by
  unfold ofTokens at deep
  split at deep
  · cases deep
  rcases bind_eq_error.mp deep with check | ⟨-, -, deep⟩
  · cases Token.checkParentheses_eq_error.mp check
  rcases bind_eq_error.mp deep with inner | ⟨⟨operand, after⟩, -, deep⟩
  · have within : 0 + maxDepth = maxDepth := Nat.zero_add _
    have split : tokens = [] ++ (Cursor.start tokens).rest := rfl
    have groups := Parser.groupIn_deepens within
    have whole := Parser.chainsIn_deepens within groups (List.suffix_refl _)
    rw [← Parser.formula_eq_chainsIn] at whole
    exact whole split rfl (fun s last => by simp at last) inner
  · cases hnext : after.next? with
    | none => simp [hnext] at deep
    | some step =>
      simp only [hnext] at deep
      exact absurd (Except.error.inj deep) (step.1.unexpected_ne_tooDeep p)

theorem ofText_eq_tooDeep {text : List Char} (deep : ofText text = .error (.tooDeep p)) :
    ∃ tokens t, Token.ofText text = .ok tokens ∧ Oversteps tokens t ∧ t.position = p := by
  rcases bind_eq_error.mp deep with foreign | ⟨tokens, tokenized, deep⟩
  · unfold Token.ofText Token.ofLexemes at foreign
    split at foreign <;> cases foreign
  · obtain ⟨t, oversteps, position⟩ := exists_oversteps deep
    exact ⟨tokens, t, tokenized, oversteps, position⟩

/-- Whatever operand the parser has in hand at any level, the height that it keeps is that of the
formula and within the limit. Where a text is too deep, the error stands at a parenthesis that opens
where as many are open as may be, or at an operator whose operands are as high as may be, so that
what it makes of them is too high by one; of a run of negations it is that one, counted from the
operand, with which the limit is passed. -/
theorem depth_exact {text : List Char} :
    (∀ operand, Held operand →
      operand.height = operand.formula.height ∧ operand.height ≤ maxDepth) ∧
    (∀ room, Parser.formula room = chainsIn room Connective.all) ∧
    (∀ (room : Nat) (connectives : List Connective) (cur next : Cursor) (operand : Operand),
      room ≤ maxDepth → connectives <:+ Connective.all →
      chainsIn room connectives cur = .ok (operand, next) → Held operand) ∧
    ∀ p, ofText text = .error (.tooDeep p) →
      ∃ tokens t, Token.ofText text = .ok tokens ∧ t.position = p ∧
        (Crowded tokens t ∨
        (∃ c f g, Joins tokens t c f g ∧ max f.height g.height = maxDepth ∧
          (Formula.binary c f g).height = maxDepth + 1) ∨
        ∃ f, Negates tokens t (maxDepth + 1 - f.height) f ∧ f.height ≤ maxDepth ∧
          (Formula.not^[maxDepth + 1 - f.height] f).height = maxDepth + 1) := by
  refine ⟨fun operand held => ⟨held.exact.height_eq, held.exact.height_le⟩,
    Parser.formula_eq_chainsIn, ?_, ?_⟩
  · intro room connectives cur next operand within levels read
    exact Parser.held_of_chainsIn within levels read
  · intro p deep
    obtain ⟨tokens, t, tokenized, oversteps, position⟩ := ofText_eq_tooDeep deep
    refine ⟨tokens, t, tokenized, position, ?_⟩
    cases oversteps with
    | crowded crowded => exact .inl crowded
    | @joins c f g joins high =>
      exact .inr (.inl ⟨c, f, g, joins, high, by rw [Formula.height, high]⟩)
    | @negates k f negates low count =>
      obtain rfl : k = maxDepth + 1 - f.height := by omega
      exact .inr (.inr ⟨f, negates, low, by rw [Formula.height_iterate_not, count]⟩)

theorem depth_exact_negations :
    (∃ operand, Held operand ∧ operand.formula.height = maxDepth) ∧
    ∃ tokens t, Token.ofText (List.replicate 256 '~' ++ ['A']) = .ok tokens ∧ t.position = 1 ∧
      (Crowded tokens t ∨
      (∃ c f g, Joins tokens t c f g ∧ max f.height g.height = maxDepth ∧
        (Formula.binary c f g).height = maxDepth + 1) ∨
      ∃ f, Negates tokens t (maxDepth + 1 - f.height) f ∧ f.height ≤ maxDepth ∧
        (Formula.not^[maxDepth + 1 - f.height] f).height = maxDepth + 1) := by
  let negation : Token := ⟨.op .not, ['~'], 1⟩
  let letter : Token := ⟨.var 'A', ['A'], 256⟩
  let highest : Operand := ⟨Formula.not^[255] (.var 'A'), 256, []⟩
  have read : chainsIn maxDepth Connective.all
      (Cursor.start (List.replicate 255 negation ++ [letter])) =
        .ok (highest, ⟨some letter, 256, []⟩) := by decide +kernel
  have deep : ofText (List.replicate 256 '~' ++ ['A']) = .error (.tooDeep 1) := by decide +kernel
  obtain ⟨exact, -, held, position⟩ := @depth_exact (List.replicate 256 '~' ++ ['A'])
  have held : Held highest :=
    held _ _ _ _ _ (Nat.le_refl _) (List.suffix_refl _) read
  exact ⟨⟨highest, held, (exact highest held).1.symm⟩, position 1 deep⟩

end Parsed

end Sentential
