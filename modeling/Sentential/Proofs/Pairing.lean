import Mathlib.Control.Monad.Basic
import Mathlib.Data.List.Forall2
import Mathlib.Data.List.Nodup
import Sentential.Proofs.Groups

/-!
# Groups are pairs of parentheses

Two parentheses are partners if what lies between them is balanced, so one that opens has at most
one partner. `Parsed.groups_delimit`: each opening parenthesis of a formula has its group, in the
order in which they open, and the group's tokens by themselves are a text of the group's formula.
-/

namespace Sentential

-- ---------------------------------------------------------------------------
-- Partners
-- ---------------------------------------------------------------------------

namespace Symbol

/-- The parenthesis that opens at index `j` closes at index `m`. -/
def Partners (symbols : List Symbol) (j m : Nat) : Prop :=
  ∃ before inside behind, symbols = before ++ .opening :: (inside ++ .closing :: behind) ∧
    Balanced inside ∧ j = before.length ∧ m = before.length + 1 + inside.length

variable {symbols inside behind : List Symbol} {j m n : Nat}

theorem not_balanced_append_closing (h : Balanced inside) :
    ¬ Balanced (inside ++ .closing :: behind) := by
  rintro ⟨bounded, -⟩
  have whole := h.2
  have closed := bounded (inside ++ [.closing]) ⟨behind, by simp⟩
  simp only [balance_append, balance] at whole closed
  omega

theorem Partners.unique (hm : Partners symbols j m) (hn : Partners symbols j n) : m = n := by
  obtain ⟨before, inside, behind, eq, balanced, rfl, rfl⟩ := hm
  obtain ⟨before', inside', behind', eq', balanced', same, rfl⟩ := hn
  obtain ⟨-, rest⟩ := List.append_inj (eq.symm.trans eq') same
  rcases append_cons_eq_append_cons (List.cons.inj rest).2 with
    ⟨rfl, -, -⟩ | ⟨more, rfl, -⟩ | ⟨more, rfl, -⟩
  · rw [same]
  · exact absurd balanced' (not_balanced_append_closing balanced)
  · exact absurd balanced (not_balanced_append_closing balanced')

end Symbol

namespace Phrase

variable {p q : Phrase} {before behind : List Symbol}

theorem Within.partners (h : q.Within before behind p) :
    Symbol.Partners p.symbols before.length (before.length + 1 + q.symbols.length) :=
  ⟨before, q.symbols, behind, h.symbols_eq, q.balanced_symbols, rfl, rfl⟩

theorem Within.fits (h : q.Within before behind p) (fits : p.Fits 0) : q.Fits 0 := by
  have low := h.part.height_le
  have flat := h.nesting_lt
  simp only [Fits] at fits ⊢
  omega

theorem Within.ofText_render (h : q.Within before behind p) (wf : p.WellFormed)
    (lettered : p.formula.Lettered) (fits : p.Fits 0) :
    Formula.ofText (Symbol.render q.symbols) = .ok q.formula := by
  obtain ⟨tokens, cut, derives⟩ := tokens_render (h.wellFormed wf) (h.part.lettered lettered)
  exact Formula.ofText_eq_ok.mpr ⟨tokens, q, cut, derives, h.fits fits, rfl⟩

/-- Groups come in the order of their opening parentheses, one for each. -/
theorem map_start_groups (p : Phrase) (start depth : Nat) :
    (p.groups start depth).map Group.start = (p.symbols.idxsOf .opening start).map (· + 1) := by
  induction p generalizing start depth with
  | var | const => simp [groups, symbols]
  | enclosed p ih => simp [groups, symbols, ih, List.idxsOf_append]
  | not p ih => simp [groups, symbols, ih]
  | binary c p q ihp ihq =>
    simp [groups, symbols, ihp, ihq, List.idxsOf_append, Nat.add_comm, Nat.add_left_comm]

theorem pairwise_start_groups (p : Phrase) :
    (p.groups 0 0).Pairwise fun g k => g.start < k.start := by
  refine List.pairwise_map.mp ?_
  rw [map_start_groups]
  exact List.pairwise_map.mpr (List.pairwise_idxsOf.imp Nat.succ_lt_succ)

/-- However the groups of a phrase were collected, their places tell their order. -/
theorem mergeSort_groups {p : Phrase} {groups : List Group} (perm : groups.Perm (p.groups 0 0)) :
    groups.mergeSort (fun g k => g.start ≤ k.start) = p.groups 0 0 := by
  have ascending := p.pairwise_start_groups
  have nodup : ((p.groups 0 0).map Group.start).Nodup :=
    List.pairwise_map.mpr (ascending.imp Nat.ne_of_lt)
  have sorted : (groups.mergeSort (fun g k => g.start ≤ k.start)).Pairwise
      fun g k => g.start ≤ k.start := by
    have sorted := @List.pairwise_mergeSort Group (fun g k => g.start ≤ k.start)
      (fun g k l => by simpa using Nat.le_trans) (fun g k => by simpa using Nat.le_total _ _) groups
    exact sorted.imp of_decide_eq_true
  have permuted := (List.mergeSort_perm groups (fun g k => g.start ≤ k.start)).trans perm
  refine List.Perm.eq_of_pairwise ?_ sorted (ascending.imp Nat.le_of_lt) permuted
  intro g k left right le ge
  exact List.inj_on_of_nodup_map nodup (permuted.subset left) right (Nat.le_antisymm le ge)

end Phrase

-- ---------------------------------------------------------------------------
-- Groups of a text
-- ---------------------------------------------------------------------------

namespace Parsed

variable {text : List Char} {parsed : Parsed} {g : Group}

/-- The group is the contents of the parentheses that open at index `j`. -/
structure Delimits (parsed : Parsed) (j : Nat) (g : Group) : Prop where
  start : g.start = j + 1
  partner : ∀ m, Symbol.Partners (parsed.tokens.map Token.symbol) j m ↔ m = g.stop
  depth : Symbol.balance ((parsed.tokens.map Token.symbol).take j) = g.depth
  filled : g.start < g.stop
  inside : g.stop < parsed.tokens.length
  part : g.formula.Part parsed.root
  reads : Formula.ofText (Token.render (parsed.contents g)) = .ok g.formula

theorem symbols_contents (parsed : Parsed) (g : Group) : (parsed.contents g).map Token.symbol =
    ((parsed.tokens.map Token.symbol).drop g.start).take (g.stop - g.start) := by
  rw [contents, List.map_take, List.map_drop]

theorem delimits_of_mem_groups (h : ofText text = .ok parsed) (mem : g ∈ parsed.groups) :
    ∃ j, parsed.Delimits j g := by
  obtain ⟨tokens, p, tokenized, derives, fits, rfl⟩ := ofText_eq_ok.mp h
  obtain ⟨q, before, behind, within, formula, start, stop, depth⟩ :=
    Phrase.exists_within_of_mem_groups mem
  rw [Nat.zero_add] at start
  have symbols : tokens.map Token.symbol = before ++ .opening :: (q.symbols ++ .closing :: behind) :=
    derives.2.symm.trans within.symbols_eq
  have partners : Symbol.Partners (tokens.map Token.symbol) before.length g.stop := by
    rw [stop, start, ← derives.2]
    exact within.partners
  refine ⟨before.length, start, fun m => ⟨fun other => other.unique partners, ?_⟩, ?_, ?_, ?_,
    formula ▸ within.part, ?_⟩
  · rintro rfl
    exact partners
  · simp [symbols, depth]
  · have := List.length_pos_iff.mpr q.symbols_ne_nil
    omega
  · have length := congrArg List.length symbols
    simp only [List.length_map, List.length_append, List.length_cons] at length
    simp only [stop, start]
    omega
  · have inner : (contents ⟨p.formula, tokens, p.groups 0 0⟩ g).map Token.symbol = q.symbols := by
      rw [symbols_contents, symbols, stop, start]
      simp
    rw [Token.render, inner, formula]
    exact within.ofText_render derives.1 (Token.lettered_of_ofText tokenized derives) fits

theorem map_start_groups (h : ofText text = .ok parsed) : parsed.groups.map Group.start =
    ((parsed.tokens.map Token.symbol).idxsOf .opening).map (· + 1) := by
  obtain ⟨tokens, p, -, derives, -, rfl⟩ := ofText_eq_ok.mp h
  rw [← derives.2]
  exact p.map_start_groups 0 0

/-- The groups of a text that is a formula are the pairs of its parentheses, in the order in which
these open. -/
theorem groups_delimit (h : ofText text = .ok parsed) :
    List.Forall₂ parsed.Delimits ((parsed.tokens.map Token.symbol).idxsOf .opening)
      parsed.groups := by
  have paired : List.Forall₂ (· = ·) (parsed.groups.map Group.start)
      (((parsed.tokens.map Token.symbol).idxsOf .opening).map (· + 1)) := by
    rw [List.forall₂_eq_eq_eq]
    exact map_start_groups h
  rw [List.forall₂_map_left_iff, List.forall₂_map_right_iff] at paired
  have placed := (List.forall₂_and_left _ _).mpr ⟨fun g (mem : g ∈ parsed.groups) => mem, paired⟩
  refine List.Forall₂.flip (placed.imp ?_)
  rintro g j ⟨mem, start⟩
  obtain ⟨i, delimits⟩ := delimits_of_mem_groups h mem
  obtain rfl : i = j := by
    have := delimits.start
    omega
  exact delimits

theorem groups_delimit_nested :
    ∃ parsed, ofText "~((A)&B)|(C)".toList = .ok parsed ∧
      parsed.groups.map (fun g => (g.start, g.stop, g.depth)) = [(2, 7, 0), (3, 4, 1), (10, 11, 0)] ∧
      List.Forall₂ parsed.Delimits [1, 2, 9] parsed.groups := by
  have read : ofText "~((A)&B)|(C)".toList =
      .ok ⟨.binary .or (.not (.binary .and (.var 'A') (.var 'B'))) (.var 'C'),
        [⟨.op .not, ['~'], 1⟩, ⟨.opening, ['('], 2⟩, ⟨.opening, ['('], 3⟩, ⟨.var 'A', ['A'], 4⟩,
          ⟨.closing, [')'], 5⟩, ⟨.op (.binary .and), ['&'], 6⟩, ⟨.var 'B', ['B'], 7⟩,
          ⟨.closing, [')'], 8⟩, ⟨.op (.binary .or), ['|'], 9⟩, ⟨.opening, ['('], 10⟩,
          ⟨.var 'C', ['C'], 11⟩, ⟨.closing, [')'], 12⟩],
        [⟨.binary .and (.var 'A') (.var 'B'), 2, 7, 0⟩, ⟨.var 'A', 3, 4, 1⟩,
          ⟨.var 'C', 10, 11, 0⟩]⟩ := by decide +kernel
  exact ⟨_, read, rfl, groups_delimit read⟩

end Parsed

end Sentential
