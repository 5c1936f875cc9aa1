import Sentential.Proofs.Mirroring
import Sentential.Proofs.Pairing

/-!
# Every call of the parser comes to an end

`Procedure.runs_within_bounds`: whatever the tokens are and wherever the parser is called among
them, the call stops, no more than `maxDepth` parentheses are open at any time, and no token is
looked up where there is none. A call that succeeds has passed the symbols of a phrase, so they are
not none and their parentheses match. `Input.run_read`: run on a whole input, with the groups put in
their order at the end, the parser with registers is the parser without.
-/

namespace Sentential

open Sentential.Symbol (balance)

/-- What there is to be called: a parser of one level, of atoms, or of the group that a parenthesis
begins. -/
inductive Procedure
  | chains (connectives : List Connective)
  | atom
  | group (opening : Token)

structure Registers.Advances (tokens : List Token) (first last : Registers) : Prop where
  index_lt : first.index < last.index
  index_le : last.index ≤ tokens.length
  balanced : Symbol.Balanced (Token.span tokens first.index last.index)
  depth_eq : last.depth = first.depth
  groups_eq : ∃ new, last.groups = first.groups ++ new ∧
    ∀ g ∈ new, first.index < g.start ∧ g.start < g.stop ∧ g.stop < last.index

namespace Procedure

open Sentential.Parser (atomIn chainsIn groupIn loosest Takes)
open Machine (Mirrors Reaches)
open Registers (Advances Bounded)

def machine (tokens : List Token) : Procedure → Machine Measured
  | .chains connectives => Input.chains ⟨tokens⟩ connectives
  | .atom => Input.atom ⟨tokens⟩
  | .group opening => Input.group ⟨tokens⟩ opening

def parser (depth : Nat) : Procedure → Parser
  | .chains connectives => chainsIn (maxDepth - depth) connectives
  | .atom => atomIn (maxDepth - depth)
  | .group opening => fun cur => groupIn (maxDepth - depth) opening (cur.skip 1)

/-- The connectives are those of a level, and a group is begun at its parenthesis. -/
def Callable (tokens : List Token) (index : Nat) : Procedure → Prop
  | .chains connectives => connectives <:+ Connective.all
  | .atom => True
  | .group opening => tokens[index]? = some opening ∧ opening.symbol = .opening

variable {tokens : List Token} {first : Registers} {p : Procedure} {operand : Operand}
variable {depth index : Nat}

theorem poised_start (index_le : first.index ≤ tokens.length) (depth_le : first.depth ≤ maxDepth) :
    History.Poised tokens first ⟨first, []⟩ where
  bounded := by
    refine List.forall_mem_singleton.mpr ⟨Nat.le_refl _, index_le, depth_le, ?_, List.prefix_rfl⟩
    simpa [Token.span_self, balance] using depth_le
  depth_eq := by simp [Token.span_self, balance]

theorem reaches (index_le : first.index ≤ tokens.length) (depth_le : first.depth ≤ maxDepth)
    (callable : p.Callable tokens first.index) :
    Reaches (p.machine tokens) ⟨first, []⟩ (Mirrors tokens first first.depth first.groups
      (p.parser first.depth (.ofIndex tokens first.index))) := by
  have poised := poised_start index_le depth_le
  have groups : Machine.GroupSimulates tokens first first.depth
      (groupIn (maxDepth - first.depth)) :=
    Machine.groupIn_simulates (Nat.add_sub_cancel' depth_le)
  cases p with
  | chains connectives =>
    exact Machine.chains_simulates (Machine.atom_simulates groups) _ poised rfl
  | atom => exact Machine.atom_simulates groups poised rfl
  | group opening =>
    obtain ⟨here, symbol⟩ := callable
    have reaches := groups poised rfl here symbol
    rwa [← Cursor.skip_ofIndex] at reaches

theorem exists_takes {cur : Cursor} (depth_le : depth ≤ maxDepth)
    (callable : p.Callable tokens index)
    (read : p.parser depth (.ofIndex tokens index) = .ok (operand, cur)) :
    ∃ level q, Takes level depth q (.ofIndex tokens index) cur operand := by
  have within := Nat.add_sub_cancel' depth_le
  cases p with
  | chains connectives => exact ⟨_, (Parser.chainsIn_reads within callable).of_ok read⟩
  | atom => exact ⟨_, (Parser.atomIn_reads within).of_ok read⟩
  | group opening =>
    obtain ⟨here, symbol⟩ := callable
    refine ⟨_, (Parser.atomIn_reads within).of_ok ?_⟩
    simp only [parser, Cursor.skip_ofIndex] at read
    simpa only [atomIn, Parser.atom, Cursor.next?_ofIndex here, symbol] using read

theorem advances_of_takes {level : Nat} {q : Phrase} {last : Registers} {new : List Group}
    (takes : Takes level first.depth q (.ofIndex tokens first.index) (.ofIndex tokens last.index)
      operand) (index_le : last.index ≤ tokens.length) (depth_eq : last.depth = first.depth)
    (groups_eq : last.groups = first.groups ++ new) (perm : new.Perm operand.groups) :
    Advances tokens first last := by
  have index_eq : last.index = first.index + q.symbols.length := by
    have same := congrArg Cursor.index takes.next_eq
    rwa [Cursor.skip_ofIndex, Cursor.index_ofIndex, Cursor.index_ofIndex] at same
  have span : Token.span tokens first.index last.index = q.symbols := by
    rw [Token.span, List.drop_take, index_eq, Nat.add_sub_cancel_left, List.map_take,
      ← Cursor.rest_ofIndex, ← Cursor.symbols, takes.symbols_eq, List.take_left]
  have filled := List.length_pos_iff.mpr q.symbols_ne_nil
  refine ⟨by omega, index_le, span ▸ q.balanced_symbols, depth_eq, new, groups_eq, ?_⟩
  intro g mem
  have mem : g ∈ q.groups first.index first.depth := by
    rw [perm.mem_iff, takes.operand_eq, Phrase.operand, Cursor.index_ofIndex] at mem
    exact mem
  obtain ⟨r, before, behind, within, -, start, stop, -⟩ := Phrase.exists_within_of_mem_groups mem
  have inner := List.length_pos_iff.mpr r.symbols_ne_nil
  have length := congrArg List.length within.symbols_eq
  simp only [List.length_append, List.length_cons] at length
  omega

theorem advances_of_mirrors {body : Measured} {last : History} (depth_le : first.depth ≤ maxDepth)
    (callable : p.Callable tokens first.index)
    (mirrors : Mirrors tokens first first.depth first.groups
      (p.parser first.depth (.ofIndex tokens first.index)) (.ok body) last) :
    Advances tokens first last.now := by
  generalize read : p.parser first.depth (.ofIndex tokens first.index) = result at mirrors
  cases mirrors with
  | @read operand index _ new poised now perm =>
    obtain ⟨level, q, takes⟩ := exists_takes depth_le callable read
    obtain ⟨_, past⟩ := last
    subst now
    exact advances_of_takes takes (Machine.bounded_now poised).index_le rfl rfl perm

/-- Every call stops, whether it succeeds or fails, and the registers are within bounds at all times
until then. It never looks up a token where there is none, a call that succeeds advances, and the
outcome is that of the parser, which for a whole list of tokens is the call at its start. -/
theorem runs_within_bounds (index_le : first.index ≤ tokens.length)
    (depth_le : first.depth ≤ maxDepth) (callable : p.Callable tokens first.index) :
    (∃ outcome last, (p.machine tokens).run ⟨first, []⟩ = some (outcome, last) ∧
      (∀ r ∈ last.states, Bounded tokens first r) ∧
      outcome ≠ .error .outOfRange ∧
      (∀ body, outcome = .ok body → Advances tokens first last.now) ∧
      Mirrors tokens first first.depth first.groups
        (p.parser first.depth (.ofIndex tokens first.index)) outcome last) ∧
    Parser.formula maxDepth (.start tokens) =
      (chains Connective.all).parser 0 (.ofIndex tokens 0) := by
  refine ⟨?_, congrFun (Parser.formula_eq_chainsIn maxDepth) _⟩
  obtain ⟨outcome, last, run, mirrors⟩ := reaches index_le depth_le callable
  refine ⟨outcome, last, run, mirrors.bounded, mirrors.ne_outOfRange, ?_, mirrors⟩
  rintro body rfl
  exact advances_of_mirrors depth_le callable mirrors

/-- Behind a parenthesis that closes none, and with room for one more to be open, a negated group is
read, and added behind the group that was there. -/
theorem runs_within_bounds_group :
    ∃ tokens last, Token.ofText ")~(A)(".toList = .ok tokens ∧
      ((chains []).machine tokens).run ⟨⟨1, 255, [⟨.var 'B', 0, 1, 0⟩]⟩, []⟩ =
        some (.ok ⟨.not (.var 'A'), 2⟩, last) ∧
      last.now = ⟨5, 255, [⟨.var 'B', 0, 1, 0⟩, ⟨.var 'A', 3, 4, 255⟩]⟩ ∧
      Advances tokens ⟨1, 255, [⟨.var 'B', 0, 1, 0⟩]⟩ last.now := by
  let tokens : List Token := [⟨.closing, [')'], 1⟩, ⟨.op .not, ['~'], 2⟩, ⟨.opening, ['('], 3⟩,
    ⟨.var 'A', ['A'], 4⟩, ⟨.closing, [')'], 5⟩, ⟨.opening, ['('], 6⟩]
  let first : Registers := ⟨1, 255, [⟨.var 'B', 0, 1, 0⟩]⟩
  have tokenized : Token.ofText ")~(A)(".toList = .ok tokens := by decide +kernel
  have read : (chains []).parser first.depth (.ofIndex tokens first.index) =
      .ok (⟨.not (.var 'A'), 2, [⟨.var 'A', 3, 4, 255⟩]⟩, .ofIndex tokens 5) := by decide +kernel
  obtain ⟨⟨outcome, last, run, -, -, advances, mirrors⟩, -⟩ :=
    @runs_within_bounds tokens first (chains []) (by decide) (by decide) List.nil_suffix
  rw [read] at mirrors
  generalize place : Cursor.ofIndex tokens 5 = cur at mirrors
  cases mirrors with
  | @read _ index _ new _ now perm =>
    obtain rfl : index = 5 := by simpa [Cursor.index_ofIndex] using congrArg Cursor.index place.symm
    rw [List.perm_singleton.mp perm] at now
    exact ⟨tokens, last, tokenized, run, now, advances _ rfl⟩

end Procedure

-- ---------------------------------------------------------------------------
-- Whole inputs
-- ---------------------------------------------------------------------------

namespace Input

open Machine (Mirrors Reaches reaches_fault reaches_pure reaches_registers)
open Sentential.Parser (chainsIn)

variable {tokens : List Token} {operand : Operand} {cur : Cursor} {groups : List Group}

theorem mergeSort_groups
    (taken : chainsIn maxDepth Connective.all (.ofIndex tokens 0) = .ok (operand, cur))
    (perm : groups.Perm operand.groups) :
    groups.mergeSort (fun g k => g.start ≤ k.start) = operand.groups := by
  obtain ⟨level, q, takes⟩ := @Procedure.exists_takes tokens (.chains Connective.all) operand 0 0
    cur (Nat.zero_le _) (List.suffix_refl _) taken
  rw [takes.operand_eq] at perm ⊢
  exact Phrase.mergeSort_groups perm

theorem reaches_read (tokens : List Token) :
    Reaches (read ⟨tokens⟩) ⟨⟨0, 0, []⟩, []⟩ fun outcome _ =>
      outcome = (Parsed.ofTokens tokens).mapError .fault := by
  rw [read, Parsed.ofTokens]
  by_cases empty : tokens.isEmpty
  · rw [if_pos empty, if_pos empty]
    exact reaches_fault rfl
  rw [if_neg empty, if_neg empty]
  cases checked : Token.checkParentheses tokens with
  | error e => exact reaches_fault rfl
  | ok =>
    rw [ok_bind, Parser.formula_eq_chainsIn]
    have chains : Reaches (chains ⟨tokens⟩ Connective.all) ⟨⟨0, 0, []⟩, []⟩
        (Mirrors tokens ⟨0, 0, []⟩ 0 [] (chainsIn maxDepth Connective.all (.start tokens))) :=
      @Procedure.reaches tokens ⟨0, 0, []⟩ (.chains Connective.all) (Nat.zero_le _)
        (Nat.zero_le _) (List.suffix_refl _)
    generalize taken : chainsIn maxDepth Connective.all (.start tokens) = result at chains ⊢
    refine chains.bind ?_ ?_
    · intro root next mirrors
      cases mirrors with
      | @read operand index _ new _ now perm =>
        obtain ⟨_, past⟩ := next
        subst now
        have sorted := mergeSort_groups taken perm
        rw [ok_bind]
        cases here : tokens[index]? with
        | none =>
          refine reaches_peek here (reaches_registers (reaches_pure ?_))
          simp only [List.nil_append, sorted, Cursor.next?_ofIndex_eq_none here]
          rfl
        | some t =>
          refine reaches_peek here (reaches_fault ?_)
          simp only [Cursor.next?_ofIndex here]
          rfl
    · intro e next mirrors
      cases mirrors with
      | fault => rfl

/-- Run on a whole input, the parser with registers comes to what the parser comes to. -/
theorem run_read (tokens : List Token) :
    ∃ last, (read ⟨tokens⟩).run ⟨⟨0, 0, []⟩, []⟩ =
      some ((Parsed.ofTokens tokens).mapError .fault, last) := by
  obtain ⟨outcome, last, run, rfl⟩ := reaches_read tokens
  exact ⟨last, run⟩

end Input

end Sentential
