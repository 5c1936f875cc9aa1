import Sentential.Proofs.Reading.Levels
import Sentential.Proofs.Registers

/-!
# The parser with registers reads the same

One lemma for each function: called between two tokens, with the depth that belongs to the room
that the parser has, the machine stops, and what it comes to is what the parser makes of the cursor
at that place (`Machine.Simulates`). The same induction carries what holds of the registers at all
times: between two calls the depth is the number of parentheses that are open, and no parenthesis is
passed for which there is no room.
-/

namespace Sentential

open Sentential.Symbol (balance balance_append)

-- ---------------------------------------------------------------------------
-- Places in a list of tokens
-- ---------------------------------------------------------------------------

/-- The symbols from index `i` up to index `j`. -/
def Token.span (tokens : List Token) (i j : Nat) : List Symbol :=
  ((tokens.take j).drop i).map symbol

theorem Token.span_succ {tokens : List Token} {i j : Nat} {t : Token} (le : i ≤ j)
    (here : tokens[j]? = some t) : span tokens i (j + 1) = span tokens i j ++ [t.symbol] := by
  obtain ⟨inside, -⟩ := List.getElem?_eq_some_iff.mp here
  have reached : i ≤ (tokens.take j).length := by
    rw [List.length_take]
    omega
  rw [span, List.take_add_one, here, Option.toList_some, List.drop_append_of_le_length reached,
    List.map_append, List.map_singleton]
  rfl

theorem Token.span_self (tokens : List Token) (i : Nat) : span tokens i i = [] := by
  rw [span, List.drop_take_self, List.map_nil]

namespace Cursor

variable {tokens : List Token} {i : Nat} {t : Token}

def ofIndex (tokens : List Token) (i : Nat) : Cursor := (start tokens).skip i

theorem rest_ofIndex : (ofIndex tokens i).rest = tokens.drop i := rfl

theorem index_ofIndex : (ofIndex tokens i).index = i := Nat.zero_add i

theorem skip_ofIndex (n : Nat) : (ofIndex tokens i).skip n = ofIndex tokens (i + n) :=
  skip_skip _ i n

theorem next?_ofIndex (here : tokens[i]? = some t) :
    (ofIndex tokens i).next? = some (t, ofIndex tokens (i + 1)) := by
  obtain ⟨inside, rfl⟩ := List.getElem?_eq_some_iff.mp here
  have split : (ofIndex tokens i).rest = tokens[i] :: tokens.drop (i + 1) :=
    List.drop_eq_getElem_cons inside
  obtain ⟨u, same, hnext⟩ := next?_of_symbols (congrArg (List.map Token.symbol) split)
  obtain ⟨rest, -⟩ := rest_of_next? hnext
  rw [hnext, skip_ofIndex, (List.cons.inj (split.symm.trans rest)).1]

theorem next?_ofIndex_eq_none (ended : tokens[i]? = none) : (ofIndex tokens i).next? = none := by
  refine next?_eq_none ?_
  rw [symbols, rest_ofIndex, List.drop_eq_nil_of_le (List.getElem?_eq_none_iff.mp ended),
    List.map_nil]

theorem afterNegations_eq_skip (cur : Cursor) :
    cur.afterNegations = cur.skip cur.negations.length := by
  have passed : cur.rest.take cur.negations.length = cur.negations :=
    (List.prefix_iff_eq_take.mp (List.takeWhile_prefix _)).symm
  rw [afterNegations, skip, passed, negations, drop_length_takeWhile]

theorem afterNegations_ofIndex : (ofIndex tokens i).afterNegations =
    ofIndex tokens (i + (ofIndex tokens i).negations.length) := by
  rw [afterNegations_eq_skip, skip_ofIndex]

theorem run_dangling {h : History} (le : h.now.index ≤ tokens.length) :
    (Input.dangling ⟨tokens⟩).run h =
      some (.error (.fault (ofIndex tokens h.now.index).dangling), h) := by
  obtain ⟨⟨index, depth, groups⟩, past⟩ := h
  cases index with
  | zero => simp [Input.dangling, Machine.run_bind, ofIndex, skip, start, dangling]
  | succ i =>
    have inside : i < tokens.length := le
    have previous : (ofIndex tokens (i + 1)).previous = some tokens[i] := by
      simp [ofIndex, skip, start, List.getLast?_take, inside]
    simp [Input.dangling, Machine.run_bind, dangling, previous, inside]

end Cursor

-- ---------------------------------------------------------------------------
-- What holds at all times
-- ---------------------------------------------------------------------------

/-- What holds of the registers at any time of a call that found them as in `first`. -/
structure Registers.Bounded (tokens : List Token) (first r : Registers) : Prop where
  le_index : first.index ≤ r.index
  index_le : r.index ≤ tokens.length
  depth_le : r.depth ≤ maxDepth
  open_le : first.depth + balance (Token.span tokens first.index r.index) ≤ maxDepth
  groups_prefix : first.groups <+: r.groups

/-- Between two calls the depth is the number of parentheses that are open. -/
structure History.Poised (tokens : List Token) (first : Registers) (h : History) : Prop where
  bounded : ∀ r ∈ h.states, Registers.Bounded tokens first r
  depth_eq : first.depth + balance (Token.span tokens first.index h.now.index) = h.now.depth

namespace Machine

open History (Poised)
open Input (reaches_peek)
open Registers (Bounded)
open Sentential.Parser (atomIn chainsIn groupIn)

variable {tokens : List Token} {first : Registers} {depth room : Nat} {base : List Group}
variable {h : History} {t : Token}

/-- The outcome is that of the parser, and what the registers hold besides the depth was there
before or belongs to the formula that has been read. -/
inductive Mirrors (tokens : List Token) (first : Registers) (depth : Nat) (base : List Group) :
    Except SyntaxError (Operand × Cursor) → Except Stop Measured → History → Prop
  | read {operand : Operand} {index : Nat} {h : History} (new : List Group) :
      Poised tokens first h → h.now = ⟨index, depth, base ++ new⟩ → new.Perm operand.groups →
      Mirrors tokens first depth base (.ok (operand, .ofIndex tokens index))
        (.ok ⟨operand.formula, operand.height⟩) h
  | fault {e : SyntaxError} {h : History} : (∀ r ∈ h.states, Bounded tokens first r) →
      Mirrors tokens first depth base (.error e) (.error (.fault e)) h

theorem Mirrors.bounded {result : Except SyntaxError (Operand × Cursor)}
    {outcome : Except Stop Measured} (mirrors : Mirrors tokens first depth base result outcome h) :
    ∀ r ∈ h.states, Bounded tokens first r := by
  cases mirrors with
  | read new poised => exact poised.bounded
  | fault bounded => exact bounded

theorem Mirrors.ne_outOfRange {result : Except SyntaxError (Operand × Cursor)}
    {outcome : Except Stop Measured} (mirrors : Mirrors tokens first depth base result outcome h) :
    outcome ≠ .error .outOfRange := by
  cases mirrors <;> simp

/-- Called with the depth given, the machine does what the parser does from the same place. -/
def Simulates (tokens : List Token) (first : Registers) (depth : Nat) (m : Machine Measured)
    (parser : Parser) : Prop :=
  ∀ ⦃h : History⦄, Poised tokens first h → h.now.depth = depth →
    Reaches m h (Mirrors tokens first depth h.now.groups (parser (.ofIndex tokens h.now.index)))

def GroupSimulates (tokens : List Token) (first : Registers) (depth : Nat)
    (group : Token → Parser) : Prop :=
  ∀ ⦃h : History⦄ ⦃t : Token⦄, Poised tokens first h → h.now.depth = depth →
    tokens[h.now.index]? = some t → t.symbol = .opening →
      Reaches (Input.group ⟨tokens⟩ t) h (Mirrors tokens first depth h.now.groups
        (group t (.ofIndex tokens (h.now.index + 1))))

theorem bounded_now (poised : Poised tokens first h) : Bounded tokens first h.now :=
  poised.bounded _ List.mem_cons_self

theorem forall_mem_states_change {f : Registers → Registers}
    (bounded : Bounded tokens first (f h.now)) (before : ∀ r ∈ h.states, Bounded tokens first r) :
    ∀ r ∈ (h.change f).states, Bounded tokens first r :=
  List.forall_mem_cons.mpr ⟨bounded, before⟩

theorem Reaches.bind_mirrors {depth' : Nat} {base' : List Group} {m : Machine Measured}
    {x : Except SyntaxError (Operand × Cursor)} {f : Measured → Machine Measured}
    {g : Operand × Cursor → Except SyntaxError (Operand × Cursor)}
    (reads : Reaches m h (Mirrors tokens first depth base x))
    (rest : ∀ operand index new next, Poised tokens first next →
      next.now = ⟨index, depth, base ++ new⟩ → new.Perm operand.groups →
      Reaches (f ⟨operand.formula, operand.height⟩) next
        (Mirrors tokens first depth' base' (g (operand, .ofIndex tokens index)))) :
    Reaches (m >>= f) h (Mirrors tokens first depth' base' (x >>= g)) := by
  refine reads.bind ?_ ?_
  · intro a next mirrors
    cases mirrors with
    | read new poised now perm => exact rest _ _ new next poised now perm
  · intro e next mirrors
    cases mirrors with
    | fault bounded => exact .fault bounded

-- ---------------------------------------------------------------------------
-- Single steps
-- ---------------------------------------------------------------------------

theorem bounded_bump {r : Registers} (bounded : Bounded tokens first r)
    (here : tokens[r.index]? = some t)
    (room : first.depth + balance (Token.span tokens first.index r.index) + balance [t.symbol] ≤
      maxDepth) : Bounded tokens first r.bump where
  le_index := Nat.le_succ_of_le bounded.le_index
  index_le := (List.getElem?_eq_some_iff.mp here).1
  depth_le := bounded.depth_le
  open_le := by
    rw [Registers.bump, Token.span_succ bounded.le_index here, balance_append]
    omega
  groups_prefix := bounded.groups_prefix

theorem poised_bump (poised : Poised tokens first h) (here : tokens[h.now.index]? = some t)
    (flat : balance [t.symbol] = 0) : Poised tokens first (h.change Registers.bump) where
  bounded := by
    have bounded := bounded_now poised
    refine forall_mem_states_change (bounded_bump bounded here ?_) poised.bounded
    have := bounded.open_le
    omega
  depth_eq := by
    have span := Token.span_succ (bounded_now poised).le_index here
    simp only [History.change, Registers.bump, span, balance_append, flat, Int.add_zero]
    exact poised.depth_eq

theorem poised_enter (poised : Poised tokens first h) (here : tokens[h.now.index]? = some t)
    (opening : t.symbol = .opening) (room : h.now.depth < maxDepth) :
    (∀ r ∈ (h.change Registers.bump).states, Bounded tokens first r) ∧
      Poised tokens first ((h.change Registers.bump).change Registers.enter) := by
  have even := poised.depth_eq
  have one : balance [t.symbol] = 1 := by simp [opening, balance]
  have passed : Bounded tokens first h.now.bump :=
    bounded_bump (bounded_now poised) here (by omega)
  have entered : Bounded tokens first h.now.bump.enter := { passed with depth_le := room }
  have before := forall_mem_states_change passed poised.bounded
  refine ⟨before, forall_mem_states_change entered before, ?_⟩
  have span := Token.span_succ (bounded_now poised).le_index here
  simp only [History.change, Registers.bump, Registers.enter, span, balance_append, one]
  omega

theorem bounded_leave (poised : Poised tokens first h) :
    ∀ r ∈ (h.change Registers.leave).states, Bounded tokens first r := by
  have bounded := bounded_now poised
  have left : Bounded tokens first h.now.leave :=
    { bounded with depth_le := Nat.le_trans (Nat.sub_le _ _) bounded.depth_le }
  exact forall_mem_states_change left poised.bounded

theorem poised_close (poised : Poised tokens first h) (here : tokens[h.now.index]? = some t)
    (closing : t.symbol = .closing) (inside : h.now.depth = depth + 1) (group : Group) :
    Poised tokens first
      (((h.change Registers.leave).change Registers.bump).change (Registers.add group)) := by
  have bounded := bounded_now poised
  have even := poised.depth_eq
  have one : balance [t.symbol] = -1 := by simp [closing, balance]
  have before := bounded_leave poised
  have left : Bounded tokens first h.now.leave := before _ List.mem_cons_self
  have passed : Bounded tokens first h.now.leave.bump := by
    refine bounded_bump left here ?_
    have := bounded.open_le
    simp only [Registers.leave]
    omega
  have added : Bounded tokens first (h.now.leave.bump.add group) :=
    { passed with groups_prefix := passed.groups_prefix.trans (List.prefix_append _ _) }
  refine ⟨forall_mem_states_change added (forall_mem_states_change passed before), ?_⟩
  have span := Token.span_succ bounded.le_index here
  simp only [History.change, Registers.leave, Registers.bump, Registers.add, span, balance_append,
    one]
  omega

-- ---------------------------------------------------------------------------
-- Atoms and groups
-- ---------------------------------------------------------------------------

theorem reaches_atom {f : Formula} (poised : Poised tokens first h)
    (opened : h.now.depth = depth) (here : tokens[h.now.index]? = some t)
    (flat : balance [t.symbol] = 0) :
    Reaches (do change Registers.bump; return ⟨f, 1⟩) h (Mirrors tokens first depth h.now.groups
      (.ok (.atom f, .ofIndex tokens (h.now.index + 1)))) := by
  refine reaches_change (reaches_pure (.read [] (poised_bump poised here flat) ?_ .rfl))
  simp [History.change, Registers.bump, opened]

theorem atom_simulates (groups : GroupSimulates tokens first depth (groupIn room)) :
    Simulates tokens first depth (Input.atom ⟨tokens⟩) (atomIn room) := by
  intro h poised opened
  have inside := (bounded_now poised).index_le
  rw [Input.atom, atomIn, Parser.atom]
  cases here : tokens[h.now.index]? with
  | none =>
    refine reaches_peek here ?_
    rw [Cursor.next?_ofIndex_eq_none here]
    exact .of_run (Cursor.run_dangling inside) (.fault poised.bounded)
  | some t =>
    refine reaches_peek here ?_
    rw [Cursor.next?_ofIndex here]
    dsimp only
    cases symbol : t.symbol with
    | var v => exact reaches_atom poised opened here (by simp [symbol, balance])
    | const b => exact reaches_atom poised opened here (by simp [symbol, balance])
    | opening => exact groups poised opened here symbol
    | closing => exact .of_run (Cursor.run_dangling inside) (.fault poised.bounded)
    | op o => exact reaches_fault (.fault poised.bounded)

theorem full_simulates : GroupSimulates tokens first maxDepth (groupIn 0) := by
  intro h t poised opened here opening
  rw [Input.group]
  refine reaches_registers ?_
  rw [if_pos (Nat.le_of_eq opened.symm)]
  exact reaches_fault (.fault poised.bounded)

theorem reaches_close {operand : Operand} {new : List Group} {index start : Nat}
    (poised : Poised tokens first h) (now : h.now = ⟨index, depth + 1, base ++ new⟩)
    (perm : new.Perm operand.groups) (opening : Token) :
    Reaches (Input.close ⟨tokens⟩ opening start ⟨operand.formula, operand.height⟩) h
      (Mirrors tokens first depth base
        (match (Cursor.ofIndex tokens index).next? with
        | none => .error (.unmatchedOpening opening.position)
        | some (t, next) =>
          if t.symbol = .closing then
            .ok (⟨operand.formula, operand.height,
              ⟨operand.formula, start, index, depth⟩ :: operand.groups⟩, next)
          else .error t.unexpected)) := by
  obtain ⟨_, past⟩ := h
  subst now
  have before := bounded_leave poised
  rw [Input.close]
  refine reaches_change (reaches_registers ?_)
  cases here : tokens[index]? with
  | none =>
    refine reaches_peek here ?_
    rw [Cursor.next?_ofIndex_eq_none here]
    exact reaches_fault (.fault before)
  | some t =>
    refine reaches_peek here ?_
    rw [Cursor.next?_ofIndex here]
    dsimp only
    split
    next closing =>
      refine reaches_change (reaches_registers (reaches_change (reaches_pure ?_)))
      let group : Group := ⟨operand.formula, start, index, depth⟩
      refine .read (new ++ [group]) (poised_close poised here closing rfl group) ?_ ?_
      · simp [History.change, Registers.leave, Registers.bump, Registers.add, group]
      · exact List.perm_append_comm.trans (perm.cons group)
    next => exact reaches_fault (.fault before)

theorem group_simulates
    (contents : Simulates tokens first (depth + 1) (Input.chains ⟨tokens⟩ Connective.all)
      (Parser.formula room)) (room_eq : depth + (room + 1) = maxDepth) :
    GroupSimulates tokens first depth (groupIn (room + 1)) := by
  intro h t poised opened here opening
  obtain ⟨before, inside⟩ := poised_enter poised here opening (by omega)
  have head : (Cursor.ofIndex tokens (h.now.index + 1)).rest.head? = tokens[h.now.index + 1]? := by
    rw [Cursor.rest_ofIndex, List.head?_drop]
  obtain rfl : depth = maxDepth - (room + 1) := by omega
  rw [Input.group, groupIn, Parser.group, head]
  refine reaches_registers ?_
  rw [if_neg (by omega)]
  refine reaches_change (reaches_peek (rfl : tokens[h.now.index + 1]? = _) ?_)
  split
  · exact reaches_fault (.fault before)
  have deeper : (h.change Registers.bump |>.change Registers.enter).now.depth =
      maxDepth - (room + 1) + 1 := congrArg (· + 1) opened
  refine reaches_registers (reaches_change ((contents inside deeper).bind_mirrors ?_))
  intro operand index new next poised now perm
  simp only [Cursor.index_ofIndex]
  exact reaches_close poised now perm t

-- ---------------------------------------------------------------------------
-- Negations
-- ---------------------------------------------------------------------------

theorem reaches_negations (poised : Poised tokens first h) (passed : List Token) :
    Reaches (Input.negations ⟨tokens⟩ passed) h fun outcome next =>
      outcome = .ok ((Cursor.ofIndex tokens h.now.index).negations.reverse ++ passed) ∧
      Poised tokens first next ∧ next.now = { h.now with
        index := h.now.index + (Cursor.ofIndex tokens h.now.index).negations.length } := by
  generalize hrest : tokens.drop h.now.index = rest
  induction rest generalizing h passed with
  | nil =>
    have ended : tokens[h.now.index]? = none := by rw [← List.head?_drop, hrest, List.head?_nil]
    have none : (Cursor.ofIndex tokens h.now.index).negations = [] := by
      rw [Cursor.negations, Cursor.rest_ofIndex, hrest, List.takeWhile_nil]
    rw [Input.negations, none]
    refine reaches_peek ended ?_
    exact reaches_pure ⟨rfl, poised, rfl⟩
  | cons t rest ih =>
    have here : tokens[h.now.index]? = some t := by rw [← List.head?_drop, hrest, List.head?_cons]
    have behind : tokens.drop (h.now.index + 1) = rest := by
      rw [← List.tail_drop, hrest, List.tail_cons]
    have run : (Cursor.ofIndex tokens h.now.index).negations =
        if t.isNegation then t :: (Cursor.ofIndex tokens (h.now.index + 1)).negations else [] := by
      rw [Cursor.negations, Cursor.negations, Cursor.rest_ofIndex, Cursor.rest_ofIndex, hrest,
        behind, List.takeWhile_cons]
    rw [Input.negations, run]
    refine reaches_peek here ?_
    dsimp only
    split
    next negation =>
      have symbol : t.symbol = .op .not := by simpa [Token.isNegation] using negation
      have next := ih (poised_bump poised here (by simp [symbol, balance])) (t :: passed) behind
      refine reaches_change ?_
      simpa [History.change, Registers.bump, Nat.add_assoc, Nat.add_comm 1] using next
    next => exact reaches_pure ⟨rfl, poised, rfl⟩

/-- A run of negations is applied as it is by the parser, and no register changes. -/
theorem reaches_negate {index : Nat} {new : List Group} (poised : Poised tokens first h)
    (now : h.now = ⟨index, depth, base ++ new⟩) (run : List Token) {body : Operand}
    (perm : new.Perm body.groups) :
    Reaches (run.foldlM Measured.negate ⟨body.formula, body.height⟩) h
      (Mirrors tokens first depth base
        (run.foldlM Operand.negate body >>= fun operand =>
          .ok (operand, Cursor.ofIndex tokens index))) := by
  induction run generalizing body with
  | nil => exact reaches_pure (.read new poised now perm)
  | cons t run ih =>
    rw [List.foldlM_cons, List.foldlM_cons, Measured.negate, Operand.negate]
    by_cases low : body.height < maxDepth
    · rw [if_pos low, if_pos low, pure_bind, ok_bind]
      exact @ih ⟨.not body.formula, body.height + 1, body.groups⟩ perm
    · rw [if_neg low, if_neg low]
      exact reaches_fault (.fault poised.bounded)

theorem negated_simulates
    (atoms : Simulates tokens first depth (Input.atom ⟨tokens⟩) (atomIn room)) :
    Simulates tokens first depth (Input.negated ⟨tokens⟩) (Parser.negated (atomIn room)) := by
  intro h poised opened
  rw [Input.negated, Parser.negated, Cursor.afterNegations_ofIndex]
  refine (reaches_negations poised []).bind ?_ ?_
  · rintro run next ⟨outcome, poised', now⟩
    obtain rfl := Except.ok.inj outcome
    rw [List.append_nil]
    have atom := atoms poised' (by rw [now, opened])
    rw [now] at atom
    refine atom.bind_mirrors ?_
    intro body index new last poised' now' perm
    exact reaches_negate poised' now' _ perm
  · rintro e next ⟨outcome, -⟩
    cases outcome

-- ---------------------------------------------------------------------------
-- Chains
-- ---------------------------------------------------------------------------

/-- The loop goes on where it has the groups of its left operand behind those of before. -/
theorem chain_simulates {c : Connective} {tighter : List Connective} {operand : Parser}
    (operands : Simulates tokens first depth (Input.chains ⟨tokens⟩ tighter) operand)
    {left : Operand} {index : Nat} {new : List Group} (poised : Poised tokens first h)
    (now : h.now = ⟨index, depth, base ++ new⟩) (perm : new.Perm left.groups) :
    Reaches (Input.chain ⟨tokens⟩ c tighter ⟨left.formula, left.height⟩) h
      (Mirrors tokens first depth base
        (Parser.chain c operand left (.ofIndex tokens index))) := by
  -- Each link makes the left operand higher, and the loop ends at `maxDepth`, whatever the tokens.
  induction measure : maxDepth - left.height using Nat.strongRecOn
    generalizing left h index new with
  | ind n ih =>
    obtain ⟨_, past⟩ := h
    subst now
    rw [Input.chain]
    cases here : tokens[index]? with
    | none =>
      refine reaches_peek here ?_
      have ended := Cursor.symbols_eq_nil (Cursor.next?_ofIndex_eq_none here)
      rw [Parser.chain_stop (by simp [ended])]
      exact reaches_pure (.read new poised rfl perm)
    | some t =>
      have hnext := Cursor.next?_ofIndex here
      refine reaches_peek here ?_
      dsimp only
      by_cases link : t.symbol = .op (.binary c)
      · have flat : balance [t.symbol] = 0 := by simp [link, balance]
        rw [if_pos link, Parser.chain_link hnext link]
        refine reaches_change ((operands (poised_bump poised here flat) rfl).bind_mirrors ?_)
        intro right index' new' next poised' now' perm'
        dsimp only
        split
        next low =>
          let linked : Operand := ⟨.binary c left.formula right.formula,
            max left.height right.height + 1, left.groups ++ right.groups⟩
          have groups : (⟨index, depth, base ++ new⟩ : Registers).groups ++ new' =
            base ++ (new ++ new') := List.append_assoc _ _ _
          have shorter : maxDepth - linked.height < n := by
            simp only [linked]
            omega
          exact @ih _ shorter next linked index' (new ++ new') poised'
            (now'.trans (congrArg _ groups)) (perm.append perm') rfl
        next => exact reaches_fault (.fault poised'.bounded)
      · rw [if_neg link, Parser.chain_stop (by simp [(Cursor.symbols_of_next? hnext).1, link])]
        exact reaches_pure (.read new poised rfl perm)

theorem chains_simulates
    (atoms : Simulates tokens first depth (Input.atom ⟨tokens⟩) (atomIn room))
    (connectives : List Connective) :
    Simulates tokens first depth (Input.chains ⟨tokens⟩ connectives)
      (chainsIn room connectives) := by
  induction connectives with
  | nil =>
    rw [Input.chains]
    exact negated_simulates atoms
  | cons c tighter ih =>
    intro h poised opened
    rw [Input.chains]
    refine (ih poised opened).bind_mirrors ?_
    intro left index new next poised' now perm
    exact chain_simulates ih poised' now perm

theorem groupIn_simulates (room_eq : depth + room = maxDepth) :
    GroupSimulates tokens first depth (groupIn room) := by
  -- Inside a group there is room for one parenthesis less.
  induction room generalizing depth with
  | zero =>
    obtain rfl : depth = maxDepth := room_eq
    exact full_simulates
  | succ room ih =>
    refine group_simulates ?_ room_eq
    rw [Parser.formula_eq_chainsIn]
    exact chains_simulates (atom_simulates (ih (by omega))) _

end Machine

end Sentential
