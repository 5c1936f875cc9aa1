import Sentential.Proofs.Reading
import Sentential.Proofs.Results

/-!
# The parser reads every phrase

One lemma for each function of the parser: a phrase of its level that stands at the cursor is read
as the operand it determines, or is found to be too deep. The induction for a chain is on the
phrase, which leans to the left as the loop does: the loop has its left operand when it comes to a
link.
-/

namespace Sentential.Parser

open Phrase (ReadAs)

/-- What follows is nothing that a parser of the level goes on with. -/
def Stops (level : Nat) (rest : List Symbol) : Prop :=
  ∀ c, rest.head? = some (.op (.binary c)) → c.level < level

def Complete (parser : Parser) (level depth : Nat) : Prop :=
  ∀ ⦃p : Phrase⦄ ⦃cur : Cursor⦄ ⦃rest : List Symbol⦄, p.WellFormed → level ≤ p.level →
    cur.symbols = p.symbols ++ rest → Stops level rest → p.ReadAs depth cur (parser cur)

theorem stops_nil (level : Nat) : Stops level [] := by
  intro c h
  simp at h

theorem stops_cons {level : Nat} {s : Symbol} {rest : List Symbol}
    (h : ∀ c, s = .op (.binary c) → c.level < level) : Stops level (s :: rest) := by
  intro c eq
  exact h c (by simpa using eq)

theorem Stops.mono {level tighter : Nat} {rest : List Symbol} (h : Stops level rest)
    (le : level ≤ tighter) : Stops tighter rest :=
  fun c eq => Nat.lt_of_lt_of_le (h c eq) le

-- ---------------------------------------------------------------------------
-- Atoms and groups
-- ---------------------------------------------------------------------------

def GroupComplete (group : Token → Parser) (depth : Nat) : Prop :=
  ∀ ⦃t : Token⦄ ⦃p : Phrase⦄ ⦃cur : Cursor⦄ ⦃rest : List Symbol⦄, p.WellFormed →
    cur.symbols = (Phrase.enclosed p).symbols ++ rest →
      (Phrase.enclosed p).ReadAs depth cur (group t (cur.skip 1))

theorem atom_complete {group : Token → Parser} {depth : Nat} (h : GroupComplete group depth)
    (room : depth ≤ maxDepth) : Complete (atom group) 7 depth := by
  intro p cur rest wf level hcur _
  cases p with
  | var v =>
    obtain ⟨t, ht, hnext⟩ := Cursor.next?_of_symbols hcur
    have result : atom group cur = .ok (.atom (.var v), cur.skip 1) := by simp [atom, hnext, ht]
    rw [result]
    exact .fits (Phrase.fits_atom rfl rfl room)
  | const b =>
    obtain ⟨t, ht, hnext⟩ := Cursor.next?_of_symbols hcur
    have result : atom group cur = .ok (.atom (.const b), cur.skip 1) := by simp [atom, hnext, ht]
    rw [result]
    exact .fits (Phrase.fits_atom rfl rfl room)
  | enclosed p =>
    obtain ⟨t, ht, hnext⟩ := Cursor.next?_of_symbols hcur
    have result : atom group cur = group t (cur.skip 1) := by simp [atom, hnext, ht]
    rw [result]
    exact h wf hcur
  | not p => simp [Phrase.level] at level
  | binary c p q =>
    have := c.level_lt_six
    simp only [Phrase.level] at level
    omega

theorem full_complete :
    GroupComplete (fun opening _ => .error (.tooDeep opening.position)) maxDepth := by
  intro t p cur rest _ _
  refine .tooDeep _ ?_
  rw [Phrase.fits_enclosed, Phrase.Fits]
  omega

theorem group_complete {contents : Parser} {depth : Nat} (h : Complete contents 1 (depth + 1)) :
    GroupComplete (group depth contents) depth := by
  intro t p cur rest wf hcur
  have inside : (cur.skip 1).symbols = p.symbols ++ .closing :: rest :=
    Cursor.symbols_skip_one (by simpa [Phrase.symbols] using hcur)
  have behind : ((cur.skip 1).skip p.symbols.length).symbols = .closing :: rest :=
    Cursor.symbols_skip inside
  obtain ⟨closing, hclosing, hnext⟩ := Cursor.next?_of_symbols behind
  obtain ⟨s, others, hs, starts⟩ := p.symbols_eq_cons
  have filled : (cur.skip 1).rest.head?.any (·.symbol == .closing) = false := by
    have head : (cur.skip 1).rest.head?.map Token.symbol = some s := by
      rw [← List.head?_map, ← Cursor.symbols, inside, hs]
      rfl
    obtain ⟨first, hfirst, rfl⟩ := Option.map_eq_some_iff.mp head
    cases eq : first.symbol <;> simp_all [Symbol.startsOperand]
  have read := h wf p.level_pos inside (stops_cons (by simp))
  generalize result : contents (cur.skip 1) = outcome at read
  cases read with
  | fits fits =>
    have length : (Phrase.enclosed p).symbols.length = 1 + p.symbols.length + 1 := by
      simp [Phrase.symbols]
      omega
    have read : group depth contents t (cur.skip 1) =
        .ok ((Phrase.enclosed p).operand cur.index depth,
          cur.skip (Phrase.enclosed p).symbols.length) := by
      rw [length, ← Cursor.skip_skip, ← Cursor.skip_skip]
      simp only [group, filled, result, ok_bind, hnext, hclosing, if_true, Bool.false_eq_true,
        if_false]
      rfl
    rw [read]
    exact .fits (Phrase.fits_enclosed.mpr fits)
  | tooDeep position deep =>
    have read : group depth contents t (cur.skip 1) = .error (.tooDeep position) := by
      simp [group, filled, result]
    rw [read]
    exact .tooDeep position (deep ∘ Phrase.fits_enclosed.mp)

-- ---------------------------------------------------------------------------
-- Negations
-- ---------------------------------------------------------------------------

theorem negated_of_head {operand : Parser} {cur : Cursor}
    (h : cur.symbols.head? ≠ some (.op .not)) : negated operand cur = operand cur := by
  have none : cur.negations = [] ∧ cur.rest.dropWhile Token.isNegation = cur.rest := by
    cases eq : cur.rest with
    | nil => simp [Cursor.negations, eq]
    | cons t rest =>
      have ht : t.isNegation = false := by
        simpa [Cursor.symbols, eq, Token.isNegation] using h
      simp [Cursor.negations, eq, ht]
  have here : cur.afterNegations = cur := by
    simp [Cursor.afterNegations, none]
  rw [negated, here, none.1]
  cases operand cur <;> rfl

theorem negated_not {operand : Parser} {cur : Cursor} {t : Token} (ht : t.symbol = .op .not)
    (hnext : cur.next? = some (t, cur.skip 1)) :
    negated operand cur = do
      let (body, next) ← negated operand (cur.skip 1)
      let operand ← body.negate t
      return (operand, next) := by
  obtain ⟨rest, eq⟩ : ∃ rest, cur.rest = t :: rest := by
    cases eq : cur.rest with
    | nil => simp [Cursor.next?, eq] at hnext
    | cons u rest =>
      obtain ⟨rfl, -⟩ : u = t ∧ _ := by simpa [Cursor.next?, eq] using hnext
      exact ⟨rest, rfl⟩
  have negation : t.isNegation = true := by simp [Token.isNegation, ht]
  have run : cur.negations = t :: (cur.skip 1).negations := by
    simp [Cursor.negations, Cursor.skip, eq, negation]
  have behind : cur.afterNegations = (cur.skip 1).afterNegations := by
    rw [Cursor.afterNegations, Cursor.afterNegations, run]
    simp [Cursor.skip, eq, negation, List.getLast?_cons]
    omega
  rw [negated, negated, behind, run, List.reverse_cons]
  cases operand (cur.skip 1).afterNegations with
  | error e => rfl
  | ok result =>
    simp only [ok_bind, List.foldlM_append, List.foldlM_cons, List.foldlM_nil, bind_assoc,
      pure_bind, bind_pure]

theorem negated_complete {operand : Parser} {depth : Nat} (h : Complete operand 7 depth) :
    Complete (negated operand) 6 depth := by
  intro p cur rest wf level hcur stops
  induction p generalizing cur with
  | not p ih =>
    obtain ⟨t, ht, hnext⟩ := Cursor.next?_of_symbols hcur
    have read := ih wf.1 wf.2 (Cursor.symbols_skip_one hcur)
    rw [negated_not ht hnext]
    generalize negated operand (cur.skip 1) = result at read
    cases read with
    | fits fits =>
      by_cases low : p.formula.height < maxDepth
      · have negated : (p.operand (cur.skip 1).index depth).negate t =
            .ok ((Phrase.not p).operand cur.index depth) := by
          simp only [Operand.negate, Phrase.operand, low, if_true]
          rfl
        simp only [ok_bind, negated, Cursor.skip_skip, Nat.add_comm 1]
        exact .fits (Phrase.fits_not.mpr ⟨fits, low⟩)
      · have negated : (p.operand (cur.skip 1).index depth).negate t =
            .error (.tooDeep t.position) := by
          simp only [Operand.negate, Phrase.operand, low, if_false]
        simp only [ok_bind, negated, error_bind]
        exact .tooDeep _ fun fits => low (Phrase.fits_not.mp fits).2
    | tooDeep position deep => exact .tooDeep position fun fits => deep (Phrase.fits_not.mp fits).1
  | binary c p q =>
    have := c.level_lt_six
    simp only [Phrase.level] at level
    omega
  | _ =>
    rw [negated_of_head (by simp [hcur, Phrase.symbols])]
    exact h wf (by simp [Phrase.level]) hcur (stops.mono (by omega))

-- ---------------------------------------------------------------------------
-- Chains
-- ---------------------------------------------------------------------------

theorem chain_stop {c : Connective} {operand : Parser} {left : Operand} {cur : Cursor}
    (h : cur.symbols.head? ≠ some (.op (.binary c))) :
    chain c operand left cur = .ok (left, cur) := by
  unfold chain
  cases hnext : cur.next? with
  | none => rfl
  | some result =>
    obtain ⟨t, next⟩ := result
    have other : t.symbol ≠ .op (.binary c) := by
      simpa [(Cursor.symbols_of_next? hnext).1] using h
    simp only [other, if_false]

theorem chain_link {c : Connective} {operand : Parser} {left : Operand} {cur next : Cursor}
    {t : Token} (hnext : cur.next? = some (t, next)) (ht : t.symbol = .op (.binary c)) :
    chain c operand left cur =
      operand next >>= fun (right, next) =>
        if max left.height right.height + 1 ≤ maxDepth then
          chain c operand
            ⟨.binary c left.formula right.formula, max left.height right.height + 1,
              left.groups ++ right.groups⟩ next
        else .error (.tooDeep t.position) := by
  rw [chain, hnext]
  simp only [ht, if_true]
  cases operand next <;> rfl

/-- Reading a phrase as the beginning of a chain: the loop goes on behind the phrase with the
phrase's operand on its left, unless the phrase is too deep. -/
inductive Continues (operand : Parser) (c : Connective) (depth : Nat) (p : Phrase) (cur : Cursor) :
    Prop
  | fits : p.Fits depth →
      chains operand [c] cur =
        chain c operand (p.operand cur.index depth) (cur.skip p.symbols.length) →
      Continues operand c depth p cur
  | tooDeep (position : Nat) : ¬ p.Fits depth →
      chains operand [c] cur = .error (.tooDeep position) → Continues operand c depth p cur

variable {operand : Parser} {c : Connective} {depth : Nat}

theorem continues_of_tight (h : Complete operand (c.level + 1) depth) {p : Phrase} {cur : Cursor}
    {rest : List Symbol} (wf : p.WellFormed) (tight : c.level < p.level)
    (hcur : cur.symbols = p.symbols ++ rest) (stops : Stops (c.level + 1) rest) :
    Continues operand c depth p cur := by
  have read := h wf tight hcur stops
  generalize result : operand cur = outcome at read
  cases read with
  | fits fits => exact .fits fits (by simp [chains, result])
  | tooDeep position deep => exact .tooDeep position deep (by simp [chains, result])

theorem continues (h : Complete operand (c.level + 1) depth) {p : Phrase} {cur : Cursor}
    {rest : List Symbol} (wf : p.WellFormed) (level : c.level ≤ p.level)
    (hcur : cur.symbols = p.symbols ++ rest) (stops : Stops (c.level + 1) rest) :
    Continues operand c depth p cur := by
  induction p generalizing rest with
  | binary d l r ihl ihr =>
    rcases Nat.lt_or_eq_of_le level with tight | same
    · exact continues_of_tight h wf tight hcur stops
    obtain rfl : c = d := Connective.level_injective same
    obtain ⟨wfl, wfr, left, right⟩ := wf
    have hcur : cur.symbols = l.symbols ++ .op (.binary c) :: (r.symbols ++ rest) := by
      simpa [Phrase.symbols] using hcur
    have stopsLeft : Stops (c.level + 1) (.op (.binary c) :: (r.symbols ++ rest)) :=
      stops_cons (by simp)
    cases ihl wfl left hcur stopsLeft with
    | tooDeep position deep result =>
      exact .tooDeep position (fun fits => deep (Phrase.fits_binary.mp fits).1) result
    | fits fits result =>
      -- The loop has the left operand; what is left of the phrase is one link.
      obtain ⟨t, ht, hnext⟩ := Cursor.next?_of_symbols (Cursor.symbols_skip hcur)
      have behind := Cursor.symbols_skip_one (Cursor.symbols_skip hcur)
      rw [chain_link hnext ht] at result
      have read := h wfr right behind stops
      generalize operand ((cur.skip l.symbols.length).skip 1) = outcome at read result
      cases read with
      | tooDeep position deep =>
        exact .tooDeep position (fun fits => deep (Phrase.fits_binary.mp fits).2.1) result
      | fits fitsRight =>
        by_cases low : max l.formula.height r.formula.height + 1 ≤ maxDepth
        · refine .fits (Phrase.fits_binary.mpr ⟨fits, fitsRight, low⟩) ?_
          have length : (Phrase.binary c l r).symbols.length =
              l.symbols.length + 1 + r.symbols.length := by
            simp [Phrase.symbols]
            omega
          rw [result, length, ← Cursor.skip_skip, ← Cursor.skip_skip]
          simp only [ok_bind, Phrase.operand, low, if_true]
          rfl
        · refine .tooDeep t.position (fun fits => low (Phrase.fits_binary.mp fits).2.2) ?_
          rw [result]
          simp only [ok_bind, Phrase.operand, low, if_false]
  | _ =>
    have := c.level_lt_six
    exact continues_of_tight h wf (by simp only [Phrase.level]; omega) hcur stops

theorem chains_complete {tighter : List Connective}
    (h : Complete (chains operand tighter) (c.level + 1) depth) :
    Complete (chains operand (c :: tighter)) c.level depth := by
  intro p cur rest wf level hcur stops
  have stop : (cur.skip p.symbols.length).symbols.head? ≠ some (.op (.binary c)) := by
    rw [Cursor.symbols_skip hcur]
    exact fun here => Nat.lt_irrefl _ (stops c here)
  change p.ReadAs depth cur (chains (chains operand tighter) [c] cur)
  cases continues h wf level hcur (stops.mono (Nat.le_succ _)) with
  | fits fits result =>
    rw [result, chain_stop stop]
    exact .fits fits
  | tooDeep position deep result =>
    rw [result]
    exact .tooDeep position deep

theorem all_complete (h : Complete operand 6 depth) :
    Complete (chains operand Connective.all) 1 depth :=
  chains_complete (c := .iff) <| chains_complete (c := .implies) <| chains_complete (c := .xor) <|
    chains_complete (c := .or) <| chains_complete (c := .and) h

theorem formula_complete {room depth : Nat} (h : depth + room = maxDepth) :
    Complete (formula room) 1 depth := by
  induction room generalizing depth with
  | zero =>
    obtain rfl : depth = maxDepth := h
    exact all_complete (negated_complete (atom_complete full_complete (Nat.le_refl _)))
  | succ room ih =>
    obtain rfl : depth = maxDepth - (room + 1) := by omega
    have contents : Complete (formula room) 1 (maxDepth - (room + 1) + 1) := ih (by omega)
    exact all_complete (negated_complete (atom_complete (group_complete contents) (by omega)))

end Sentential.Parser
