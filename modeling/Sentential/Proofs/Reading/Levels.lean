import Sentential.Proofs.Alternation
import Sentential.Proofs.Reading.Sound

/-!
# The levels of the parser

Inside the parser of whole formulas there is one for each level of connectives, and it is called
wherever an operand of that level is due, be the text a formula or not. `Parser.Reads.of_ok`: what
it gives is then the operand of a phrase of the level, and the cursor has moved behind that phrase.
-/

namespace Sentential.Parser

-- ---------------------------------------------------------------------------
-- One parser for each level
-- ---------------------------------------------------------------------------

def groupIn : (room : Nat) → Token → Parser
  | 0 => fun opening _ => .error (.tooDeep opening.position)
  | room + 1 => group (maxDepth - (room + 1)) (formula room)

def atomIn (room : Nat) : Parser := atom (groupIn room)

def chainsIn (room : Nat) (connectives : List Connective) : Parser :=
  chains (negated (atomIn room)) connectives

theorem formula_eq_chainsIn (room : Nat) : formula room = chainsIn room Connective.all := by
  cases room <;> rfl

def loosest : List Connective → Nat
  | [] => 6
  | c :: _ => c.level

theorem loosest_tail {c : Connective} {tighter : List Connective}
    (h : c :: tighter <:+ Connective.all) : loosest tighter = c.level + 1 := by
  simp only [Connective.all, List.suffix_cons_iff, List.suffix_nil, List.cons.injEq] at h
  rcases h with ⟨rfl, rfl⟩ | ⟨rfl, rfl⟩ | ⟨rfl, rfl⟩ | ⟨rfl, rfl⟩ | ⟨rfl, rfl⟩ | h
  · rfl
  · rfl
  · rfl
  · rfl
  · rfl
  · cases h

-- ---------------------------------------------------------------------------
-- What each of them reads
-- ---------------------------------------------------------------------------

/-- The parser reads phrases of the level where `depth` parentheses are open. -/
structure Reads (parser : Parser) (level depth : Nat) : Prop where
  sound : Sound parser level
  exhaustive : Exhaustive parser level
  complete : Complete parser level depth

/-- The parser moves from the first cursor to the second over the phrase. -/
structure Takes (level depth : Nat) (p : Phrase) (cur next : Cursor) (operand : Operand) :
    Prop where
  wellFormed : p.WellFormed
  le_level : level ≤ p.level
  symbols_eq : cur.symbols = p.symbols ++ next.symbols
  stops : Stops level next.symbols
  fits : p.Fits depth
  operand_eq : operand = p.operand cur.index depth
  next_eq : next = cur.skip p.symbols.length

variable {parser : Parser} {level depth room : Nat} {cur next : Cursor} {operand : Operand}

theorem Reads.of_ok (h : Reads parser level depth) (read : parser cur = .ok (operand, next)) :
    ∃ p, Takes level depth p cur next operand := by
  obtain ⟨p, wf, le, split⟩ := h.sound read
  have stops := h.exhaustive read
  have result := h.complete wf le split stops
  rw [read] at result
  cases result with
  | fits fits => exact ⟨p, wf, le, split, stops, fits, rfl, rfl⟩

theorem Takes.formula_eq {p : Phrase} (h : Takes level depth p cur next operand) :
    operand.formula = p.formula := by
  rw [h.operand_eq, Phrase.operand]

theorem Takes.exists_passed {p : Phrase} (h : Takes level depth p cur next operand) :
    ∃ passed, cur.rest = passed ++ next.rest ∧ p.Derives (passed.map Token.symbol) := by
  refine ⟨cur.rest.take p.symbols.length, ?_, h.wellFormed, ?_⟩
  · rw [h.next_eq, Cursor.skip, List.take_append_drop]
  · rw [List.map_take, ← Cursor.symbols, h.symbols_eq, List.take_left]

theorem groupIn_complete (h : depth + room = maxDepth) : GroupComplete (groupIn room) depth := by
  cases room with
  | zero =>
    obtain rfl : depth = maxDepth := h
    exact full_complete
  | succ room =>
    obtain rfl : depth = maxDepth - (room + 1) := by omega
    exact group_complete (formula_complete (by omega))

theorem groupIn_sound (room : Nat) : GroupSound (groupIn room) := by
  cases room with
  | zero => exact full_sound
  | succ room => exact group_sound (formula_sound room)

theorem atomIn_reads (h : depth + room = maxDepth) : Reads (atomIn room) 7 depth where
  sound := atom_sound (groupIn_sound room)
  exhaustive _ _ _ _ c _ := Nat.lt_succ_of_lt c.level_lt_six
  complete := atom_complete (groupIn_complete h) (by omega)

theorem chainsIn_reads (h : depth + room = maxDepth) {connectives : List Connective}
    (levels : connectives <:+ Connective.all) :
    Reads (chainsIn room connectives) (loosest connectives) depth := by
  induction connectives with
  | nil =>
    have atoms := atomIn_reads h
    exact ⟨negated_sound atoms.sound, fun _ _ _ _ c _ => c.level_lt_six,
      negated_complete atoms.complete⟩
  | cons c tighter ih =>
    have reads := ih ((List.suffix_cons c tighter).trans levels)
    rw [loosest_tail levels] at reads
    exact ⟨chains_sound reads.sound, chains_exhaustive reads.exhaustive,
      chains_complete reads.complete⟩

end Sentential.Parser
