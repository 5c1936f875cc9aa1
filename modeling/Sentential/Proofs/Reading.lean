import Sentential.Parser
import Sentential.Proofs.Grammar

/-!
# Reading phrases

What the parser is to make of a phrase whose symbols stand at the cursor: the operand that the
phrase determines, with the cursor moved behind it, or the error that it is too deep.
-/

namespace Sentential

namespace Cursor

def symbols (cur : Cursor) : List Symbol := cur.rest.map Token.symbol

def skip (cur : Cursor) (n : Nat) : Cursor where
  previous := (cur.rest.take n).getLast?.or cur.previous
  index := cur.index + n
  rest := cur.rest.drop n

theorem skip_skip (cur : Cursor) (m n : Nat) : (cur.skip m).skip n = cur.skip (m + n) := by
  simp only [skip, List.drop_drop, List.take_add, List.getLast?_append, Option.or_assoc,
    Nat.add_assoc]

theorem symbols_skip {cur : Cursor} {u v : List Symbol} (h : cur.symbols = u ++ v) :
    (cur.skip u.length).symbols = v := by
  rw [symbols, skip, List.map_drop, ← symbols, h, List.drop_left]

theorem symbols_skip_one {cur : Cursor} {s : Symbol} {v : List Symbol}
    (h : cur.symbols = s :: v) : (cur.skip 1).symbols = v :=
  symbols_skip (u := [s]) h

theorem next?_of_symbols {cur : Cursor} {s : Symbol} {v : List Symbol} (h : cur.symbols = s :: v) :
    ∃ t, t.symbol = s ∧ cur.next? = some (t, cur.skip 1) := by
  obtain ⟨t, rest, eq, hs, -⟩ := List.map_eq_cons_iff.mp h
  exact ⟨t, hs, by simp [next?, skip, eq]⟩

theorem next?_eq_none {cur : Cursor} (h : cur.symbols = []) : cur.next? = none := by
  have : cur.rest = [] := List.map_eq_nil_iff.mp h
  simp [next?, this]

theorem symbols_of_next? {cur next : Cursor} {t : Token} (h : cur.next? = some (t, next)) :
    cur.symbols = t.symbol :: next.symbols ∧ next = cur.skip 1 := by
  unfold next? at h
  split at h
  · simp at h
  next u rest eq =>
    obtain ⟨rfl, rfl⟩ : u = t ∧ _ = next := by simpa using h
    simp [symbols, skip, eq]

theorem rest_of_next? {cur next : Cursor} {t : Token} (h : cur.next? = some (t, next)) :
    cur.rest = t :: next.rest ∧ next.previous = some t := by
  unfold next? at h
  split at h
  · simp at h
  next u rest eq =>
    obtain ⟨rfl, rfl⟩ : u = t ∧ _ = next := by simpa using h
    exact ⟨eq, rfl⟩

theorem rest_eq_nil {cur : Cursor} (h : cur.next? = none) : cur.rest = [] := by
  cases eq : cur.rest with
  | nil => rfl
  | cons t rest => simp [next?, eq] at h

theorem symbols_eq_nil {cur : Cursor} (h : cur.next? = none) : cur.symbols = [] := by
  rw [symbols, rest_eq_nil h, List.map_nil]

end Cursor

namespace Phrase

/-- The groups of the phrase, where its first token has the index `start` and `depth` pairs of
parentheses enclose it. -/
def groups (start depth : Nat) : Phrase → List Group
  | .var _ | .const _ => []
  | .enclosed p =>
    ⟨p.formula, start + 1, start + 1 + p.symbols.length, depth⟩ :: p.groups (start + 1) (depth + 1)
  | .not p => p.groups (start + 1) depth
  | .binary _ p q => p.groups start depth ++ q.groups (start + p.symbols.length + 1) depth

def operand (start depth : Nat) (p : Phrase) : Operand :=
  ⟨p.formula, p.formula.height, p.groups start depth⟩

/-- Within both limits, where `depth` parentheses are open before the phrase. -/
def Fits (depth : Nat) (p : Phrase) : Prop :=
  p.formula.height ≤ maxDepth ∧ depth + p.nesting ≤ maxDepth

/-- The result of reading the phrase at the cursor. -/
inductive ReadAs (p : Phrase) (depth : Nat) (cur : Cursor) :
    Except SyntaxError (Operand × Cursor) → Prop
  | fits : p.Fits depth →
      ReadAs p depth cur (.ok (p.operand cur.index depth, cur.skip p.symbols.length))
  | tooDeep (position : Nat) : ¬ p.Fits depth → ReadAs p depth cur (.error (.tooDeep position))

variable {p q : Phrase} {depth : Nat}

theorem fits_atom (h : p.formula.height = 1) (flat : p.nesting = 0) (room : depth ≤ maxDepth) :
    p.Fits depth := by
  simp only [Fits, h, flat, maxDepth] at *
  omega

theorem fits_enclosed : (enclosed p).Fits depth ↔ p.Fits (depth + 1) := by
  simp only [Fits, formula, nesting]
  omega

theorem fits_not : (not p).Fits depth ↔ p.Fits depth ∧ p.formula.height < maxDepth := by
  simp only [Fits, formula, nesting, Formula.height]
  omega

theorem fits_binary {c : Connective} : (binary c p q).Fits depth ↔
    p.Fits depth ∧ q.Fits depth ∧ max p.formula.height q.formula.height + 1 ≤ maxDepth := by
  simp only [Fits, formula, nesting, Formula.height]
  omega

end Phrase

end Sentential
