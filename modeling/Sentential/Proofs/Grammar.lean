import Sentential.Symbol
import Sentential.Proofs.Splitting

/-!
# The grammar of formulas

A phrase is a derivation tree: it keeps the parentheses that a formula forgets. A well-formed phrase
puts under each operator only what binds tightly enough, on the right of a connective more tightly
than the connective itself, so chains lean to the left. `Phrase.unambiguous`: a list of symbols has
at most one derivation.
-/

namespace Sentential

inductive Phrase
  | var (name : Char)
  | const (value : Bool)
  | enclosed (body : Phrase)
  | not (body : Phrase)
  | binary (c : Connective) (left right : Phrase)
  deriving DecidableEq, Repr

namespace Phrase

def symbols : Phrase → List Symbol
  | .var v => [.var v]
  | .const b => [.const b]
  | .enclosed p => .opening :: p.symbols ++ [.closing]
  | .not p => .op .not :: p.symbols
  | .binary c p q => p.symbols ++ .op (.binary c) :: q.symbols

def formula : Phrase → Formula
  | .var v => .var v
  | .const b => .const b
  | .enclosed p => p.formula
  | .not p => .not p.formula
  | .binary c p q => .binary c p.formula q.formula

def level : Phrase → Nat
  | .binary c .. => c.level
  | .not _ => 6
  | .var _ | .const _ | .enclosed _ => 7

def WellFormed : Phrase → Prop
  | .var _ | .const _ => True
  | .enclosed p => p.WellFormed
  | .not p => p.WellFormed ∧ 6 ≤ p.level
  | .binary c p q => p.WellFormed ∧ q.WellFormed ∧ c.level ≤ p.level ∧ c.level < q.level

/-- The symbols derive from the grammar by way of the phrase. -/
def Derives (p : Phrase) (symbols : List Symbol) : Prop := p.WellFormed ∧ p.symbols = symbols

def nesting : Phrase → Nat
  | .var _ | .const _ => 0
  | .enclosed p => p.nesting + 1
  | .not p => p.nesting
  | .binary _ p q => max p.nesting q.nesting

end Phrase

namespace Symbol

/-- How many more parentheses are opened than closed. -/
def balance : List Symbol → Int
  | [] => 0
  | .opening :: symbols => balance symbols + 1
  | .closing :: symbols => balance symbols - 1
  | .var _ :: symbols | .const _ :: symbols | .op _ :: symbols => balance symbols

/-- The number of parentheses that each symbol lies inside, where `opened` are open before the
first. A parenthesis does not lie inside itself. -/
def depths (opened : Nat) : List Symbol → List Nat
  | [] => []
  | .opening :: symbols => opened :: depths (opened + 1) symbols
  | .closing :: symbols => (opened - 1) :: depths (opened - 1) symbols
  | .var _ :: symbols | .const _ :: symbols | .op _ :: symbols => opened :: depths opened symbols

theorem balance_append (symbols others : List Symbol) :
    balance (symbols ++ others) = balance symbols + balance others := by
  induction symbols with
  | nil => simp [balance]
  | cons s symbols ih =>
    cases s <;> simp only [List.cons_append, balance, ih]
    all_goals omega

end Symbol

namespace Phrase

open Sentential.Symbol (balance depths balance_append)

variable {p q : Phrase} {c : Connective}

theorem level_pos (p : Phrase) : 1 ≤ p.level := by
  cases p with
  | binary c => exact c.level_pos
  | _ => simp [level]

theorem exists_binary_of_level (h : p.level < 6) : ∃ c l r, p = .binary c l r := by
  cases p with
  | binary c l r => exact ⟨c, l, r, rfl⟩
  | _ => simp [level] at h

theorem symbols_ne_nil (p : Phrase) : p.symbols ≠ [] := by
  cases p <;> simp [symbols]

theorem symbols_eq_cons (p : Phrase) :
    ∃ s rest, p.symbols = s :: rest ∧ s.startsOperand = true := by
  induction p with
  | var v => exact ⟨_, _, rfl, rfl⟩
  | const b => exact ⟨_, _, rfl, rfl⟩
  | enclosed p ih => exact ⟨_, _, rfl, rfl⟩
  | not p ih => exact ⟨_, _, rfl, rfl⟩
  | binary c p q ihp ihq =>
    obtain ⟨s, rest, h, starts⟩ := ihp
    exact ⟨s, rest ++ .op (.binary c) :: q.symbols, by simp [symbols, h], starts⟩

theorem balance_symbols (p : Phrase) : balance p.symbols = 0 := by
  induction p with
  | var | const => rfl
  | enclosed p ih => simp [symbols, balance, balance_append, ih]
  | not p ih => simpa [symbols, balance] using ih
  | binary c p q ihp ihq => simp [symbols, balance, balance_append, ihp, ihq]

theorem balance_nonneg {u v : List Symbol} (h : p.symbols = u ++ v) : 0 ≤ balance u := by
  induction p generalizing u v with
  | var | const =>
    cases u with
    | nil => simp [balance]
    | cons s u =>
      simp only [symbols, List.cons_append, List.cons.injEq, List.nil_eq,
        List.append_eq_nil_iff] at h
      obtain ⟨rfl, rfl, -⟩ := h
      simp [balance]
  | enclosed p ih =>
    cases u with
    | nil => simp [balance]
    | cons s u =>
      simp only [symbols, List.cons_append, List.cons.injEq] at h
      obtain ⟨rfl, h⟩ := h
      rcases List.append_eq_append_iff.mp h with ⟨rest, rfl, hrest⟩ | ⟨rest, h, -⟩
      · have : -1 ≤ balance rest := by
          cases rest with
          | nil => simp [balance]
          | cons s rest =>
            obtain ⟨rfl, rfl, -⟩ : .closing = s ∧ rest = [] ∧ v = [] := by simpa using hrest
            simp [balance]
        simp only [balance, balance_append, balance_symbols]
        omega
      · have := ih h
        simp only [balance]
        omega
  | not p ih =>
    cases u with
    | nil => simp [balance]
    | cons s u =>
      simp only [symbols, List.cons_append, List.cons.injEq] at h
      obtain ⟨rfl, h⟩ := h
      simpa [balance] using ih h
  | binary c p q ihp ihq =>
    rcases List.append_eq_append_iff.mp h with ⟨rest, rfl, hrest⟩ | ⟨rest, h, -⟩
    · cases rest with
      | nil => simp [balance_symbols]
      | cons s rest =>
        simp only [List.cons_append, List.cons.injEq] at hrest
        obtain ⟨rfl, hrest⟩ := hrest
        simpa [balance_append, balance_symbols, balance] using ihq hrest
    · exact ihp h

theorem level_le_of_exposed (hp : p.WellFormed) {u v : List Symbol}
    (h : p.symbols = u ++ .op (.binary c) :: v) (outside : balance u = 0) : p.level ≤ c.level := by
  induction p generalizing u v with
  | var | const =>
    cases u <;> simp [symbols] at h
  | enclosed p ih =>
    -- Between the parentheses, one is open at every symbol.
    exfalso
    cases u with
    | nil => simp [symbols] at h
    | cons s u =>
      simp only [symbols, List.cons_append, List.cons.injEq] at h
      obtain ⟨rfl, h⟩ := h
      rcases List.append_eq_append_iff.mp h with ⟨rest, rfl, hrest⟩ | ⟨rest, h, -⟩
      · cases rest <;> simp at hrest
      · have := balance_nonneg h
        simp only [balance] at outside
        omega
  | not p ih =>
    cases u with
    | nil => simp [symbols] at h
    | cons s u =>
      simp only [symbols, List.cons_append, List.cons.injEq] at h
      obtain ⟨rfl, h⟩ := h
      exact Nat.le_trans hp.2 (ih hp.1 h outside)
  | binary d p q ihp ihq =>
    obtain ⟨wfp, wfq, left, right⟩ := hp
    rcases append_cons_eq_append_cons h with ⟨-, same, -⟩ | ⟨m, rfl, hm⟩ | ⟨m, hm, -⟩
    · cases same
      exact Nat.le_refl _
    · have outside : balance m = 0 := by
        simpa [balance_append, balance_symbols, balance] using outside
      exact Nat.le_trans (Nat.le_of_lt right) (ihq wfq hm outside)
    · exact Nat.le_trans left (ihp wfp hm outside)

theorem level_le_of_eq_binary (hp : p.WellFormed) {l r : Phrase}
    (h : p.symbols = (binary c l r).symbols) : p.level ≤ c.level :=
  level_le_of_exposed hp h (balance_symbols l)

/-- No symbol of the left operand can be the connective, as the right operand would then expose
the connective and bind too loosely. -/
theorem not_longer {l l' r r' : Phrase} (hr : r.WellFormed) (tight : c.level < r.level)
    {m : List Symbol} (hl : l'.symbols = l.symbols ++ .op (.binary c) :: m)
    (hm : r.symbols = m ++ .op (.binary c) :: r'.symbols) : False := by
  have outside : balance m = 0 := by
    have := balance_symbols l'
    simpa [hl, balance_append, balance_symbols, balance] using this
  have := level_le_of_exposed hr hm outside
  omega

theorem unambiguous (hp : p.WellFormed) (hq : q.WellFormed) (h : p.symbols = q.symbols) :
    p = q := by
  have loose {p : Phrase} (hp : p.WellFormed) {c : Connective} {l r : Phrase}
      (h : p.symbols = (binary c l r).symbols) : p.level < 6 :=
    Nat.lt_of_le_of_lt (level_le_of_eq_binary hp h) c.level_lt_six
  induction p generalizing q with
  | var v =>
    cases q with
    | var w => simpa [symbols] using h
    | binary d l r => simpa [level] using loose hp h
    | _ => simp [symbols] at h
  | const b =>
    cases q with
    | const a => simpa [symbols] using h
    | binary d l r => simpa [level] using loose hp h
    | _ => simp [symbols] at h
  | enclosed p ih =>
    cases q with
    | enclosed q =>
      have hq : q.WellFormed := hq
      have inside : p.symbols = q.symbols := by simpa [symbols] using h
      rw [ih hp hq inside]
    | binary d l r => simpa [level] using loose hp h
    | _ => simp [symbols] at h
  | not p ih =>
    cases q with
    | not q =>
      have body : p.symbols = q.symbols := by simpa [symbols] using h
      rw [ih hp.1 hq.1 body]
    | binary d l r => simpa [level] using loose hp h
    | _ => simp [symbols] at h
  | binary c l r ihl ihr =>
    obtain ⟨d, l', r', rfl⟩ := exists_binary_of_level (loose hq h.symm)
    -- Each connective is exposed in the other phrase, so neither binds more loosely.
    obtain rfl : c = d :=
      Connective.level_injective (Nat.le_antisymm (level_le_of_eq_binary hp h)
        (level_le_of_eq_binary hq h.symm))
    obtain ⟨wfl, wfr, -, tight⟩ := hp
    obtain ⟨wfl', wfr', -, tight'⟩ := hq
    rcases append_cons_eq_append_cons h with ⟨left, -, right⟩ | ⟨m, hl, hm⟩ | ⟨m, hl, hm⟩
    · rw [ihl wfl wfl' left, ihr wfr wfr' right]
    · exact (not_longer wfr tight hl hm).elim
    · exact (not_longer wfr' tight' hl hm).elim

theorem depths_symbols_append (p : Phrase) (opened : Nat) (rest : List Symbol) :
    depths opened (p.symbols ++ rest) = depths opened p.symbols ++ depths opened rest := by
  induction p generalizing opened rest with
  | var | const => rfl
  | enclosed p ih => simp [symbols, depths, ih]
  | not p ih => simp [symbols, depths, ih]
  | binary c p q ihp ihq => simp [symbols, depths, ihp, ihq]

theorem forall_depths_le {k : Nat} (p : Phrase) (opened : Nat) :
    (∀ d ∈ depths opened p.symbols, d ≤ k) ↔ opened + p.nesting ≤ k := by
  induction p generalizing opened with
  | var | const => simp [symbols, depths, nesting]
  | enclosed p ih =>
    have parts : depths opened (enclosed p).symbols =
        opened :: (depths (opened + 1) p.symbols ++ [opened]) := by
      simp [symbols, depths, depths_symbols_append]
    rw [parts, List.forall_mem_cons, List.forall_mem_append, ih, List.forall_mem_singleton, nesting]
    omega
  | not p ih =>
    have parts : depths opened (not p).symbols = opened :: depths opened p.symbols := by
      simp [symbols, depths]
    rw [parts, List.forall_mem_cons, ih, nesting]
    omega
  | binary c p q ihp ihq =>
    have parts : depths opened (binary c p q).symbols =
        depths opened p.symbols ++ opened :: depths opened q.symbols := by
      simp [symbols, depths, depths_symbols_append]
    rw [parts, List.forall_mem_append, List.forall_mem_cons, ihp, ihq, nesting]
    omega

end Phrase

end Sentential
