import Sentential.Parser
import Sentential.Proofs.Results

/-!
# The parser with registers

The parser as it runs: how much has been read, how many parentheses are open and which groups have
been closed stands in registers, which are changed in place and stay as they are when a call fails.
The functions call each other with nothing that bounds the calls beforehand, so a call that did not
come to an end would have no outcome (`Machine.run`). All that the registers held is kept beside
them.
-/

namespace Sentential

/-- The groups are in the order in which they were closed. -/
structure Registers where
  index : Nat
  depth : Nat
  groups : List Group
  deriving DecidableEq, Repr

namespace Registers

def bump (r : Registers) : Registers := { r with index := r.index + 1 }

def enter (r : Registers) : Registers := { r with depth := r.depth + 1 }

def leave (r : Registers) : Registers := { r with depth := r.depth - 1 }

def add (group : Group) (r : Registers) : Registers := { r with groups := r.groups ++ [group] }

end Registers

/-- What the registers hold, and what they held before, the latest first. -/
structure History where
  now : Registers
  past : List Registers
  deriving DecidableEq, Repr

namespace History

def states (h : History) : List Registers := h.now :: h.past

def change (f : Registers → Registers) (h : History) : History := ⟨f h.now, h.states⟩

end History

/-- Why a call fails: by an error in the tokens, or by a look at a token where there is none. -/
inductive Stop
  | fault (e : SyntaxError)
  | outOfRange
  deriving DecidableEq, Repr

structure Measured where
  formula : Formula
  height : Nat
  deriving DecidableEq, Repr

abbrev Machine := ExceptT Stop (StateT History Option)

namespace Machine

/-- The outcome with the history behind it, if the machine stops at all. -/
def run {α : Type} (m : Machine α) (h : History) : Option (Except Stop α × History) :=
  (ExceptT.run m).run h

def registers : Machine Registers := return (← get).now

def change (f : Registers → Registers) : Machine Unit := modify (History.change f)

def fault {α : Type} (e : SyntaxError) : Machine α := throw (.fault e)

-- ---------------------------------------------------------------------------
-- Running a machine
-- ---------------------------------------------------------------------------

variable {α β : Type}

@[simp] theorem run_fault (e : SyntaxError) (h : History) :
    (fault e : Machine α).run h = some (.error (.fault e), h) := rfl

@[simp] theorem run_registers (h : History) : registers.run h = some (.ok h.now, h) := rfl

theorem run_bind (m : Machine α) (f : α → Machine β) (h : History) :
    (m >>= f).run h = match m.run h with
      | some (.ok a, next) => (f a).run next
      | some (.error e, next) => some (.error e, next)
      | none => none := by
  unfold Machine.run ExceptT.run StateT.run
  simp only [bind, ExceptT.bind, ExceptT.mk, StateT.bind, ExceptT.bindCont]
  cases m h with
  | none => rfl
  | some result =>
    obtain ⟨outcome, next⟩ := result
    cases outcome <;> rfl

/-- From this history the machine stops, and the outcome and the history behind it are as said. -/
def Reaches (m : Machine α) (h : History) (Q : Except Stop α → History → Prop) : Prop :=
  ∃ outcome next, m.run h = some (outcome, next) ∧ Q outcome next

section

variable {m : Machine α} {f : α → Machine β} {h : History}
variable {P : Except Stop α → History → Prop} {Q : Except Stop β → History → Prop}

theorem Reaches.bind (reaches : Reaches m h P)
    (ok : ∀ a next, P (.ok a) next → Reaches (f a) next Q)
    (error : ∀ e next, P (.error e) next → Q (.error e) next) : Reaches (m >>= f) h Q := by
  obtain ⟨outcome, next, run, post⟩ := reaches
  unfold Reaches
  rw [run_bind, run]
  cases outcome with
  | ok a => exact ok a next post
  | error e => exact ⟨_, _, rfl, error e next post⟩

theorem Reaches.of_run {outcome : Except Stop α} {next : History}
    (run : m.run h = some (outcome, next)) (post : P outcome next) : Reaches m h P :=
  ⟨outcome, next, run, post⟩

theorem reaches_pure {a : α} (post : P (.ok a) h) : Reaches (pure a) h P := .of_run rfl post

theorem reaches_fault {e : SyntaxError} (post : P (.error (.fault e)) h) :
    Reaches (fault e) h P := .of_run rfl post

theorem reaches_registers {f : Registers → Machine β} (rest : Reaches (f h.now) h Q) :
    Reaches (registers >>= f) h Q := rest

theorem reaches_change {g : Registers → Registers} {f : Unit → Machine β}
    (rest : Reaches (f ()) (h.change g) Q) : Reaches (change g >>= f) h Q := rest

end

end Machine

-- ---------------------------------------------------------------------------
-- The parser
-- ---------------------------------------------------------------------------

def Measured.negate (body : Measured) (negation : Token) : Machine Measured :=
  if body.height < maxDepth then return ⟨.not body.formula, body.height + 1⟩
  else Machine.fault (.tooDeep negation.position)

structure Input where
  tokens : List Token
  deriving DecidableEq, Repr

namespace Input

open Machine (Reaches registers change fault)

def peek (input : Input) : Machine (Option Token) := return input.tokens[(← registers).index]?

theorem reaches_peek {β : Type} {h : History} {Q : Except Stop β → History → Prop} {input : Input}
    {f : Option Token → Machine β} {next : Option Token}
    (here : input.tokens[h.now.index]? = next) (rest : Reaches (f next) h Q) :
    Reaches (input.peek >>= f) h Q := by
  subst here
  exact rest

def dangling (input : Input) : Machine Measured := do
  match (← registers).index with
  | 0 => fault .emptyFormula
  | i + 1 =>
    match input.tokens[i]? with
    | some t => fault (.danglingOperator (String.ofList t.spelling) t.position)
    | none => throw .outOfRange

/-- Passes a run of negations, and gives it backwards before what was passed already. -/
def negations (input : Input) (passed : List Token) : Machine (List Token) := do
  match ← input.peek with
  | none => return passed
  | some t =>
    if t.isNegation then
      change Registers.bump
      input |>.negations (t :: passed)
    else return passed
partial_fixpoint

def close (input : Input) (opening : Token) (start : Nat) (body : Measured) :
    Machine Measured := do
  change Registers.leave
  let stop := (← registers).index
  match ← input.peek with
  | none => fault (.unmatchedOpening opening.position)
  | some t =>
    if t.symbol = .closing then
      change Registers.bump
      let depth := (← registers).depth
      change (Registers.add ⟨body.formula, start, stop, depth⟩)
      return body
    else fault t.unexpected

mutual

def chains (input : Input) : List Connective → Machine Measured
  | [] => input |>.negated
  | c :: tighter => do
    let left ← input |>.chains tighter
    input |>.chain c tighter left
partial_fixpoint

def chain (input : Input) (c : Connective) (tighter : List Connective) (left : Measured) :
    Machine Measured := do
  match ← input.peek with
  | none => return left
  | some t =>
    if t.symbol = .op (.binary c) then
      change Registers.bump
      let right ← input |>.chains tighter
      let height := max left.height right.height + 1
      if height ≤ maxDepth then
        input |>.chain c tighter ⟨.binary c left.formula right.formula, height⟩
      else fault (.tooDeep t.position)
    else return left
partial_fixpoint

def negated (input : Input) : Machine Measured := do
  let run ← input.negations []
  let body ← input |>.atom
  run.foldlM Measured.negate body
partial_fixpoint

def atom (input : Input) : Machine Measured := do
  match ← input.peek with
  | none => input.dangling
  | some t =>
    match t.symbol with
    | .var v =>
      change Registers.bump
      return ⟨.var v, 1⟩
    | .const b =>
      change Registers.bump
      return ⟨.const b, 1⟩
    | .opening => input |>.group t
    | .closing => input.dangling
    | .op _ => fault (.misplacedOperator (String.ofList t.spelling) t.position)
partial_fixpoint

def group (input : Input) (opening : Token) : Machine Measured := do
  if maxDepth ≤ (← registers).depth then fault (.tooDeep opening.position)
  else
    change Registers.bump
    if (← input.peek).any (·.symbol == .closing) then
      fault (.emptyParentheses opening.position)
    else
      let start := (← registers).index
      change Registers.enter
      let body ← input |>.chains Connective.all
      input.close opening start body
partial_fixpoint

end

/-- The groups, which are collected as they close, are given as they open. -/
def read (input : Input) : Machine Parsed := do
  if input.tokens.isEmpty then fault .emptyFormula
  else
    match Token.checkParentheses input.tokens with
    | .error e => fault e
    | .ok _ =>
      let root ← input.chains Connective.all
      match ← input.peek with
      | some t => fault t.unexpected
      | none =>
        let groups := (← registers).groups
        return ⟨root.formula, input.tokens, groups.mergeSort (fun g k => g.start ≤ k.start)⟩

end Input

end Sentential
