import Sentential.Proofs.Sessions

/-!
# Undoing leaves no trace

Of all the commands of a session few survive: the last start since the last reset, and the rules
applied since then that were not taken back. As an undo goes back to the very derivation that the
application had been made in, the survivors meet the formulas that they met at first. They are
accepted again, and lead to the session that all commands led to: `Session.after_survivors`.
-/

namespace Sentential

-- ---------------------------------------------------------------------------
-- What survives
-- ---------------------------------------------------------------------------

structure Application where
  rule : Rule
  text : String
  added : Step
  deriving DecidableEq, Repr

def Application.command (a : Application) : Command := .apply a.rule a.text

/-- A start, and the applications since then that were not taken back, the latest one first. -/
structure Survivors where
  text : String
  applied : List Application
  deriving DecidableEq, Repr

namespace Survivors

def commands : Option Survivors → List Command
  | none => []
  | some s => .start s.text :: (s.applied.map Application.command).reverse

def note (survivors? : Option Survivors) : Command × Option Step → Option Survivors
  | (.start text, _) => some ⟨text, []⟩
  | (.apply rule text, some added) =>
    survivors?.map fun s => { s with applied := ⟨rule, text, added⟩ :: s.applied }
  | (.apply _ _, none) => survivors?
  | (.undo, _) => survivors?.map fun s => { s with applied := s.applied.tail }
  | (.reset, _) => none

theorem commands_apply (text : String) (a : Application) (applied : List Application) :
    commands (some ⟨text, a :: applied⟩) = commands (some ⟨text, applied⟩) ++ [a.command] := by
  simp [commands]

variable {survivors? : Option Survivors} {noted : List Command}

theorem sublist_note (h : (commands survivors?).Sublist noted) (c : Command)
    (answer : Option Step) : (commands (note survivors? (c, answer))).Sublist (noted ++ [c]) := by
  cases c with
  | start text => exact List.sublist_append_right noted [.start text]
  | apply rule text =>
    cases answer with
    | none => exact h.trans (List.sublist_append_left ..)
    | some added =>
      cases survivors? with
      | none => exact List.nil_sublist _
      | some s =>
        have longer := commands_apply s.text ⟨rule, text, added⟩ s.applied
        exact longer ▸ h.append_right [.apply rule text]
  | undo =>
    refine List.Sublist.trans ?_ (h.trans (List.sublist_append_left ..))
    cases survivors? with
    | none => exact .refl _
    | some s => exact (((List.tail_sublist s.applied).map _).reverse).cons_cons _
  | reset => exact List.nil_sublist _

theorem sublist_foldl_note (h : (commands survivors?).Sublist noted)
    (succeeded : List (Command × Option Step)) :
    (commands (succeeded.foldl note survivors?)).Sublist (noted ++ succeeded.map Prod.fst) := by
  induction succeeded generalizing survivors? noted with
  | nil => simpa using h
  | cons event succeeded ih =>
    obtain ⟨c, answer⟩ := event
    simpa using ih (sublist_note h c answer)

end Survivors

namespace Session

/-- The commands that succeed when they are performed one after the other, with their answers. -/
def successes (s : Session) : List Command → List (Command × Option Step)
  | [] => []
  | c :: commands =>
    match (perform c).run s with
    | (.ok answer, next) => (c, answer) :: successes next commands
    | (.error _, next) => successes next commands

theorem sublist_successes (s : Session) (commands : List Command) :
    ((successes s commands).map Prod.fst).Sublist commands := by
  induction commands generalizing s with
  | nil => exact .refl _
  | cons c commands ih =>
    rw [successes]
    split
    next answer next _ => exact (ih next).cons_cons c
    next next _ => exact (ih next).cons c

def survivors (commands : List Command) : Option Survivors :=
  (successes {} commands).foldl Survivors.note none

-- ---------------------------------------------------------------------------
-- What the survivors lead to
-- ---------------------------------------------------------------------------

/-- The survivors lead to the derivation, and each application adds there what it is said to have
added. -/
inductive LeadsTo : Option Survivors → Derivation → Prop
  | nothing : LeadsTo none {}
  | start {text : String} {d : Derivation} {shown : Option Step} :
      ({} : Derivation).run (.start text) = .ok (d, shown) → LeadsTo (some ⟨text, []⟩) d
  | apply {text new : String} {applied : List Application} {d next : Derivation} {rule : Rule}
      {added : Step} : LeadsTo (some ⟨text, applied⟩) d →
      d.run (.apply rule new) = .ok (next, some added) →
      LeadsTo (some ⟨text, ⟨rule, new, added⟩ :: applied⟩) next

variable {survivors? : Option Survivors} {d next : Derivation} {c : Command} {answer : Option Step}
  {text : String} {rule : Rule} {s : Session}

theorem exists_push_of_start (h : d.run (.start text) = .ok (next, answer)) :
    ∃ line, next = ⟨[line]⟩ ∧ answer = some line.step := by
  obtain ⟨started, rfl⟩ := Derivation.run_eq_ok.mp h
  obtain ⟨line, -, rfl⟩ := Derivation.start_eq_ok.mp started
  exact ⟨line, rfl, rfl⟩

theorem exists_push_of_apply (h : d.run (.apply rule text) = .ok (next, answer)) :
    d.lines ≠ [] ∧ ∃ line, next = d.push line ∧ answer = some line.step := by
  obtain ⟨applied, rfl⟩ := Derivation.run_eq_ok.mp h
  obtain ⟨last, line, hlast, -, -, rfl⟩ := Derivation.apply_eq_ok.mp applied
  refine ⟨?_, line, rfl, Derivation.getLast?_steps_push d line⟩
  rintro none
  simp [none] at hlast

def undoOutcome : Option Survivors → Except ProofError (Option Step)
  | none => .error .noInitialFormula
  | some ⟨_, []⟩ => .error .nothingToUndo
  | some ⟨_, last :: _⟩ => .ok (some last.added)

theorem LeadsTo.undoOutcome_eq (h : LeadsTo survivors? d) :
    (d.run .undo).map Prod.snd = undoOutcome survivors? := by
  cases h with
  | nothing => rfl
  | start started =>
    obtain ⟨line, rfl, -⟩ := exists_push_of_start started
    rfl
  | apply before applied =>
    obtain ⟨filled, line, rfl, shown⟩ := exists_push_of_apply applied
    rw [Derivation.run, Derivation.undo_push filled, ok_bind, Derivation.getLast?_steps_push,
      ← shown]
    rfl

/-- A command that succeeds takes what the survivors lead to where the new survivors lead. -/
theorem LeadsTo.note (h : LeadsTo survivors? d) (ran : d.run c = .ok (next, answer)) :
    LeadsTo (Survivors.note survivors? (c, answer)) next := by
  cases c with
  | start text => exact .start ran
  | apply rule text =>
    obtain ⟨filled, line, -, rfl⟩ := exists_push_of_apply ran
    cases h with
    | nothing => exact absurd rfl filled
    | start started => exact .apply (.start started) ran
    | apply before applied => exact .apply (.apply before applied) ran
  | undo =>
    obtain ⟨undone, -⟩ := Derivation.run_eq_ok.mp ran
    cases h with
    | nothing => simp [Derivation.undo] at undone
    | start started =>
      obtain ⟨line, rfl, -⟩ := exists_push_of_start started
      simp [Derivation.undo] at undone
    | apply before applied =>
      -- The derivation before the application is the one that the undo goes back to.
      obtain ⟨filled, line, rfl, -⟩ := exists_push_of_apply applied
      rw [Derivation.undo_push filled] at undone
      obtain rfl := Except.ok.inj undone
      exact before
  | reset =>
    obtain ⟨rfl, -⟩ := Derivation.run_eq_ok.mp ran
    exact .nothing

theorem LeadsTo.foldl_note (h : LeadsTo survivors? d) (commands : List Command) :
    ∃ last, LeadsTo ((successes (ofDerivation d) commands).foldl Survivors.note survivors?) last ∧
      commands.foldl (fun s c => ((perform c).run s).2) (ofDerivation d) = ofDerivation last := by
  induction commands generalizing survivors? d with
  | nil => exact ⟨d, h, rfl⟩
  | cons c commands ih =>
    rw [List.foldl_cons, successes, run_perform]
    cases ran : d.run c with
    | error e => exact ih h
    | ok outcome =>
      obtain ⟨next, answer⟩ := outcome
      exact ih (h.note ran)

theorem LeadsTo.mapM_perform (h : LeadsTo survivors? d) :
    ((Survivors.commands survivors?).mapM perform).run {} =
      (.ok (d.steps.map some), ofDerivation d) := by
  have idle : (([] : List Command).mapM perform).run {} = (.ok [], ofDerivation {}) := rfl
  induction h with
  | nothing => exact idle
  | start started =>
    obtain ⟨line, rfl, rfl⟩ := exists_push_of_start started
    exact run_mapM_concat idle started
  | apply before applied ih =>
    obtain ⟨-, line, rfl, shown⟩ := exists_push_of_apply applied
    rw [Survivors.commands_apply, Derivation.push, Derivation.steps, List.map_append,
      List.map_append]
    rw [shown] at applied
    exact run_mapM_concat ih applied

theorem settle_fst (d : Derivation) (result : Except ProofError (Derivation × Option Step)) :
    (settle d result).1 = result.map Prod.snd := by
  cases result <;> rfl

theorem foldl_of_mapM_perform {commands : List Command} {answers : List (Option Step)}
    {s last : Session} (h : (commands.mapM perform).run s = (.ok answers, last)) :
    commands.foldl (fun s c => ((perform c).run s).2) s = last := by
  induction commands generalizing s answers with
  | nil => exact (Prod.mk.inj h).2
  | cons c commands ih =>
    rw [List.mapM_cons, SessionM.run_bind] at h
    rw [List.foldl_cons]
    split at h
    next answer next performed =>
      rw [performed]
      rw [SessionM.run_bind] at h
      split at h
      next answers last' others =>
        obtain rfl := (Prod.mk.inj h).2
        exact ih others
      next => simp at h
    next => simp at h

/-- Whatever the commands of a session were and whichever of them failed, those that survive are
among them in their order; performed alone they all succeed, and lead to the same steps and
formulas. An undo then answers with the step that the latest surviving application had added, if
there is one. -/
theorem after_survivors (commands : List Command) :
    (Survivors.commands (survivors commands)).Sublist commands ∧
    after (Survivors.commands (survivors commands)) = after commands ∧
    ((Survivors.commands (survivors commands)).mapM perform).run {} =
      (.ok ((after commands).steps.map some), after commands) ∧
    ((perform .undo).run (after commands)).1 = undoOutcome (survivors commands) := by
  obtain ⟨d, leads, held⟩ := LeadsTo.nothing.foldl_note commands
  have held : after commands = ofDerivation d := held
  have again := leads.mapM_perform
  refine ⟨?_, (foldl_of_mapM_perform again).trans held.symm, ?_, ?_⟩
  · have nothing : (Survivors.commands none).Sublist [] := .refl _
    exact (Survivors.sublist_foldl_note nothing _).trans (sublist_successes {} commands)
  · rw [held]
    exact again
  · rw [held, run_perform]
    exact (settle_fst d _).trans leads.undoOutcome_eq

/-- A start is replaced, an application fails, and another one is undone. -/
example : survivors [.start "B", .start "~~(A & TRUE)", .apply .identity "B",
    .apply .doubleNegation "A & TRUE", .apply .identity "A", .undo,
    .apply .commutative "TRUE & A"] =
      some ⟨"~~(A & TRUE)", [⟨.commutative, "TRUE & A", ⟨"⊤ ∧ A", Rule.commutative.label⟩⟩,
        ⟨.doubleNegation, "A & TRUE", ⟨"A ∧ ⊤", Rule.doubleNegation.label⟩⟩]⟩ := by decide +kernel

end Session

end Sentential
