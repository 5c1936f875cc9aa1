import Mathlib.Control.Monad.Basic
import Sentential.Session
import Sentential.Proofs.Derivations

/-!
# Sessions hold derivations

The two lists of a session are at all times those of one derivation, and a command that fails leaves
both as they were: `run_perform` tells the outcome of every command from what it does to the
derivation. What derivations keep, sessions keep through any commands.
-/

namespace Sentential

namespace SessionM

variable {α β : Type}

@[simp] theorem run_pure (a : α) (s : Session) : (pure a : SessionM α).run s = (.ok a, s) := rfl

@[simp] theorem run_throw (e : ProofError) (s : Session) :
    (throw e : SessionM α).run s = (.error e, s) := rfl

@[simp] theorem run_get (s : Session) : (get : SessionM Session).run s = (.ok s, s) := rfl

@[simp] theorem run_modify (f : Session → Session) (s : Session) :
    (modify f : SessionM Unit).run s = (.ok (), f s) := rfl

@[simp] theorem run_lift (x : Except ProofError α) (s : Session) :
    (liftM x : SessionM α).run s = (x, s) := by
  cases x <;> rfl

theorem run_bind (m : SessionM α) (f : α → SessionM β) (s : Session) :
    (m >>= f).run s = match m.run s with
      | (.ok a, next) => (f a).run next
      | (.error e, next) => (.error e, next) := by
  unfold SessionM.run ExceptT.run StateT.run
  simp only [bind, ExceptT.bind, ExceptT.mk, StateT.bind, ExceptT.bindCont]
  cases m s with
  | mk result next => cases result <;> rfl

theorem run_map (f : α → β) (m : SessionM α) (s : Session) :
    (f <$> m).run s = ((m.run s).1.map f, (m.run s).2) := by
  unfold SessionM.run ExceptT.run StateT.run
  simp only [Functor.map, ExceptT.map, ExceptT.mk, bind, StateT.bind]
  cases m s with
  | mk result next => cases result <;> rfl

end SessionM

namespace Session

-- ---------------------------------------------------------------------------
-- What the commands do to a derivation
-- ---------------------------------------------------------------------------

def ofDerivation (d : Derivation) : Session := ⟨d.steps, d.formulas⟩

def settle (d : Derivation) :
    Except ProofError (Derivation × Option Step) → Except ProofError (Option Step) × Session
  | .ok (next, step) => (.ok step, ofDerivation next)
  | .error e => (.error e, ofDerivation d)

variable {d : Derivation} {line : Line} {text : String} {rule : Rule}

theorem run_push : (push line).run (ofDerivation d) = (.ok (), ofDerivation (d.push line)) := by
  simp [push, SessionM.run_bind, ofDerivation, Derivation.push, Derivation.steps,
    Derivation.formulas]

theorem run_lastStep_push :
    lastStep.run (ofDerivation (d.push line)) = (.ok line.step, ofDerivation (d.push line)) := by
  simp [lastStep, SessionM.run_bind, ofDerivation, Derivation.getLast?_steps_push]

theorem run_perform_start : (perform (.start text)).run (ofDerivation d) =
    settle d (d.run (.start text)) := by
  have cleared : clear.run (ofDerivation d) = (.ok (), ofDerivation {}) := rfl
  rw [perform, SessionM.run_map, start, SessionM.run_bind, SessionM.run_lift]
  cases read : Line.ofText text initialLabel with
  | error e => simp [Derivation.run, Derivation.start, read, settle, Except.map]
  | ok line =>
    simp only [SessionM.run_bind, cleared, run_push, run_lastStep_push]
    simp [Derivation.run, Derivation.start, read, settle, Except.map, Derivation.push,
      Derivation.steps]

theorem run_perform_apply : (perform (.apply rule text)).run (ofDerivation d) =
    settle d (d.run (.apply rule text)) := by
  have current : (ofDerivation d).formulas.getLast? = d.lines.getLast?.map Line.formula :=
    List.getLast?_map
  have shown : (ofDerivation d).steps.getLast? = d.lines.getLast?.map Line.step :=
    List.getLast?_map
  rw [perform, SessionM.run_map, apply, SessionM.run_bind, SessionM.run_get]
  cases last : d.lines.getLast? with
  | none =>
    simp [current, shown, last, Derivation.run, Derivation.apply, settle, Except.map]
  | some l =>
    simp only [current, shown, last, Option.map_some, SessionM.run_bind, SessionM.run_lift]
    cases read : Line.ofText text rule.label with
    | error e => simp [Derivation.run, Derivation.apply, last, read, settle, Except.map]
    | ok line =>
      by_cases checked : rule.check l.formula line.formula
      · simp only [checked, if_true, SessionM.run_bind, run_push, run_lastStep_push]
        simp [checked, Derivation.run, Derivation.apply, last, read, settle, Except.map,
          Derivation.getLast?_steps_push]
      · simp [checked, Derivation.run, Derivation.apply, last, read, settle, Except.map]

theorem run_undo_push (filled : d.lines ≠ []) :
    undo.run (ofDerivation (d.push line)) = (.ok line.step, ofDerivation d) := by
  obtain ⟨n, length⟩ : ∃ n, d.lines.length = n + 1 :=
    Nat.exists_eq_succ_of_ne_zero (mt List.length_eq_zero_iff.mp filled)
  simp [undo, SessionM.run_bind, SessionM.run_map, ofDerivation, Derivation.push, Derivation.steps,
    Derivation.formulas, length, Except.map]

theorem run_perform_undo : (perform .undo).run (ofDerivation d) = settle d (d.run .undo) := by
  rcases d.eq_empty_or_push with rfl | ⟨⟨before⟩, last, rfl⟩
  · rfl
  cases before with
  | nil => rfl
  | cons first between =>
    have filled : (⟨first :: between⟩ : Derivation).lines ≠ [] := by simp
    rw [perform, SessionM.run_map, run_undo_push filled, Derivation.run,
      Derivation.undo_push filled, ok_bind, Derivation.getLast?_steps_push]
    rfl

/-- A command does to a session what it does to the derivation that the session holds. -/
theorem run_perform (c : Command) : (perform c).run (ofDerivation d) = settle d (d.run c) := by
  cases c with
  | start text => exact run_perform_start
  | apply rule text => exact run_perform_apply
  | undo => exact run_perform_undo
  | reset => rfl

-- ---------------------------------------------------------------------------
-- What a session keeps
-- ---------------------------------------------------------------------------

structure Consistent (s : Session) : Prop where
  paired : s.steps.length = s.formulas.length
  spelled : ∀ (i : Nat) (step : Step) (f : Formula), s.steps[i]? = some step →
    s.formulas[i]? = some f → Formula.ofText step.formula.toList = .ok f
  seeded : ∀ step, s.steps[0]? = some step → step.ruleApplied = initialLabel
  linked : ∀ (i : Nat) (source target : Formula) (step : Step), s.formulas[i]? = some source →
    s.formulas[i + 1]? = some target → s.steps[i + 1]? = some step →
      ∃ rule : Rule, step.ruleApplied = rule.label ∧ rule.check source target

theorem getElem?_steps {i : Nat} {step : Step} :
    (ofDerivation d).steps[i]? = some step ↔
      ∃ line, d.lines[i]? = some line ∧ line.step = step := by
  simp [ofDerivation, Derivation.steps]

theorem getElem?_formulas {i : Nat} {f : Formula} :
    (ofDerivation d).formulas[i]? = some f ↔
      ∃ line, d.lines[i]? = some line ∧ line.formula = f := by
  simp [ofDerivation, Derivation.formulas]

theorem consistent_ofDerivation (h : d.WellMade) : (ofDerivation d).Consistent where
  paired := by simp [ofDerivation, Derivation.steps, Derivation.formulas]
  spelled := by
    intro i step f hstep hf
    obtain ⟨line, here, rfl⟩ := getElem?_steps.mp hstep
    obtain ⟨line', here', rfl⟩ := getElem?_formulas.mp hf
    obtain rfl : line = line' := Option.some.inj (here.symm.trans here')
    exact Formula.read_eq_ok.mp (h.1 line (List.mem_of_getElem? here))
  seeded := by
    intro step hstep
    obtain ⟨line, here, rfl⟩ := getElem?_steps.mp hstep
    rcases h.2 with rfl | valid
    · simp at here
    · obtain ⟨first, lines, eq, labelled, -⟩ := Derivation.isValid_cases valid
      obtain rfl : first = line := by simpa [eq] using here
      exact labelled
  linked := by
    intro i source target step hs ht hstep
    obtain ⟨line, before, rfl⟩ := getElem?_formulas.mp hs
    obtain ⟨next, behind, rfl⟩ := getElem?_formulas.mp ht
    obtain ⟨next', behind', rfl⟩ := getElem?_steps.mp hstep
    obtain rfl : next = next' := Option.some.inj (behind.symm.trans behind')
    rcases h.2 with rfl | valid
    · simp at before
    · obtain ⟨first, lines, eq, -, chained⟩ := Derivation.isValid_cases valid
      rw [eq] at before behind
      exact Derivation.isChained_link chained before (by simpa using behind)

theorem all_zip_eq_isChained (previous : Line) (lines : List Line) :
    ((lines.map Line.step).zip (((previous :: lines).map Line.formula).zip
      (lines.map Line.formula))).all (fun (step, source, target) =>
        (Rule.ofLabel? step.ruleApplied).any (·.check source target)) =
      Derivation.isChained previous lines := by
  induction lines generalizing previous with
  | nil => rfl
  | cons line lines ih =>
    simp only [List.map_cons, List.zip_cons_cons, List.all_cons, Derivation.isChained]
    rw [← List.map_cons, ih]

theorem isValid_ofDerivation (d : Derivation) : (ofDerivation d).isValid = d.isValid := by
  obtain ⟨lines⟩ := d
  cases lines with
  | nil => rfl
  | cons first lines => exact congrArg _ (all_zip_eq_isChained first lines)

theorem settle_fst_eq_error {result : Except ProofError (Derivation × Option Step)}
    {e : ProofError} : (settle d result).1 = .error e ↔ result = .error e := by
  cases result <;> simp [settle]

theorem hasInitialFormula_ofDerivation (d : Derivation) :
    (ofDerivation d).hasInitialFormula = !d.lines.isEmpty := by
  rw [hasInitialFormula, ofDerivation, Derivation.steps, List.isEmpty_map]

-- ---------------------------------------------------------------------------
-- Runs of commands
-- ---------------------------------------------------------------------------

theorem foldl_run_ofDerivation (h : d.WellMade) (commands : List Command) :
    ∃ last : Derivation, last.WellMade ∧
      commands.foldl (fun s c => ((perform c).run s).2) (ofDerivation d) = ofDerivation last := by
  induction commands generalizing d with
  | nil => exact ⟨d, h, rfl⟩
  | cons c commands ih =>
    rw [List.foldl_cons, run_perform]
    cases result : d.run c with
    | error e => exact ih h
    | ok outcome =>
      obtain ⟨next, step⟩ := outcome
      exact ih (h.run result)

/-- Whatever the commands and whichever of them fail, a session holds a well-made derivation. -/
theorem exists_after_eq (commands : List Command) :
    ∃ d : Derivation, d.WellMade ∧ after commands = ofDerivation d :=
  foldl_run_ofDerivation Derivation.wellMade_empty commands

/-- A session has an initial formula just if its steps replay. Without one there is nothing that a
rule could be applied to or that could be undone, and that is the only reason for this error. -/
theorem hasInitialFormula_after (commands : List Command) :
    (after commands).isValid = (after commands).hasInitialFormula ∧
      (after commands).current?.isSome = (after commands).hasInitialFormula ∧
      ∀ c : Command, ((perform c).run (after commands)).1 = .error .noInitialFormula ↔
        (after commands).hasInitialFormula = false ∧ ((∃ rule text, c = .apply rule text) ∨
          c = .undo) := by
  obtain ⟨d, ⟨-, made⟩, held⟩ := exists_after_eq commands
  rw [held, isValid_ofDerivation, hasInitialFormula_ofDerivation]
  refine ⟨?_, ?_, ?_⟩
  · rcases made with rfl | valid
    · rfl
    · obtain ⟨first, lines, eq, -⟩ := Derivation.isValid_cases valid
      simp [valid, eq]
  · rw [current?, ofDerivation, Derivation.formulas, List.getLast?_map, Option.isSome_map]
    cases d.lines with
    | nil => rfl
    | cons first lines => rw [List.getLast?_cons]; rfl
  · intro c
    rw [run_perform, settle_fst_eq_error, Derivation.run_eq_noInitialFormula, Bool.not_eq_false',
      List.isEmpty_iff]

theorem run_mapM_concat {commands : List Command} {c : Command} {shown : List (Option Step)}
    {next : Derivation} {step : Option Step} {s : Session}
    (before : (commands.mapM perform).run s = (.ok shown, ofDerivation d))
    (last : d.run c = .ok (next, step)) :
    ((commands ++ [c]).mapM perform).run s = (.ok (shown ++ [step]), ofDerivation next) := by
  rw [List.mapM_append, SessionM.run_bind, before]
  simp [SessionM.run_map, run_perform, last, settle, Except.map]

theorem head_run_undo (d : Derivation) :
    ((perform .undo).run (ofDerivation d)).2.steps[0]? = (ofDerivation d).steps[0]? := by
  rw [run_perform, Derivation.run]
  cases undone : d.undo with
  | error e => rfl
  | ok next =>
    obtain ⟨long, rfl⟩ := Derivation.undo_eq_ok.mp undone
    have first : d.lines.dropLast[0]? = d.lines[0]? := by
      rw [List.getElem?_dropLast, if_pos (by omega)]
    change (d.lines.dropLast.map Line.step)[0]? = (d.lines.map Line.step)[0]?
    rw [List.getElem?_map, List.getElem?_map, first]

/-- After any commands, failed ones included, the steps of a session and its formulas pair up: each
formula is what its step's text spells, the first step is labelled as such and every other one with
a rule that leads to its formula from the one before. A command that fails leaves the session as it
was, and undoing never takes the first step. So every proof that was reached by moves is valid. -/
theorem after_consistent :
    (∀ commands : List Command, (after commands).Consistent ∧
      (∀ (c : Command) (e : ProofError) (next : Session),
        (perform c).run (after commands) = (.error e, next) → next = after commands) ∧
      ((perform .undo).run (after commands)).2.steps[0]? = (after commands).steps[0]?) ∧
    ∀ p : Proof, p.Reached → p.isValid := by
  refine ⟨?_, fun p => Proof.Reached.isValid⟩
  intro commands
  obtain ⟨d, made, held⟩ := exists_after_eq commands
  rw [held]
  refine ⟨consistent_ofDerivation made, ?_, head_run_undo d⟩
  intro c e next failed
  rw [run_perform] at failed
  cases result : d.run c with
  | error e' =>
    rw [result] at failed
    exact (Prod.mk.inj failed).2.symm
  | ok outcome =>
    obtain ⟨made, step⟩ := outcome
    simp [result, settle] at failed

theorem after_failures_consistent :
    let s := after [.start "A & TRUE", .undo, .apply .identity "A"]
    s.steps = [⟨"A ∧ ⊤", initialLabel⟩, ⟨"A", Rule.identity.label⟩] ∧ s.Consistent ∧
      (perform (.apply .commutative "B")).run s =
        (.error (.ruleMismatch .commutative "A" "B"), s) ∧
      ∃ p : Proof, Proof.start "A & TRUE" none = .ok p ∧ p.isValid := by
  obtain ⟨sessions, proofs⟩ := after_consistent
  obtain ⟨consistent, failing, -⟩ := sessions [.start "A & TRUE", .undo, .apply .identity "A"]
  have failed : (perform (.apply .commutative "B")).run
      (after [.start "A & TRUE", .undo, .apply .identity "A"]) =
        (.error (.ruleMismatch .commutative "A" "B"),
          ⟨[⟨"A ∧ ⊤", initialLabel⟩, ⟨"A", Rule.identity.label⟩],
            [.binary .and (.var 'A') (.const true), .var 'A']⟩) := by decide +kernel
  have begun : Proof.start "A & TRUE" none =
      .ok ⟨⟨[⟨⟨"A ∧ ⊤", initialLabel⟩, .binary .and (.var 'A') (.const true)⟩]⟩, .const true⟩ := by
    decide +kernel
  have same := failing _ _ _ failed
  rw [same] at failed
  exact ⟨by rw [← same], consistent, failed, _, begun, proofs _ (.start begun)⟩

end Session

end Sentential
