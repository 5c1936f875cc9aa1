import Sentential.Proofs.Punctuation

/-!
# What a seal fixes

A seal fixes the target and the text of all steps together, but not where one step ends: the marks
between the steps may also stand in a label that a record brings along. The proofs whose sealed text
is that of a proof which was reached by moves are those that come from it by merging runs of steps.
-/

namespace Sentential

-- ---------------------------------------------------------------------------
-- Merged steps
-- ---------------------------------------------------------------------------

namespace Step

def sealed (step : Step) : String := step.formula ++ ":" ++ step.ruleApplied

def sealedAll (steps : List Step) : String := ", ".intercalate (steps.map sealed)

/-- One step that is sealed as the step and the run of steps behind it are. -/
def merge (first : Step) (run : List Step) : Step :=
  ⟨first.formula, ", ".intercalate (first.ruleApplied :: run.map sealed)⟩

/-- The second list comes from the first by merging runs of steps. -/
inductive Merges : List Step → List Step → Prop
  | nil : Merges [] []
  | cons (first : Step) (run : List Step) {rest merged : List Step} :
      Merges rest merged → Merges (first :: (run ++ rest)) (first.merge run :: merged)

def trail (label : List Char) : List Step → List Char
  | [] => label
  | step :: steps =>
    label ++ ',' :: ' ' :: (step.formula.toList ++ ':' :: trail step.ruleApplied.toList steps)

theorem toList_intercalate_sealed (label : String) (steps : List Step) :
    (", ".intercalate (label :: steps.map sealed)).toList = trail label.toList steps := by
  induction steps generalizing label with
  | nil => simp [trail]
  | cons step steps ih =>
    rw [List.map_cons, String.intercalate_cons_cons, sealed, String.intercalate_cons_append]
    simp only [String.toList_append, ih, trail, List.append_assoc]
    rfl

theorem toList_sealedAll_cons (step : Step) (steps : List Step) :
    (sealedAll (step :: steps)).toList =
      step.formula.toList ++ ':' :: trail step.ruleApplied.toList steps := by
  rw [sealedAll, List.map_cons, sealed, String.intercalate_cons_append, String.toList_append,
    toList_intercalate_sealed, String.toList_append, List.append_assoc]
  rfl

variable {step other : Step} {steps others : List Step} {label : List Char}

theorem Merges.of_trail (formula : other.formula = step.formula)
    (h : ∃ run rest, steps = run ++ rest ∧
      other.ruleApplied.toList = trail step.ruleApplied.toList run ∧ Merges rest others) :
    Merges (step :: steps) (other :: others) := by
  obtain ⟨run, rest, rfl, same, merges⟩ := h
  have merged : other = step.merge run := by
    obtain ⟨text, given⟩ := other
    have : given = ", ".intercalate (step.ruleApplied :: run.map sealed) := by
      rw [← String.toList_inj, toList_intercalate_sealed, ← same]
    rw [merge, ← this, ← formula]
  rw [merged]
  exact merges.cons step run

/-- Where the same text begins with a label free of commas, any other label that it begins with
takes up a run of the steps behind it. -/
theorem merges_of_trail {other : List Char} (plain : ',' ∉ label)
    (hsteps : ∀ step ∈ steps, Unmarked step.formula ∧ Unmarked step.ruleApplied)
    (hothers : ∀ step ∈ others, Unmarked step.formula)
    (h : trail other others = trail label steps) :
    ∃ run rest, steps = run ++ rest ∧ other = trail label run ∧ Merges rest others := by
  induction steps generalizing label other others with
  | nil =>
    cases others with
    | nil => exact ⟨[], [], rfl, h, .nil⟩
    | cons s others =>
      rw [trail, trail] at h
      simp [← h] at plain
  | cons step steps ih =>
    obtain ⟨⟨clean, cleanLabel⟩, hsteps⟩ := List.forall_mem_cons.mp hsteps
    cases others with
    | nil => exact ⟨step :: steps, [], by simp, h, .nil⟩
    | cons s others =>
      obtain ⟨cleanOther, hrest⟩ := List.forall_mem_cons.mp hothers
      rcases append_cons_eq_append_cons h with ⟨rfl, -, h⟩ | ⟨m, rfl, -⟩ | ⟨m, rfl, hm⟩
      · -- The labels are the same, so the next steps begin at the same place.
        obtain ⟨formula, tail⟩ :=
          append_cons_inj_of_notMem cleanOther.1 clean.1 (List.cons.inj h).2
        have merges := Merges.of_trail (String.toList_inj.mp formula)
          (ih cleanLabel.2 hsteps hrest tail)
        exact ⟨[], step :: steps, rfl, rfl, merges⟩
      · simp at plain
      · -- The other label goes on behind the comma, with the formula of the next step and a colon.
        rcases append_cons_eq_append_cons (l := ' ' :: step.formula.toList) hm
          with ⟨-, marks, -⟩ | ⟨rest, rfl, tail⟩ | ⟨rest, inside, -⟩
        · simp at marks
        · obtain ⟨run, behind, rfl, rfl, merges⟩ := ih cleanLabel.2 hsteps hothers tail.symm
          exact ⟨step :: run, behind, rfl, by simp [trail], merges⟩
        · have : ',' ∈ ' ' :: step.formula.toList := by simp [inside]
          simp [clean.2] at this

theorem merges_of_sealedAll
    (hsteps : ∀ step ∈ steps, Unmarked step.formula ∧ Unmarked step.ruleApplied)
    (hothers : ∀ step ∈ others, Unmarked step.formula) (h : sealedAll others = sealedAll steps) :
    Merges steps others := by
  have same := congrArg String.toList h
  cases steps with
  | nil =>
    cases others with
    | nil => exact .nil
    | cons other others =>
      rw [toList_sealedAll_cons] at same
      simp [sealedAll] at same
  | cons step steps =>
    cases others with
    | nil =>
      rw [toList_sealedAll_cons] at same
      simp [sealedAll] at same
    | cons other others =>
      obtain ⟨⟨clean, cleanLabel⟩, hsteps⟩ := List.forall_mem_cons.mp hsteps
      obtain ⟨cleanOther, hothers⟩ := List.forall_mem_cons.mp hothers
      rw [toList_sealedAll_cons, toList_sealedAll_cons] at same
      obtain ⟨formula, tail⟩ := append_cons_inj_of_notMem cleanOther.1 clean.1 same
      exact .of_trail (String.toList_inj.mp formula)
        (merges_of_trail cleanLabel.2 hsteps hothers tail)

theorem trail_append (text label : List Char) (steps : List Step) :
    trail (text ++ label) steps = text ++ trail label steps := by
  cases steps <;> simp [trail]

theorem trail_trail (label : List Char) (run rest : List Step) :
    trail (trail label run) rest = trail label (run ++ rest) := by
  induction run generalizing label with
  | nil => rfl
  | cons step run ih =>
    have parts : trail label (step :: run) =
        (label ++ ',' :: ' ' :: (step.formula.toList ++ [':'])) ++
          trail step.ruleApplied.toList run := by
      simp [trail]
    rw [parts, trail_append, ih]
    simp [trail]

theorem Merges.trail_eq (h : Merges steps others) (label : List Char) :
    trail label others = trail label steps := by
  induction h generalizing label with
  | nil => rfl
  | cons first run merges ih =>
    rw [trail, merge, toList_intercalate_sealed, ih, trail_trail]
    rfl

theorem Merges.sealedAll_eq (h : Merges steps others) : sealedAll others = sealedAll steps := by
  cases h with
  | nil => rfl
  | cons first run merges =>
    rw [← String.toList_inj, toList_sealedAll_cons, toList_sealedAll_cons, merge,
      toList_intercalate_sealed, merges.trail_eq, trail_trail]

theorem merge_nil (step : Step) : step.merge [] = step := by
  rw [merge, List.map_nil, String.intercalate_singleton]

theorem colon_mem_merge (first step : Step) (run : List Step) :
    ':' ∈ (first.merge (step :: run)).ruleApplied.toList := by
  rw [merge, toList_intercalate_sealed, trail]
  simp

theorem Merges.eq_of_notMem (h : Merges steps others)
    (clean : ∀ step ∈ others, ':' ∉ step.ruleApplied.toList) : others = steps := by
  induction h with
  | nil => rfl
  | cons first run merges ih =>
    obtain ⟨own, others⟩ := List.forall_mem_cons.mp clean
    cases run with
    | nil => rw [merge_nil, ih others, List.nil_append]
    | cons step run => exact absurd (colon_mem_merge first step run) own

end Step

-- ---------------------------------------------------------------------------
-- Seals
-- ---------------------------------------------------------------------------

theorem Seal.toUpper_hexDigit (b : UInt8) :
    (hexDigit (b >>> 4)).toUpper = hexDigit (b >>> 4) ∧
      (hexDigit (b &&& 15)).toUpper = hexDigit (b &&& 15) := by
  have all : ∀ i : Fin 256,
      (hexDigit (UInt8.ofNat i >>> 4)).toUpper = hexDigit (UInt8.ofNat i >>> 4) ∧
        (hexDigit (UInt8.ofNat i &&& 15)).toUpper = hexDigit (UInt8.ofNat i &&& 15) := by
    decide +kernel
  simpa using all ⟨b.toNat, b.toNat_lt⟩

theorem Seal.verify_ofText (text : String) : verify text (ofText text) = true := by
  have upper : ∀ c ∈ (ofText text).toList, c.toUpper = c := by
    intro c mem
    rw [ofText, String.toList_ofList, hex] at mem
    obtain ⟨b, -, mem⟩ := List.mem_flatMap.mp mem
    simp only [List.mem_cons, List.not_mem_nil, or_false] at mem
    rcases mem with rfl | rfl
    · exact (toUpper_hexDigit b).1
    · exact (toUpper_hexDigit b).2
  rw [verify, beq_iff_eq]
  calc (ofText text).toList
    _ = (ofText text).toList.map id := (List.map_id _).symm
    _ = (ofText text).toList.map Char.toUpper := List.map_congr_left fun c mem => (upper c mem).symm

-- ---------------------------------------------------------------------------
-- Proofs under one seal
-- ---------------------------------------------------------------------------

namespace Derivation

variable {d next : Derivation}

def Unmarked (d : Derivation) : Prop :=
  ∀ line ∈ d.lines,
    Sentential.Unmarked line.step.formula ∧ Sentential.Unmarked line.step.ruleApplied

theorem unmarked_of_start {text : String} (h : start text = .ok d) : d.Unmarked := by
  obtain ⟨line, read, rfl⟩ := start_eq_ok.mp h
  obtain ⟨formula, label⟩ := Line.unmarked_of_ofText read
  exact List.forall_mem_singleton.mpr ⟨formula, label ▸ unmarked_initialLabel⟩

theorem Unmarked.apply {rule : Rule} {text : String} (hd : d.Unmarked)
    (h : d.apply rule text = .ok next) : next.Unmarked := by
  obtain ⟨last, line, -, read, -, rfl⟩ := apply_eq_ok.mp h
  obtain ⟨formula, label⟩ := Line.unmarked_of_ofText read
  refine List.forall_mem_append.mpr ⟨hd, ?_⟩
  exact List.forall_mem_singleton.mpr ⟨formula, label ▸ rule.unmarked_label⟩

theorem Unmarked.undo (hd : d.Unmarked) (h : d.undo = .ok next) : next.Unmarked := by
  obtain ⟨-, rfl⟩ := undo_eq_ok.mp h
  exact fun line mem => hd line (List.dropLast_subset _ mem)

end Derivation

namespace Proof

variable {g s p : Proof} {r : ProofRecord}

theorem Reached.unmarked (h : g.Reached) : g.derivation.Unmarked :=
  h.derivation_keeps Derivation.unmarked_of_start (fun kept => kept.apply) (fun kept => kept.undo)

theorem Reached.lettered_target (h : g.Reached) : g.target.Lettered := by
  induction h with
  | @start text target? p begun =>
    have given := (start_eq_ok.mp begun).2
    cases target? with
    | none =>
      rw [given]
      exact List.forall_mem_nil _
    | some target => exact Formula.lettered_of_read given
  | move _ moved ih =>
    rw [(move_eq_ok.mp moved).1]
    exact ih

theorem toList_sealedText (p : Proof) :
    p.sealedText.toList =
      "equivproof|".toList ++ (p.target.print ++
        '|' :: '[' :: ((Step.sealedAll p.derivation.steps).toList ++ [']'])) := by
  have printed : (toString p.target).toList = p.target.print := String.toList_ofList
  have parts : p.sealedText =
      "equivproof|" ++ toString p.target ++ "|[" ++ Step.sealedAll p.derivation.steps ++ "]" := rfl
  rw [parts, ← printed]
  simp only [String.toList_append, List.append_assoc]
  rfl

theorem sealedText_inj (hg : g.target.Lettered) (hs : s.target.Lettered) :
    s.sealedText = g.sealedText ↔ s.target = g.target ∧
      Step.sealedAll s.derivation.steps = Step.sealedAll g.derivation.steps := by
  rw [← String.toList_inj, toList_sealedText, toList_sealedText, List.append_cancel_left_eq]
  constructor
  · intro same
    -- The bar behind the target stands nowhere before it.
    obtain ⟨target, rest⟩ := append_cons_inj_of_notMem (Formula.bar_notMem_print hs)
      (Formula.bar_notMem_print hg) same
    refine ⟨Formula.print_injective hs hg target, String.toList_inj.mp ?_⟩
    exact List.append_cancel_right (List.cons.inj rest).2
  · rintro ⟨target, steps⟩
    rw [target, steps]

/-- A proof read from a record fits the seal of a proof that was reached just if it has the same
target and its steps are those of that proof with runs of them merged. -/
theorem sealedText_eq_iff_merges (reached : g.Reached) (loaded : ofRecord r = .ok s) :
    s.sealedText = g.sealedText ↔
      s.target = g.target ∧ Step.Merges g.derivation.steps s.derivation.steps := by
  obtain ⟨steps, target, -⟩ := ofRecord_eq_ok.mp loaded
  rw [sealedText_inj reached.lettered_target (Formula.lettered_of_read target)]
  refine and_congr_right fun _ => ⟨Step.merges_of_sealedAll ?_ ?_, Step.Merges.sealedAll_eq⟩
  · exact List.forall_mem_map.mpr reached.unmarked
  · refine List.forall_mem_map.mpr fun line mem => ?_
    exact Formula.unmarked_of_read ((Derivation.ofSteps_eq_ok.mp steps).2 line mem)

/-- What an edit under the seal of a proof that was reached can do: the target stays, and the steps
stay just if no label was given a colon. -/
theorem steps_eq_iff_of_sealedText (reached : g.Reached) (loaded : ofRecord r = .ok s)
    (same : s.sealedText = g.sealedText) :
    s.target = g.target ∧
      (s.derivation.steps = g.derivation.steps ↔
        ∀ step ∈ s.derivation.steps, ':' ∉ step.ruleApplied.toList) := by
  obtain ⟨targets, merges⟩ := (sealedText_eq_iff_merges reached loaded).mp same
  refine ⟨targets, ?_, merges.eq_of_notMem⟩
  intro unchanged
  rw [unchanged]
  exact List.forall_mem_map.mpr fun line mem => (reached.unmarked line mem).2.1

def twoSteps : Proof where
  derivation := ⟨[
    ⟨⟨"¬¬A", initialLabel⟩, .not (.not (.var 'A'))⟩,
    ⟨⟨"A", Rule.doubleNegation.label⟩, .var 'A'⟩]⟩
  target := .const true

/-- The two steps as one, whose label has taken up the second. -/
def oneStep : Proof where
  derivation := ⟨[⟨⟨"¬¬A", "Initial Formula, A:Double Negation"⟩, .not (.not (.var 'A'))⟩]⟩
  target := .const true

theorem twoSteps_reached : twoSteps.Reached := by
  have first : Line.ofText "¬¬A" initialLabel =
      .ok ⟨⟨"¬¬A", initialLabel⟩, .not (.not (.var 'A'))⟩ :=
    Line.ofText_print (f := .not (.not (.var 'A'))) (by decide) (by decide)
  have second : Line.ofText "A" Rule.doubleNegation.label =
      .ok ⟨⟨"A", Rule.doubleNegation.label⟩, .var 'A'⟩ :=
    Line.ofText_print (f := .var 'A') (by decide) (by decide)
  have begun : start "¬¬A" none =
      .ok ⟨⟨[⟨⟨"¬¬A", initialLabel⟩, .not (.not (.var 'A'))⟩]⟩, .const true⟩ :=
    start_eq_ok.mpr ⟨Derivation.start_eq_ok.mpr ⟨_, first, rfl⟩, rfl⟩
  have moved : move ⟨⟨[⟨⟨"¬¬A", initialLabel⟩, .not (.not (.var 'A'))⟩]⟩, .const true⟩
      (.apply .doubleNegation "A") = .ok twoSteps :=
    move_eq_ok.mpr ⟨rfl, Derivation.apply_eq_ok.mpr ⟨_, _, rfl, second, by decide, rfl⟩⟩
  exact (Reached.start begun).move moved

theorem oneStep_sealedText : oneStep.sealedText = twoSteps.sealedText := by decide

theorem oneStep_loaded : ofRecord ⟨oneStep.derivation.steps, "⊤", twoSteps.record.sealHex⟩ =
    .ok oneStep := by
  have read : Formula.read "¬¬A" = .ok (.not (.not (.var 'A'))) :=
    Formula.read_print (f := .not (.not (.var 'A'))) (by decide) (by decide)
  have target : Formula.read "⊤" = .ok oneStep.target :=
    Formula.read_print (f := .const true) (by decide) (by decide)
  have steps : Derivation.ofSteps oneStep.derivation.steps = .ok oneStep.derivation :=
    Derivation.ofSteps_eq_ok.mpr ⟨rfl, List.forall_mem_singleton.mpr read⟩
  refine ofRecord_eq_ok.mpr ⟨steps, target, ?_⟩
  rw [oneStep_sealedText]
  exact Seal.verify_ofText _

theorem steps_ne_under_one_seal :
    ¬ ∀ (g s : Proof) (r : ProofRecord), g.Reached → ofRecord r = .ok s →
      s.sealedText = g.sealedText →
        s.derivation.steps = g.derivation.steps ∧ s.target = g.target := by
  intro claim
  have same := (claim _ _ _ twoSteps_reached oneStep_loaded oneStep_sealedText).1
  exact absurd same (by decide)

theorem oneStep_steps_ne :
    oneStep.sealedText = twoSteps.sealedText ∧ oneStep.target = twoSteps.target ∧
      oneStep.derivation.steps ≠ twoSteps.derivation.steps := by
  obtain ⟨targets, steps⟩ :=
    steps_eq_iff_of_sealedText twoSteps_reached oneStep_loaded oneStep_sealedText
  exact ⟨oneStep_sealedText, targets, fun same => absurd (steps.mp same) (by decide)⟩

end Proof

end Sentential
