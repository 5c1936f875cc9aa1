import Mathlib.Control.Monad.Basic
import Sentential.Service
import Sentential.Proofs.Derivations
import Sentential.Proofs.Sealing
import Sentential.Proofs.WrittenJson

/-!
# Reloading is invisible

The formulas of a proof are not written down: a record holds the texts of the steps and the printed
target, and all of them are read again. A proof that was come by in any way is what its own record
reads as, so a user who sends it to and fro sees what a user sees who keeps it in memory.
-/

namespace Sentential

-- ---------------------------------------------------------------------------
-- Records as JSON
-- ---------------------------------------------------------------------------

theorem Step.readsBack_toJson (s : Step) : s.toJson.ReadsBack :=
  Json.readsBack_record (by simp [Json.readsBack_text])

theorem ProofRecord.readsBack_toJson (r : ProofRecord) : r.toJson.ReadsBack := by
  have steps : (Json.array (r.steps.map Step.toJson)).ReadsBack :=
    Json.readsBack_array (List.forall_mem_map.mpr fun s _ => s.readsBack_toJson)
  exact Json.readsBack_record (by simp [Json.readsBack_text, steps])

theorem Step.ofJson?_toJson (s : Step) : Step.ofJson? s.toJson = some s := rfl

theorem Step.mapM_ofJson?_toJson (steps : List Step) :
    (steps.map Step.toJson).mapM Step.ofJson? = some steps := by
  induction steps with
  | nil => rfl
  | cons s steps ih =>
    rw [List.map_cons, List.mapM_cons, Step.ofJson?_toJson, ih]
    rfl

theorem ProofRecord.ofJson?_toJson (r : ProofRecord) : ofJson? r.toJson = some r := by
  have fields : r.toJson.fields? ["steps", "target", "seal"] =
      some [some (.array (r.steps.map Step.toJson)), some (.text r.target),
        some (.text r.sealHex)] := rfl
  simp only [ofJson?, fields, Option.bind_eq_bind, Option.bind_some, Step.mapM_ofJson?_toJson]
  rfl

theorem Service.readJson_write {α : Type} {read : Json → Except ReadError α} {value : Json} {a : α}
    (h : value.ReadsBack) (known : read value = .ok a) :
    readJson read (Json.write value) = .ok a := by
  simp [readJson, h.readFirst?_write, known, Json.isSpent, Json.skipBlanks]

namespace Proof

variable {p next : Proof}

def reload (p : Proof) : Except Refusal Proof := Service.readJson Proof.ofJson (Json.write p.toJson)

theorem reload_of_ofRecord (h : ofRecord p.record = .ok p) : p.reload = .ok p := by
  refine Service.readJson_write p.record.readsBack_toJson ?_
  simp [Proof.ofJson, toJson, ProofRecord.ofJson?_toJson, h]

-- ---------------------------------------------------------------------------
-- What can be read again
-- ---------------------------------------------------------------------------

/-- As a user can come by a proof. -/
inductive Obtained : Proof → Prop
  | start {text : String} {target? : Option String} {p : Proof} :
      Proof.start text target? = .ok p → Obtained p
  | load {r : ProofRecord} {p : Proof} : ofRecord r = .ok p → Obtained p
  | move {p next : Proof} {m : Move} : Obtained p → p.move m = .ok next → Obtained next
  | reload {p next : Proof} : Obtained p → p.reload = .ok next → Obtained next

structure Spelled (p : Proof) : Prop where
  lines : p.derivation.Spelled
  target : Formula.read (toString p.target) = .ok p.target

theorem ofRecord_record (h : p.Spelled) : ofRecord p.record = .ok p :=
  ofRecord_eq_ok.mpr
    ⟨Derivation.ofSteps_eq_ok.mpr ⟨rfl, h.lines⟩, h.target, Seal.verify_ofText p.sealedText⟩

theorem Spelled.reload (h : p.Spelled) : p.reload = .ok p := reload_of_ofRecord (ofRecord_record h)

theorem spelled_of_start {text : String} {target? : Option String}
    (h : start text target? = .ok p) : p.Spelled := by
  obtain ⟨begun, target⟩ := start_eq_ok.mp h
  refine ⟨Derivation.spelled_of_start begun, ?_⟩
  cases target? with
  | none =>
    rw [target]
    exact Formula.read_print (by decide) (by decide)
  | some written => exact Formula.read_toString target

theorem spelled_of_ofRecord {r : ProofRecord} (h : ofRecord r = .ok p) : p.Spelled := by
  obtain ⟨steps, target, -⟩ := ofRecord_eq_ok.mp h
  exact ⟨Derivation.spelled_of_ofSteps steps, Formula.read_toString target⟩

theorem Spelled.move {m : Move} (hp : p.Spelled) (h : p.move m = .ok next) : next.Spelled := by
  obtain ⟨target, moved⟩ := move_eq_ok.mp h
  refine ⟨?_, target ▸ hp.target⟩
  cases m with
  | apply rule text => exact hp.lines.apply moved
  | undo => exact hp.lines.undo moved

theorem Obtained.spelled (h : p.Obtained) : p.Spelled := by
  induction h with
  | start begun => exact spelled_of_start begun
  | load read => exact spelled_of_ofRecord read
  | move _ moved ih => exact ih.move moved
  | reload _ reloaded ih =>
    rw [ih.reload] at reloaded
    exact Except.ok.inj reloaded ▸ ih

-- ---------------------------------------------------------------------------
-- Questions, with reloads between them
-- ---------------------------------------------------------------------------

end Proof

namespace Service

end Service

end Sentential
