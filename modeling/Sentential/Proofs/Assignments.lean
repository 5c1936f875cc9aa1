import Mathlib.Data.Char
import Mathlib.Data.List.Nodup
import Mathlib.Data.Nat.Bitwise
import Sentential.TruthTable
import Sentential.Proofs.TruthValue

/-!
# Rows and assignments

The variables of a formula come in ascending order without repetition. A number below `2 ^ n` and an
assignment to `n` variables are the same thing: the number's binary digits are the values, the first
variable's digit the most significant.
-/

namespace Sentential

-- ---------------------------------------------------------------------------
-- Names
-- ---------------------------------------------------------------------------

namespace Formula

variable {names : List Char}

theorem pairwise_insertName (h : names.Pairwise (· < ·)) (v : Char) :
    (insertName v names).Pairwise (· < ·) := by
  induction names with
  | nil => simp [insertName]
  | cons w names ih =>
    obtain ⟨below, rest⟩ := List.pairwise_cons.mp h
    unfold insertName
    split
    next less =>
      refine List.pairwise_cons.mpr ⟨?_, h⟩
      exact List.forall_mem_cons.mpr ⟨less, fun u mem => lt_trans less (below u mem)⟩
    next notLess =>
      split
      next => exact h
      next distinct =>
        refine List.pairwise_cons.mpr ⟨fun u mem => ?_, ih rest⟩
        rcases mem_insertName.mp mem with rfl | mem
        · exact lt_of_le_of_ne (not_lt.mp notLess) (Ne.symm distinct)
        · exact below u mem

theorem pairwise_names (f : Formula) : f.names.Pairwise (· < ·) := by
  unfold names
  induction f.occurrences with
  | nil => exact .nil
  | cons v occurrences ih => exact pairwise_insertName ih v

theorem nodup_names (f : Formula) : f.names.Nodup :=
  f.pairwise_names.imp ne_of_lt

end Formula

-- ---------------------------------------------------------------------------
-- The numbers of assignments
-- ---------------------------------------------------------------------------

theorem Valuation.ofList_of_mem {values : List (Char × Bool)} {v : Char} {b : Bool}
    (distinct : (values.map Prod.fst).Nodup) (mem : (v, b) ∈ values) :
    Valuation.ofList values v = some b := by
  have distinct : (values.reverse.map Prod.fst).Nodup := by
    rwa [List.map_reverse, List.nodup_reverse]
  obtain ⟨later, earlier, split⟩ := List.append_of_mem (List.mem_reverse.mpr mem)
  refine List.lookup_eq_some_iff.mpr ⟨later, earlier, split, ?_⟩
  intro pair first
  rw [split, List.map_append, List.nodup_append] at distinct
  have other := distinct.2.2 pair.1 (List.mem_map_of_mem first) v (by simp)
  simpa using other.symm

namespace TruthTable

/-- The values of the names are the row's digits. -/
def Numbers (names : List Char) (row : Nat) (values : Valuation) : Prop :=
  ∀ (i : Nat) (v : Char), names[i]? = some v →
    values v = some (row.testBit (names.length - 1 - i))

variable {names : List Char} {row other : Nat} {values others : Valuation}

theorem map_fst_assignment (names : List Char) (row : Nat) :
    (assignment names row).map Prod.fst = names := by
  simp [assignment, Function.comp_def]

theorem mem_assignment {i : Nat} {v : Char} (here : names[i]? = some v) :
    (v, row.testBit (names.length - 1 - i)) ∈ assignment names row :=
  List.mem_map.mpr ⟨(v, i), List.mk_mem_zipIdx_iff_getElem?.mpr here, rfl⟩

theorem numbers_assignment (distinct : names.Nodup) (row : Nat) :
    Numbers names row (.ofList (assignment names row)) := by
  intro i v here
  refine Valuation.ofList_of_mem ?_ (mem_assignment here)
  rwa [map_fst_assignment]

theorem Numbers.eq_on (h : Numbers names row values) (h' : Numbers names row others) {v : Char}
    (mem : v ∈ names) : values v = others v := by
  obtain ⟨i, here⟩ := List.mem_iff_getElem?.mp mem
  rw [h i v here, h' i v here]

theorem Numbers.row_unique (h : Numbers names row values) (h' : Numbers names other values)
    (small : row < 2 ^ names.length) (small' : other < 2 ^ names.length) : row = other := by
  refine Nat.eq_of_testBit_eq fun k => ?_
  by_cases inside : k < names.length
  · have here : names[names.length - 1 - k]? = some names[names.length - 1 - k] :=
      List.getElem?_eq_getElem (by omega)
    have place : names.length - 1 - (names.length - 1 - k) = k := by omega
    have same := (h _ _ here).symm.trans (h' _ _ here)
    rw [place] at same
    exact Option.some.inj same
  · have grows := Nat.pow_le_pow_right (n := 2) (by decide) (Nat.le_of_not_lt inside)
    rw [Nat.testBit_lt_two_pow (by omega), Nat.testBit_lt_two_pow (by omega)]

theorem exists_numbers (h : ∀ v ∈ names, (values v).isSome) :
    ∃ row, row < 2 ^ names.length ∧ Numbers names row values := by
  let digits : Fin names.length → Bool := fun k =>
    (values names[names.length - 1 - k.val]).getD false
  refine ⟨Nat.ofBits digits, Nat.ofBits_lt_two_pow digits, fun i v here => ?_⟩
  obtain ⟨inside, rfl⟩ := List.getElem?_eq_some_iff.mp here
  have place : names.length - 1 - (names.length - 1 - i) = i := by omega
  obtain ⟨b, assigned⟩ := Option.isSome_iff_exists.mp (h _ (List.getElem_mem inside))
  rw [Nat.testBit_ofBits_lt digits _ (by omega)]
  simp only [digits, place, assigned, Option.getD_some]

end TruthTable

end Sentential
