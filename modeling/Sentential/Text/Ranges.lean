/-!
# Ranges of code points

Character classes are given as ascending lists of closed ranges.
-/

namespace Sentential.Text

def inRanges : List (Nat × Nat) → Nat → Bool
  | [], _ => false
  | (first, last) :: ranges, n =>
    if n < first then false else if n ≤ last then true else inRanges ranges n

theorem exists_of_inRanges {ranges : List (Nat × Nat)} {n : Nat} (h : inRanges ranges n = true) :
    ∃ r ∈ ranges, r.1 ≤ n ∧ n ≤ r.2 := by
  induction ranges with
  | nil => simp [inRanges] at h
  | cons r ranges ih =>
    obtain ⟨first, last⟩ := r
    unfold inRanges at h
    split at h
    · simp at h
    · split at h
      · exact ⟨(first, last), by simp, by omega, by assumption⟩
      · obtain ⟨r, hr, bounds⟩ := ih h
        exact ⟨r, List.mem_cons_of_mem _ hr, bounds⟩

end Sentential.Text
