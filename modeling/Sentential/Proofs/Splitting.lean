/-!
# Splitting lists

How two ways to split one list around an element compare.
-/

namespace Sentential

variable {α : Type} {a b : α} {l r u v : List α}

theorem append_cons_eq_append_cons (h : l ++ a :: r = u ++ b :: v) :
    (l = u ∧ a = b ∧ r = v) ∨ (∃ m, u = l ++ a :: m ∧ r = m ++ b :: v) ∨
      (∃ m, l = u ++ b :: m ∧ v = m ++ a :: r) := by
  rcases List.append_eq_append_iff.mp h with ⟨m, rfl, rest⟩ | ⟨m, rfl, rest⟩
  · rcases List.cons_eq_append_iff.mp rest with ⟨rfl, tail⟩ | ⟨m, rfl, tail⟩
    · obtain ⟨rfl, rfl⟩ := List.cons.inj tail
      exact .inl ⟨by simp, rfl, rfl⟩
    · exact .inr (.inl ⟨m, rfl, tail⟩)
  · rcases List.cons_eq_append_iff.mp rest with ⟨rfl, tail⟩ | ⟨m, rfl, tail⟩
    · obtain ⟨rfl, rfl⟩ := List.cons.inj tail
      exact .inl ⟨by simp, rfl, rfl⟩
    · exact .inr (.inr ⟨m, rfl, tail⟩)

theorem append_cons_inj_of_notMem (hl : a ∉ l) (hu : a ∉ u) (h : l ++ a :: r = u ++ a :: v) :
    l = u ∧ r = v := by
  rcases append_cons_eq_append_cons h with ⟨rfl, -, rfl⟩ | ⟨m, rfl, -⟩ | ⟨m, rfl, -⟩
  · exact ⟨rfl, rfl⟩
  · simp at hu
  · simp at hl

theorem drop_length_takeWhile (p : α → Bool) (l : List α) :
    l.drop (l.takeWhile p).length = l.dropWhile p :=
  calc l.drop (l.takeWhile p).length
    _ = (l.takeWhile p ++ l.dropWhile p).drop (l.takeWhile p).length := by
      rw [List.takeWhile_append_dropWhile]
    _ = l.dropWhile p := List.drop_left

theorem takeWhile_append_of_head? {p : α → Bool} (all : ∀ a ∈ l, p a = true)
    (stop : ∀ a, r.head? = some a → p a = false) : (l ++ r).takeWhile p = l := by
  have none : r.takeWhile p = [] := by
    cases r with
    | nil => rfl
    | cons a r => exact List.takeWhile_cons_of_neg (by simp [stop a rfl])
  rw [List.takeWhile_append_of_pos all, none, List.append_nil]

theorem of_head?_dropWhile {p : α → Bool} (h : (l.dropWhile p).head? = some a) : p a = false := by
  have := List.head?_dropWhile_not p l
  rwa [h] at this

end Sentential
