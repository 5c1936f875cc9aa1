import Sentential.Proofs.Printing

/-!
# Groups

A group belongs to a phrase that stands in parentheses inside of the whole one. Its formula is a part
of the formula that the whole text spells, so it has no variable of its own and is no higher.
-/

namespace Sentential

namespace Formula

inductive Part (f : Formula) : Formula → Prop
  | whole : Part f f
  | not {g : Formula} : Part f g → Part f (.not g)
  | left {c : Connective} {g k : Formula} : Part f g → Part f (.binary c g k)
  | right {c : Connective} {g k : Formula} : Part f k → Part f (.binary c g k)

variable {f g : Formula}

theorem Part.occurrences_subset (h : f.Part g) : f.occurrences ⊆ g.occurrences := by
  induction h with
  | whole => exact List.Subset.refl _
  | not _ ih => exact ih
  | left _ ih => exact List.subset_append_of_subset_left _ ih
  | right _ ih => exact List.subset_append_of_subset_right _ ih

theorem Part.height_le (h : f.Part g) : f.height ≤ g.height := by
  induction h with
  | whole => exact Nat.le_refl _
  | not _ ih => exact Nat.le_succ_of_le ih
  | left _ ih => exact Nat.le_succ_of_le (Nat.le_trans ih (Nat.le_max_left _ _))
  | right _ ih => exact Nat.le_succ_of_le (Nat.le_trans ih (Nat.le_max_right _ _))

theorem Part.eq_var {v : Char} (h : f.Part (.var v)) : f = .var v := by
  cases h
  rfl

theorem Part.lettered (h : f.Part g) (lettered : g.Lettered) : f.Lettered :=
  fun v occurs => lettered v (h.occurrences_subset occurs)

end Formula

namespace Phrase

variable {p q : Phrase} {before behind : List Symbol}

/-- The phrase stands in parentheses inside of another one, between these symbols. -/
inductive Within (q : Phrase) : List Symbol → List Symbol → Phrase → Prop
  | here : Within q [] [] (.enclosed q)
  | enclosed {before behind : List Symbol} {p : Phrase} : Within q before behind p →
      Within q (.opening :: before) (behind ++ [.closing]) (.enclosed p)
  | not {before behind : List Symbol} {p : Phrase} : Within q before behind p →
      Within q (.op .not :: before) behind (.not p)
  | left {before behind : List Symbol} {c : Connective} {l r : Phrase} : Within q before behind l →
      Within q before (behind ++ .op (.binary c) :: r.symbols) (.binary c l r)
  | right {before behind : List Symbol} {c : Connective} {l r : Phrase} : Within q before behind r →
      Within q (l.symbols ++ .op (.binary c) :: before) behind (.binary c l r)

theorem Within.symbols_eq (h : q.Within before behind p) :
    p.symbols = before ++ .opening :: (q.symbols ++ .closing :: behind) := by
  induction h with
  | here => simp [symbols]
  | enclosed _ ih | not _ ih | left _ ih | right _ ih => simp [symbols, ih]

theorem Within.wellFormed (h : q.Within before behind p) (wf : p.WellFormed) : q.WellFormed := by
  induction h with
  | here => exact wf
  | enclosed _ ih => exact ih wf
  | not _ ih | left _ ih => exact ih wf.1
  | right _ ih => exact ih wf.2.1

theorem Within.nesting_lt (h : q.Within before behind p) : q.nesting < p.nesting := by
  induction h with
  | here => exact Nat.lt_succ_self _
  | enclosed _ ih => exact Nat.lt_succ_of_lt ih
  | not _ ih => exact ih
  | left _ ih => exact Nat.lt_of_lt_of_le ih (Nat.le_max_left _ _)
  | right _ ih => exact Nat.lt_of_lt_of_le ih (Nat.le_max_right _ _)

theorem Within.part (h : q.Within before behind p) : q.formula.Part p.formula := by
  induction h with
  | here => exact .whole
  | enclosed _ ih => exact ih
  | not _ ih => exact .not ih
  | left _ ih => exact .left ih
  | right _ ih => exact .right ih

/-- Each group of a phrase is that of a phrase in parentheses inside of it: it begins behind the
opening parenthesis, and its depth counts the parentheses that are open before that one. -/
theorem exists_within_of_mem_groups {start depth : Nat} {g : Group} (h : g ∈ p.groups start depth) :
    ∃ q before behind, Within q before behind p ∧ g.formula = q.formula ∧
      g.start = start + before.length + 1 ∧ g.stop = g.start + q.symbols.length ∧
      (g.depth : Int) = depth + Symbol.balance before := by
  induction p generalizing start depth with
  | var | const => simp [groups] at h
  | enclosed p ih =>
    rcases List.mem_cons.mp h with rfl | inner
    · exact ⟨p, [], [], .here, rfl, rfl, rfl, by simp [Symbol.balance]⟩
    · obtain ⟨q, before, behind, within, formula, hstart, hstop, hdepth⟩ := ih inner
      refine ⟨q, _, _, .enclosed within, formula, ?_, hstop, ?_⟩
      · simp only [hstart, List.length_cons]
        omega
      · simp only [hdepth, Symbol.balance]
        omega
  | not p ih =>
    obtain ⟨q, before, behind, within, formula, hstart, hstop, hdepth⟩ := ih h
    refine ⟨q, _, _, .not within, formula, ?_, hstop, hdepth⟩
    simp only [hstart, List.length_cons]
    omega
  | binary c l r ihl ihr =>
    rcases List.mem_append.mp h with left | right
    · obtain ⟨q, before, behind, within, place⟩ := ihl left
      exact ⟨q, before, _, .left within, place⟩
    · obtain ⟨q, before, behind, within, formula, hstart, hstop, hdepth⟩ := ihr right
      refine ⟨q, _, _, .right within, formula, ?_, hstop, ?_⟩
      · simp only [hstart, List.length_append, List.length_cons]
        omega
      · simpa [Symbol.balance_append, balance_symbols, Symbol.balance] using hdepth

end Phrase

namespace Parsed

variable {text : List Char} {parsed : Parsed} {g : Group}

theorem part_of_mem_groups (h : ofText text = .ok parsed) (mem : g ∈ parsed.groups) :
    g.formula.Part parsed.root := by
  obtain ⟨tokens, p, -, -, -, rfl⟩ := ofText_eq_ok.mp h
  obtain ⟨q, before, behind, within, formula, -⟩ := Phrase.exists_within_of_mem_groups mem
  exact formula ▸ within.part

theorem occurrences_of_mem_groups (h : ofText text = .ok parsed) (mem : g ∈ parsed.groups) :
    g.formula.occurrences ⊆ parsed.root.occurrences :=
  (part_of_mem_groups h mem).occurrences_subset

end Parsed

end Sentential
