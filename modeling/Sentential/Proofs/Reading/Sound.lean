import Sentential.Proofs.Reading.Complete

/-!
# The parser reads phrases only

One lemma for each function of the parser: where it succeeds it has passed the symbols of a phrase
of its level. What it made of the phrase is then known from its completeness.
-/

namespace Sentential.Parser

/-- The parser passes the symbols of a phrase from the first cursor to the second. -/
def Passes (level : Nat) (cur next : Cursor) : Prop :=
  ∃ p : Phrase, p.WellFormed ∧ level ≤ p.level ∧ cur.symbols = p.symbols ++ next.symbols

def Sound (parser : Parser) (level : Nat) : Prop :=
  ∀ ⦃cur next : Cursor⦄ ⦃operand : Operand⦄, parser cur = .ok (operand, next) →
    Passes level cur next

def GroupSound (group : Token → Parser) : Prop :=
  ∀ ⦃t : Token⦄ ⦃cur next : Cursor⦄ ⦃operand : Operand⦄, group t cur = .ok (operand, next) →
    ∃ p : Phrase, p.WellFormed ∧ cur.symbols = p.symbols ++ .closing :: next.symbols

variable {operand : Parser} {c : Connective}

theorem atom_sound {group : Token → Parser} (h : GroupSound group) : Sound (atom group) 7 := by
  intro cur next result read
  unfold atom at read
  split at read
  · simp at read
  rename_i t behind hnext
  obtain ⟨hcur, -⟩ := Cursor.symbols_of_next? hnext
  split at read
  next v ht =>
    obtain ⟨-, rfl⟩ : _ ∧ behind = next := by simpa using read
    exact ⟨.var v, trivial, Nat.le_refl _, by rw [hcur, ht]; rfl⟩
  next b ht =>
    obtain ⟨-, rfl⟩ : _ ∧ behind = next := by simpa using read
    exact ⟨.const b, trivial, Nat.le_refl _, by rw [hcur, ht]; rfl⟩
  next ht =>
    obtain ⟨p, wf, inside⟩ := h read
    exact ⟨.enclosed p, wf, Nat.le_refl _, by rw [hcur, ht, inside]; simp [Phrase.symbols]⟩
  all_goals simp at read

theorem full_sound : GroupSound (fun opening _ => .error (.tooDeep opening.position)) := by
  intro t cur next result read
  simp at read

theorem group_sound {contents : Parser} {depth : Nat} (h : Sound contents 1) :
    GroupSound (group depth contents) := by
  intro t cur next result read
  unfold group at read
  split at read
  · simp at read
  obtain ⟨⟨body, after⟩, inner, read⟩ := bind_eq_ok.mp read
  obtain ⟨p, wf, -, inside⟩ := h inner
  cases hnext : after.next? with
  | none => simp [hnext] at read
  | some step =>
    obtain ⟨u, behind⟩ := step
    obtain ⟨hafter, -⟩ := Cursor.symbols_of_next? hnext
    simp only [hnext] at read
    split at read
    next closing =>
      obtain ⟨-, rfl⟩ : _ ∧ behind = next := by simpa using read
      exact ⟨p, wf, by rw [inside, hafter, closing]⟩
    · simp at read

theorem negated_sound (h : Sound operand 7) : Sound (negated operand) 6 := by
  intro cur next result read
  generalize hs : cur.symbols = symbols
  induction symbols generalizing cur next result with
  | nil =>
    rw [negated_of_head (by simp [hs])] at read
    obtain ⟨p, wf, level, split⟩ := h read
    exact ⟨p, wf, Nat.le_of_succ_le level, split⟩
  | cons s symbols ih =>
    by_cases negation : s = .op .not
    · subst negation
      obtain ⟨t, ht, hnext⟩ := Cursor.next?_of_symbols hs
      rw [negated_not ht hnext] at read
      obtain ⟨⟨body, behind⟩, inner, read⟩ := bind_eq_ok.mp read
      obtain ⟨negation, -, read⟩ := bind_eq_ok.mp read
      obtain ⟨-, rfl⟩ : negation = result ∧ behind = next := by simpa [pure, Except.pure] using read
      obtain ⟨p, wf, level, split⟩ := ih inner (Cursor.symbols_skip_one hs)
      refine ⟨.not p, ⟨wf, level⟩, Nat.le_refl _, ?_⟩
      rw [hs, ← Cursor.symbols_skip_one hs, split]
      rfl
    · rw [negated_of_head (by simpa [hs] using negation)] at read
      obtain ⟨p, wf, level, split⟩ := h read
      exact ⟨p, wf, Nat.le_of_succ_le level, split⟩

/-- The loop keeps the symbols passed so far those of a phrase that may stand on the left of the
next link. -/
theorem chain_sound (h : Sound operand (c.level + 1)) {start cur next : Cursor}
    {left result : Operand} (before : Passes c.level start cur)
    (read : chain c operand left cur = .ok (result, next)) : Passes c.level start next := by
  fun_induction chain c operand left cur with
  | case1 left cur ended =>
    obtain ⟨-, rfl⟩ : left = result ∧ cur = next := by simpa using read
    exact before
  | case2 => simp at read
  | case3 left cur t behind hnext link right after inner height low ih =>
    obtain ⟨p, wfp, loose, hstart⟩ := before
    obtain ⟨hcur, -⟩ := Cursor.symbols_of_next? hnext
    obtain ⟨q, wfq, tight, hbehind⟩ := h inner
    refine ih ⟨.binary c p q, ⟨wfp, wfq, loose, tight⟩, Nat.le_refl _, ?_⟩ read
    rw [hstart, hcur, link, hbehind]
    simp [Phrase.symbols]
  | case4 => simp at read
  | case5 left cur t behind hnext other =>
    obtain ⟨-, rfl⟩ : left = result ∧ cur = next := by simpa using read
    exact before

theorem chains_sound {tighter : List Connective}
    (h : Sound (chains operand tighter) (c.level + 1)) :
    Sound (chains operand (c :: tighter)) c.level := by
  intro cur next result read
  obtain ⟨⟨left, behind⟩, first, read⟩ := bind_eq_ok.mp read
  obtain ⟨p, wf, level, split⟩ := h first
  exact chain_sound h ⟨p, wf, Nat.le_of_succ_le level, split⟩ read

theorem all_sound (h : Sound operand 6) : Sound (chains operand Connective.all) 1 :=
  chains_sound (c := .iff) <| chains_sound (c := .implies) <| chains_sound (c := .xor) <|
    chains_sound (c := .or) <| chains_sound (c := .and) h

theorem formula_sound (room : Nat) : Sound (formula room) 1 := by
  induction room with
  | zero => exact all_sound (negated_sound (atom_sound full_sound))
  | succ room ih => exact all_sound (negated_sound (atom_sound (group_sound ih)))

end Sentential.Parser
