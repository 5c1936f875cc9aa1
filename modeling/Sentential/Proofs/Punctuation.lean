import Sentential.Proofs.Moves

/-!
# The marks of a sealed text

A colon stands between a step's formula and its label, a comma between two steps and a bar behind
the target. No formula that was read has a colon or a comma in its text, whatever its spelling, and
no rendered formula has a bar either.
-/

namespace Sentential

-- ---------------------------------------------------------------------------
-- Texts that are read
-- ---------------------------------------------------------------------------

def Text.isWritable (c : Char) : Bool :=
  isBlank c || isWordChar c || Symbol.signs.any fun sign => sign.1.contains c

theorem LexemeKind.isWritable_of_first {c : Char} {text spelling : List Char} {kind : LexemeKind}
    (h : first c text = (kind, spelling)) (own : kind ≠ .other) :
    ∀ d ∈ spelling, Text.isWritable d = true := by
  intro d mem
  unfold first at h
  split at h
  next blank =>
    obtain ⟨-, rfl⟩ := Prod.mk.inj h
    have : Text.isBlank d = true := Text.forall_mem_run blank d mem
    simp [Text.isWritable, this]
  split at h
  next sign s found =>
    obtain ⟨-, rfl⟩ := Prod.mk.inj h
    have : Symbol.signs.any (·.1.contains d) = true :=
      List.any_eq_true.mpr ⟨_, List.mem_of_find?_eq_some found, by simpa using mem⟩
    rw [Text.isWritable, this, Bool.or_true]
  split at h
  next wordChar =>
    obtain ⟨-, rfl⟩ := Prod.mk.inj h
    have : Text.isWordChar d = true := Text.forall_mem_run wordChar d mem
    simp [Text.isWritable, this]
  next => exact absurd (Prod.mk.inj h).1.symm own

theorem Token.isWritable_of_ofText {text : List Char} {tokens : List Token}
    (h : ofText text = .ok tokens) : ∀ c ∈ text, Text.isWritable c = true := by
  intro c mem
  rw [← Lexeme.flatMap_spelling_scan 1 text] at mem
  obtain ⟨l, hl, mem⟩ := List.mem_flatMap.mp mem
  obtain ⟨d, rest, first⟩ := Lexeme.exists_first_of_mem_scan hl
  refine LexemeKind.isWritable_of_first first ?_ c mem
  -- A character of no kind would have been an error.
  intro other
  unfold ofText ofLexemes at h
  split at h
  · simp at h
  next clear => exact List.find?_eq_none.mp clear l hl (by simp [Lexeme.isForeign, other])

def Unmarked (text : String) : Prop := ':' ∉ text.toList ∧ ',' ∉ text.toList

theorem Formula.unmarked_of_read {text : String} {f : Formula} (h : Formula.read text = .ok f) :
    Unmarked text := by
  obtain ⟨tokens, -, tokenized, -⟩ := ofText_eq_ok.mp (read_eq_ok.mp h)
  have writable := Token.isWritable_of_ofText tokenized
  have colon : Text.isWritable ':' = false := by decide
  have comma : Text.isWritable ',' = false := by decide
  constructor
  · intro mem
    simp [writable _ mem] at colon
  · intro mem
    simp [writable _ mem] at comma

-- ---------------------------------------------------------------------------
-- Texts that are rendered
-- ---------------------------------------------------------------------------

theorem Symbol.notMem_spaced {s : Symbol} (letter : ∀ v, s = .var v → v.isUpper) :
    ∀ mark ∈ [':', ',', '|'], mark ∉ s.spaced := by
  cases s with
  | var v =>
    intro mark marked mem
    obtain rfl : mark = v := by simpa [spaced, glyph] using mem
    have upper := letter mark rfl
    simp only [List.mem_cons, List.not_mem_nil, or_false] at marked
    rcases marked with rfl | rfl | rfl <;> simp at upper
  | const b => cases b <;> simp [spaced, glyph, constGlyph]
  | op o =>
    cases o with
    | not => simp [spaced, glyph, Operator.glyph]
    | binary c => cases c <;> simp [spaced, Connective.glyph]
  | opening | closing => simp [spaced, glyph]

theorem Symbol.notMem_render {symbols : List Symbol} (letters : ∀ v, .var v ∈ symbols → v.isUpper) :
    ∀ mark ∈ [':', ',', '|'], mark ∉ render symbols := by
  intro mark marked mem
  obtain ⟨s, hs, mem⟩ := List.mem_flatMap.mp mem
  exact notMem_spaced (fun v eq => letters v (eq ▸ hs)) mark marked mem

theorem Formula.bar_notMem_print {f : Formula} (h : f.Lettered) : '|' ∉ f.print :=
  Symbol.notMem_render (fun _ mem => h.isUpper_of_mem_symbols mem) '|' (by simp)

theorem Rule.unmarked_label (rule : Rule) : Unmarked rule.label := by
  cases rule <;> exact ⟨by decide, by decide⟩

theorem unmarked_initialLabel : Unmarked initialLabel := ⟨by decide, by decide⟩

theorem Line.unmarked_of_ofText {text label : String} {line : Line}
    (h : Line.ofText text label = .ok line) :
    Unmarked line.step.formula ∧ line.step.ruleApplied = label := by
  obtain ⟨parsed, read, rfl⟩ := ofText_eq_ok.mp h
  obtain ⟨tokens, p, tokenized, -, -, rfl⟩ := Parsed.ofText_eq_ok.mp read
  have letters : ∀ v, .var v ∈ tokens.map Token.symbol → v.isUpper := by
    intro v mem
    obtain ⟨t, ht, symbol⟩ := List.mem_map.mp mem
    exact Token.isUpper_of_ofText tokenized ht symbol
  refine ⟨⟨?_, ?_⟩, rfl⟩
  · rw [String.toList_ofList]
    exact Symbol.notMem_render letters ':' (by simp)
  · rw [String.toList_ofList]
    exact Symbol.notMem_render letters ',' (by simp)

end Sentential
