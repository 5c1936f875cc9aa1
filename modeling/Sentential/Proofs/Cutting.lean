import Sentential.Lexeme
import Sentential.Proofs.Splitting

/-!
# How a text is cut

What the first lexeme of a text says about the text behind it, and what must stand behind a spelling
for it to be cut off as a lexeme of its own. A word needs a neighbour that goes on no word; a glyph
stands for itself anywhere; a character that is nothing else must not begin a sign. Lexemes with
such neighbours are the lexemes of the text that they make up: `Lexeme.Scanned.map_unplaced_scan`.
-/

namespace Sentential

-- ---------------------------------------------------------------------------
-- The first lexeme
-- ---------------------------------------------------------------------------

/-- The text goes on no word. -/
def Text.Severed (text : List Char) : Prop := ∀ c, text.head? = some c → isWordChar c = false

@[simp] theorem Text.severed_nil : Severed [] := fun _ head => nomatch head

@[simp] theorem Text.severed_cons {c : Char} {text : List Char} :
    Severed (c :: text) ↔ isWordChar c = false := by
  simp [Severed]

theorem Text.forall_mem_run {p : Char → Bool} {c : Char} {text : List Char} (h : p c = true) :
    ∀ d ∈ c :: text.takeWhile p, p d = true :=
  List.forall_mem_cons.mpr ⟨h, List.all_eq_true.mp List.all_takeWhile⟩

theorem Text.not_isWordChar_of_isBlank {c : Char} (h : isBlank c = true) :
    isWordChar c = false := by
  obtain ⟨r, mem, first, last⟩ := exists_of_inRanges h
  have plain : ∀ r ∈ blankRanges, ∀ i < r.2 + 1 - r.1,
      isWordChar (Char.ofNat (r.1 + i)) = false := by decide +kernel
  have same : r.1 + (c.toNat - r.1) = c.toNat := by omega
  have := plain r mem (c.toNat - r.1) (by omega)
  rwa [same, Char.ofNat_toNat] at this

theorem Symbol.ne_nil_of_mem_signs {spelling : List Char} {s : Symbol}
    (h : (spelling, s) ∈ signs) : spelling ≠ [] := by
  have filled : ∀ sign ∈ signs, sign.1 ≠ [] := by decide
  exact filled _ h

theorem Symbol.not_isWordChar_of_mem_signs {c : Char} {spelling : List Char} {s : Symbol}
    (h : (c :: spelling, s) ∈ signs) : Text.isWordChar c = false := by
  have heads : ∀ sign ∈ signs, sign.1.head?.all (fun c => !Text.isWordChar c) = true := by
    decide +kernel
  simpa using heads _ h

theorem Symbol.sign?_of_isWordChar {c : Char} (h : Text.isWordChar c = true) (text : List Char) :
    sign? (c :: text) = none := by
  refine List.find?_eq_none.mpr fun sign mem begins => ?_
  obtain ⟨spelling, s⟩ := sign
  obtain ⟨d, spelling, rfl⟩ := List.exists_cons_of_ne_nil (ne_nil_of_mem_signs mem)
  rw [List.isPrefixOf_iff_prefix, List.cons_prefix_cons] at begins
  simp [not_isWordChar_of_mem_signs (begins.1 ▸ mem)] at h

theorem Symbol.sign?_eq_none_of_prefix {text whole : List Char} (begins : text <+: whole)
    (unsigned : sign? whole = none) : sign? text = none := by
  refine List.find?_eq_none.mpr fun sign mem found => List.find?_eq_none.mp unsigned sign mem ?_
  rw [List.isPrefixOf_iff_prefix] at found ⊢
  exact found.trans begins

namespace LexemeKind

theorem first_blank {c : Char} (h : Text.isBlank c = true) (text : List Char) :
    first c text = (.blank, c :: text.takeWhile Text.isBlank) := by
  simp only [first, h, if_true]

theorem first_word {c : Char} {run rest : List Char} (solid : Text.isBlank c = false)
    (word : ∀ d ∈ c :: run, Text.isWordChar d = true) (severed : Text.Severed rest) :
    first c (run ++ rest) = (ofWord (c :: run), c :: run) := by
  obtain ⟨wordChar, others⟩ := List.forall_mem_cons.mp word
  have whole : (run ++ rest).takeWhile Text.isWordChar = run :=
    takeWhile_append_of_head? others severed
  simp only [first, solid, Symbol.sign?_of_isWordChar wordChar, wordChar, whole, if_true,
    Bool.false_eq_true, if_false]

end LexemeKind

-- ---------------------------------------------------------------------------
-- What stands behind it
-- ---------------------------------------------------------------------------

def Text.Solid (text : List Char) : Prop := ∀ c, text.head? = some c → isBlank c = false

@[simp] theorem Text.solid_nil : Solid [] := fun _ head => nomatch head

@[simp] theorem Text.solid_cons {c : Char} {text : List Char} :
    Solid (c :: text) ↔ isBlank c = false := by
  simp [Solid]

theorem Text.Solid.append {text : List Char} (h : Solid text) (filled : text ≠ [])
    (other : List Char) : Solid (text ++ other) := by
  obtain ⟨c, text, rfl⟩ := List.exists_cons_of_ne_nil filled
  exact Text.solid_cons.mpr (Text.solid_cons.mp h)

theorem Symbol.isBlank_of_mem_signs {c : Char} {spelling : List Char} {s : Symbol}
    (h : (c :: spelling, s) ∈ signs) : Text.isBlank c = false := by
  have heads : ∀ sign ∈ signs, sign.1.head?.all (fun c => !Text.isBlank c) = true := by decide
  simpa using heads _ h

/-- No sign begins another one, so a sign is found wherever it stands. -/
theorem Symbol.sign?_of_mem_signs {spelling : List Char} {s : Symbol} (h : (spelling, s) ∈ signs)
    (rest : List Char) : sign? (spelling ++ rest) = some (spelling, s) := by
  have found : ∀ sign ∈ signs, sign? (sign.1 ++ rest) = some sign := by
    simp only [signs, List.forall_mem_cons]
    exact ⟨rfl, rfl, rfl, rfl, rfl, rfl, rfl, rfl, rfl, rfl, rfl, rfl, rfl, rfl, rfl, rfl, rfl, rfl,
      List.forall_mem_nil _⟩
  exact found _ h

namespace LexemeKind

variable {c : Char} {text run rest spelling : List Char} {kind : LexemeKind}

/-- A lexeme of the kind, spelled so, begins the text and leaves the rest. -/
inductive Opens : LexemeKind → List Char → List Char → Prop
  | blank {run rest : List Char} : run ≠ [] → (∀ c ∈ run, Text.isBlank c = true) →
      Text.Solid rest → Opens .blank run rest
  | sign {spelling rest : List Char} {s : Symbol} : (spelling, s) ∈ Symbol.signs →
      Opens (.symbol s) spelling rest
  | word {c : Char} {run rest : List Char} : Text.isBlank c = false →
      (∀ d ∈ c :: run, Text.isWordChar d = true) → Text.Severed rest →
      Opens (ofWord (c :: run)) (c :: run) rest
  | other {c : Char} {rest : List Char} : Text.isBlank c = false → Text.isWordChar c = false →
      Symbol.sign? (c :: rest) = none → Opens .other [c] rest

theorem Opens.ne_nil (h : Opens kind spelling rest) : spelling ≠ [] := by
  cases h with
  | blank filled => exact filled
  | sign mem => exact Symbol.ne_nil_of_mem_signs mem
  | word | other => simp

theorem ofWord_ne (word : List Char) : ofWord word ≠ .blank ∧ ofWord word ≠ .other := by
  unfold ofWord
  split <;> simp

theorem Opens.isBlank (h : Opens kind spelling rest) (blank : kind = .blank) :
    (∀ c ∈ spelling, Text.isBlank c = true) ∧ Text.Solid rest := by
  cases h with
  | blank _ blanks behind => exact ⟨blanks, behind⟩
  | sign | other => cases blank
  | word => exact absurd blank (ofWord_ne _).1

theorem Opens.solid (h : Opens kind spelling rest) (unblank : kind ≠ .blank) :
    Text.Solid spelling := by
  cases h with
  | blank => exact absurd rfl unblank
  | sign mem =>
    obtain ⟨c, run, rfl⟩ := List.exists_cons_of_ne_nil (Symbol.ne_nil_of_mem_signs mem)
    exact Text.solid_cons.mpr (Symbol.isBlank_of_mem_signs mem)
  | word solid | other solid => exact Text.solid_cons.mpr solid

theorem Opens.unblank (h : Opens kind spelling rest) (solid : Text.Solid (spelling ++ rest)) :
    kind ≠ .blank := by
  intro blank
  obtain ⟨c, run, rfl⟩ := List.exists_cons_of_ne_nil h.ne_nil
  have own := (h.isBlank blank).1 c List.mem_cons_self
  simp [Text.solid_cons.mp solid] at own

theorem Opens.plain (h : Opens kind spelling rest) (other : kind = .other) :
    ∃ c, spelling = [c] ∧ Text.isWordChar c = false := by
  cases h with
  | other _ plain => exact ⟨_, rfl, plain⟩
  | sign | blank => cases other
  | word => exact absurd other (ofWord_ne _).2

theorem opens_of_first (h : first c text = (kind, spelling)) :
    Opens kind spelling ((c :: text).drop spelling.length) := by
  unfold first at h
  split at h
  next blank =>
    obtain ⟨rfl, rfl⟩ := Prod.mk.inj h
    rw [List.length_cons, List.drop_succ_cons, drop_length_takeWhile]
    exact .blank (by simp) (Text.forall_mem_run blank) fun c => of_head?_dropWhile
  next solid =>
    have solid : Text.isBlank c = false := by simpa using solid
    split at h
    next sign s found =>
      obtain ⟨rfl, rfl⟩ := Prod.mk.inj h
      exact .sign (List.mem_of_find?_eq_some found)
    next unsigned =>
      split at h
      next wordChar =>
        obtain ⟨rfl, rfl⟩ := Prod.mk.inj h
        rw [List.length_cons, List.drop_succ_cons, drop_length_takeWhile]
        exact .word solid (Text.forall_mem_run wordChar) fun c => of_head?_dropWhile
      next plain =>
        obtain ⟨rfl, rfl⟩ := Prod.mk.inj h
        exact .other solid (by simpa using plain) unsigned

theorem first_other (solid : Text.isBlank c = false) (plain : Text.isWordChar c = false)
    (unsigned : Symbol.sign? (c :: rest) = none) : first c rest = (.other, [c]) := by
  simp only [first, solid, plain, unsigned, Bool.false_eq_true, if_false]

/-- What can be the first lexeme of a text is its first lexeme. -/
theorem first_of_opens (h : Opens kind (c :: run) rest) :
    first c (run ++ rest) = (kind, c :: run) := by
  cases h with
  | blank _ blanks solid =>
    obtain ⟨blank, others⟩ := List.forall_mem_cons.mp blanks
    rw [first_blank blank, takeWhile_append_of_head? others solid]
  | sign mem =>
    have found := Symbol.sign?_of_mem_signs mem rest
    rw [List.cons_append] at found
    simp only [first, Symbol.isBlank_of_mem_signs mem, found, Bool.false_eq_true, if_false]
  | word solid word severed => exact first_word solid word severed
  | other solid plain unsigned => exact first_other solid plain unsigned

end LexemeKind

-- ---------------------------------------------------------------------------
-- The lexemes of a text
-- ---------------------------------------------------------------------------

namespace Lexeme

/-- The lexemes come from the text one after the other. -/
inductive Scanned : List Char → List Lexeme → Prop
  | nil : Scanned [] []
  | cons {l : Lexeme} {rest : List Char} {lexemes : List Lexeme} :
      l.kind.Opens l.spelling rest → Scanned rest lexemes →
      Scanned (l.spelling ++ rest) (l :: lexemes)

theorem scanned_scan (position : Nat) (text : List Char) : Scanned text (scan position text) := by
  fun_induction scan position text with
  | case1 => exact .nil
  | case2 position c text kind spelling first ih =>
    have start := (LexemeKind.first_spelling c text).2
    rw [first] at start
    have whole : c :: text = spelling ++ (c :: text).drop spelling.length :=
      (List.prefix_iff_eq_append.mp start).symm
    have scanned := Scanned.cons (l := ⟨kind, spelling, position⟩)
      (LexemeKind.opens_of_first first) ih
    rwa [← whole] at scanned

theorem Scanned.flatMap_spelling {text : List Char} {lexemes : List Lexeme}
    (h : Scanned text lexemes) : lexemes.flatMap spelling = text := by
  induction h with
  | nil => rfl
  | cons _ _ ih => rw [List.flatMap_cons, ih]

theorem Scanned.exists_opens {l : Lexeme} {text : List Char} {lexemes : List Lexeme}
    (h : Scanned text lexemes) (mem : l ∈ lexemes) : ∃ rest, l.kind.Opens l.spelling rest := by
  induction h with
  | nil => cases mem
  | cons opens _ ih =>
    rcases List.mem_cons.mp mem with rfl | mem
    · exact ⟨_, opens⟩
    · exact ih mem

theorem position_of_scan {l : Lexeme} {text : List Char} {before behind : List Lexeme}
    {position : Nat} (h : scan position text = before ++ l :: behind) :
    l.position = position + (before.flatMap spelling).length := by
  fun_induction scan position text generalizing before with
  | case1 => simp at h
  | case2 position c text kind spelling _ ih =>
    rcases List.cons_eq_append_iff.mp h with ⟨rfl, here⟩ | ⟨before, rfl, later⟩
    · obtain rfl := (List.cons.inj here).1
      rfl
    · rw [ih later, List.flatMap_cons, List.length_append, Nat.add_assoc]

def unplaced (l : Lexeme) : Lexeme := { l with position := 0 }

/-- A text comes from one list of lexemes only, but for their positions. -/
theorem Scanned.map_unplaced_scan {text : List Char} {lexemes : List Lexeme}
    (h : Scanned text lexemes) (position : Nat) :
    (scan position text).map unplaced = lexemes.map unplaced := by
  induction h generalizing position with
  | nil => simp [scan]
  | @cons l rest lexemes opens scanned ih =>
    obtain ⟨kind, spelling, place⟩ := l
    obtain ⟨c, run, rfl⟩ := List.exists_cons_of_ne_nil opens.ne_nil
    have dropped : (c :: (run ++ rest)).drop (c :: run).length = rest :=
      @List.drop_left _ (c :: run) rest
    change (scan position (c :: (run ++ rest))).map unplaced = _
    rw [scan]
    simp only [LexemeKind.first_of_opens opens, dropped, List.map_cons, ih]
    rfl

/-- The kinds and the spellings of the lexemes that are no blanks, each spelled anew. -/
def pieces (respell : Lexeme → List Char) (lexemes : List Lexeme) :
    List (LexemeKind × List Char) :=
  (lexemes.filter (!·.isBlank)).map fun l => (l.kind, respell l)

variable {respell : Lexeme → List Char} {l : Lexeme}

theorem pieces_cons_blank (h : l.kind = .blank) (lexemes : List Lexeme) :
    pieces respell (l :: lexemes) = pieces respell lexemes := by
  simp [pieces, isBlank, h]

theorem pieces_cons_solid (h : l.kind ≠ .blank) (lexemes : List Lexeme) :
    pieces respell (l :: lexemes) = (l.kind, respell l) :: pieces respell lexemes := by
  simp [pieces, isBlank, h]

theorem pieces_append (lexemes others : List Lexeme) :
    pieces respell (lexemes ++ others) = pieces respell lexemes ++ pieces respell others := by
  simp [pieces]

theorem pieces_map_unplaced (lexemes : List Lexeme) :
    pieces spelling (lexemes.map unplaced) = pieces spelling lexemes := by
  simp only [pieces, List.filter_map, List.map_map]
  rfl

end Lexeme

def Cuts (text : List Char) (pieces : List (LexemeKind × List Char)) : Prop :=
  ∀ position, Lexeme.pieces Lexeme.spelling (Lexeme.scan position text) = pieces

theorem Lexeme.Scanned.cuts {text : List Char} {lexemes : List Lexeme}
    (h : Scanned text lexemes) : Cuts text (pieces spelling lexemes) := by
  intro position
  rw [← pieces_map_unplaced, h.map_unplaced_scan, pieces_map_unplaced]

end Sentential
