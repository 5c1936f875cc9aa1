import Mathlib.Control.Monad.Basic
import Sentential.Proofs.Assignments
import Sentential.Proofs.Groups

/-!
# What a truth table tells

Every column's formula is a part of the whole one, so an assignment to the variables of the whole
evaluates all of them. A table has one row for each assignment, and the last cell of that row is the
value of the formula under it.
-/

namespace Sentential

namespace TruthTable

-- ---------------------------------------------------------------------------
-- Columns
-- ---------------------------------------------------------------------------

variable {root : Formula} {columns : List Column} {groups : List Group} {mode : GroupColumns}
variable {parsed : Parsed} {column : Column} {names : List Char}

theorem prefix_foldl_addGroup (root : Formula) (columns : List Column) (groups : List Group) :
    columns <+: groups.foldl (addGroup root) columns := by
  induction groups generalizing columns with
  | nil => exact List.prefix_refl _
  | cons g groups ih =>
    refine List.IsPrefix.trans ?_ (ih (addGroup root columns g))
    unfold addGroup
    split
    · exact List.prefix_refl _
    · exact List.prefix_append _ _

theorem mem_foldl_addGroup (h : column ∈ groups.foldl (addGroup root) columns) :
    column ∈ columns ∨ ∃ g ∈ groups, g.formula ≠ root ∧
      column = ⟨toString g.formula, g.formula⟩ := by
  induction groups generalizing columns with
  | nil => exact .inl h
  | cons g groups ih =>
    rcases ih h with here | ⟨g', mem, new⟩
    · unfold addGroup at here
      split at here
      · exact .inl here
      next shown =>
        rcases List.mem_append.mp here with old | new
        · exact .inl old
        · simp only [Bool.or_eq_true, beq_iff_eq, not_or] at shown
          exact .inr ⟨g, List.mem_cons_self, shown.1.2, List.mem_singleton.mp new⟩
    · exact .inr ⟨g', List.mem_cons_of_mem _ mem, new⟩

theorem occurrences_of_mem_columnsOf
    (parts : ∀ g ∈ parsed.groups, g.formula.occurrences ⊆ parsed.root.occurrences)
    (h : column ∈ columnsOf mode parsed) :
    column.formula.occurrences ⊆ parsed.root.occurrences := by
  rcases List.mem_append.mp h with inner | last
  · rcases mem_foldl_addGroup inner with name | ⟨g, mem, -, rfl⟩
    · obtain ⟨v, mem, rfl⟩ := List.mem_map.mp name
      exact List.cons_subset.mpr ⟨Formula.mem_names.mp mem, List.nil_subset _⟩
    · exact parts g (List.mem_filter.mp mem).1
  · obtain rfl := List.mem_singleton.mp last
    exact List.Subset.refl _

theorem getElem?_columnsOf {i : Nat} {v : Char} (h : parsed.root.names[i]? = some v) :
    (columnsOf mode parsed)[i]? = some ⟨String.singleton v, .var v⟩ := by
  have first : nameColumns parsed.root.names <+: columnsOf mode parsed :=
    (prefix_foldl_addGroup _ _ _).trans (List.prefix_append _ _)
  have named : (nameColumns parsed.root.names)[i]? = some ⟨String.singleton v, .var v⟩ := by
    simp [nameColumns, h]
  obtain ⟨rest, whole⟩ := first
  rw [← whole, List.getElem?_append_left (List.getElem?_eq_some_iff.mp named).1, named]

theorem getLast?_columnsOf (mode : GroupColumns) (parsed : Parsed) :
    (columnsOf mode parsed).getLast?.map Column.formula = some parsed.root := by
  simp [columnsOf]

-- ---------------------------------------------------------------------------
-- Tables
-- ---------------------------------------------------------------------------

/-- The table has the variables of the formula in ascending order and a row for each assignment to
them; each cell is the value of its column, and the last column is the formula itself. -/
structure Tabulates (table : TruthTable) (f : Formula) : Prop where
  ascending : table.names.Pairwise (· < ·)
  mem_names (v : Char) : v ∈ table.names ↔ v ∈ f.occurrences
  length_rows : table.rows.length = 2 ^ table.names.length
  name_cells (row i : Nat) (v : Char) (cells : List Cell) : table.rows[row]? = some cells →
    table.names[i]? = some v → table.columns[i]?.map Column.formula = some (.var v) ∧
      cells[i]? = some (.ok (row.testBit (table.names.length - 1 - i)))
  numbered (row : Nat) : ∃ values, Numbers table.names row values
  cells_eq (row : Nat) (values : Valuation) (cells : List Cell) : table.rows[row]? = some cells →
    Numbers table.names row values →
      cells = table.columns.map fun column => column.formula.eval values
  no_errors (cells : List Cell) : cells ∈ table.rows → ∀ cell ∈ cells, ∃ b, cell = .ok b
  last_column : table.columns.getLast?.map Column.formula = some f
  row_of (values : Valuation) : values.Covers f →
    ∃ row cells, table.rows[row]? = some cells ∧ Numbers table.names row values ∧
      cells.getLast? = some (f.eval values) ∧
      ∀ other < 2 ^ table.names.length, Numbers table.names other values → other = row

def tableOf (mode : GroupColumns) (parsed : Parsed) : TruthTable where
  names := parsed.root.names
  columns := columnsOf mode parsed
  rows := (List.range (1 <<< parsed.root.names.length)).map fun r =>
    row (columnsOf mode parsed) (.ofList (assignment parsed.root.names r))

theorem ofParsed_eq (parsed : Parsed) (params : TableParams) : ofParsed parsed params =
    if parsed.root.names.length = 0 then .error .noVariables
    else if params.limit < parsed.root.names.length then
      .error (.tooManyVariables parsed.root.names.length params.limit)
    else .ok (tableOf params.groups parsed) := by
  simp only [ofParsed, List.isEmpty_iff, List.length_eq_zero_iff]
  rfl

theorem ofText_eq_ok {text : List Char} {params : TableParams} {table : TruthTable} :
    ofText text params = .ok table ↔ ∃ parsed, Parsed.ofText text = .ok parsed ∧
      (1 ≤ parsed.root.names.length ∧ parsed.root.names.length ≤ params.limit) ∧
      table = tableOf params.groups parsed := by
  unfold ofText
  cases Parsed.ofText text with
  | error e => simp
  | ok parsed =>
    simp only [ofParsed_eq, Except.ok.injEq, exists_eq_left']
    split
    · simp
      omega
    · split
      · simp
        omega
      · simp only [Except.ok.injEq, eq_comm (a := table)]
        exact ⟨fun made => ⟨by omega, made⟩, And.right⟩

theorem getElem?_rows {r : Nat} {cells : List Cell} :
    (tableOf mode parsed).rows[r]? = some cells ↔ r < 2 ^ parsed.root.names.length ∧
      cells = row (columnsOf mode parsed) (.ofList (assignment parsed.root.names r)) := by
  simp only [tableOf, Nat.one_shiftLeft]
  grind

/-- All columns evaluate alike under the assignments that a row numbers. -/
theorem row_eq_of_numbers
    (parts : ∀ g ∈ parsed.groups, g.formula.occurrences ⊆ parsed.root.occurrences) {r : Nat}
    {values others : Valuation} (h : Numbers parsed.root.names r values)
    (h' : Numbers parsed.root.names r others) :
    row (columnsOf mode parsed) values = row (columnsOf mode parsed) others := by
  refine List.map_congr_left fun column mem => Formula.eval_congr fun v occurs => ?_
  exact h.eq_on h' (Formula.mem_names.mpr (occurrences_of_mem_columnsOf parts mem occurs))

theorem Numbers.covers {r : Nat} {values : Valuation} {f : Formula}
    (h : Numbers parsed.root.names r values) (part : f.occurrences ⊆ parsed.root.occurrences) :
    values.Covers f := by
  refine Valuation.covers_iff.mpr fun v occurs => ?_
  obtain ⟨i, here⟩ := List.mem_iff_getElem?.mp (Formula.mem_names.mpr (part occurs))
  rw [h i v here]
  rfl

theorem tabulates_tableOf
    (parts : ∀ g ∈ parsed.groups, g.formula.occurrences ⊆ parsed.root.occurrences) :
    (tableOf mode parsed).Tabulates parsed.root where
  ascending := parsed.root.pairwise_names
  mem_names v := Formula.mem_names
  length_rows := by simp [tableOf, Nat.one_shiftLeft]
  name_cells r i v cells hrow hname := by
    obtain ⟨-, rfl⟩ := getElem?_rows.mp hrow
    have column : (columnsOf mode parsed)[i]? = _ := getElem?_columnsOf hname
    have digit := numbers_assignment parsed.root.nodup_names r i v hname
    refine ⟨by simp [tableOf, column], ?_⟩
    simp [row, column, Formula.eval, digit]
    rfl
  numbered r := ⟨_, numbers_assignment parsed.root.nodup_names r⟩
  cells_eq r values cells hrow numbers := by
    obtain ⟨-, rfl⟩ := getElem?_rows.mp hrow
    exact row_eq_of_numbers parts (numbers_assignment parsed.root.nodup_names r) numbers
  no_errors cells mem cell hcell := by
    obtain ⟨r, hrow⟩ := List.mem_iff_getElem?.mp mem
    obtain ⟨-, rfl⟩ := getElem?_rows.mp hrow
    obtain ⟨column, hcolumn, rfl⟩ := List.mem_map.mp hcell
    have numbers := numbers_assignment parsed.root.nodup_names r
    exact ⟨_, Formula.eval_of_covers (numbers.covers (occurrences_of_mem_columnsOf parts hcolumn))⟩
  last_column := getLast?_columnsOf mode parsed
  row_of values covers := by
    obtain ⟨r, small, numbers⟩ := exists_numbers covers
    refine ⟨r, row (columnsOf mode parsed) values, getElem?_rows.mpr ⟨small, ?_⟩, numbers, ?_, ?_⟩
    · exact row_eq_of_numbers parts numbers (numbers_assignment parsed.root.nodup_names r)
    · have last := getLast?_columnsOf mode parsed
      obtain ⟨column, hcolumn, same⟩ := Option.map_eq_some_iff.mp last
      rw [row, List.getLast?_map, hcolumn, Option.map_some, same]
    · exact fun other small' numbers' => numbers'.row_unique numbers small' small

/-- A text that is a formula has a table just if it has a variable and no more than the limit. The
two ways to have none are told apart, and the table is that of the formula. -/
theorem ofText_tabulates {text : List Char} {parsed : Parsed} (params : TableParams)
    (h : Parsed.ofText text = .ok parsed) :
    let n := parsed.root.names.length
    let limit := min params.maxVariables 16
    (parsed.root.names.Nodup ∧ ∀ v, v ∈ parsed.root.names ↔ v ∈ parsed.root.occurrences) ∧
    ((∃ table, ofText text params = .ok table) ↔ 1 ≤ n ∧ n ≤ limit) ∧
    (n = 0 → ofText text params = .error .noVariables) ∧
    (n ≠ 0 → limit < n → ofText text params = .error (.tooManyVariables n limit)) ∧
    ∀ table, ofText text params = .ok table → table.Tabulates parsed.root := by
  intro n limit
  have read : ofText text params = if n = 0 then .error .noVariables
      else if limit < n then .error (.tooManyVariables n limit)
      else .ok (tableOf params.groups parsed) := by
    rw [ofText, h]
    exact ofParsed_eq parsed params
  have parts := fun g => Parsed.occurrences_of_mem_groups (g := g) h
  refine ⟨⟨parsed.root.nodup_names, fun v => Formula.mem_names⟩, ?_⟩
  by_cases empty : n = 0
  · rw [if_pos empty] at read
    rw [read]
    refine ⟨⟨?_, by omega⟩, fun _ => rfl, fun filled => absurd empty filled, ?_⟩ <;> simp
  · rw [if_neg empty] at read
    by_cases many : limit < n
    · rw [if_pos many] at read
      rw [read]
      refine ⟨⟨?_, by omega⟩, fun none => absurd none empty, fun _ _ => rfl, ?_⟩ <;> simp
    · rw [if_neg many] at read
      rw [read]
      refine ⟨⟨fun _ => by omega, fun _ => ⟨_, rfl⟩⟩, fun none => absurd none empty,
        fun _ more => absurd more many, ?_⟩
      rintro table made
      obtain rfl := Except.ok.inj made
      exact tabulates_tableOf parts

theorem ofText_tabulates_implication :
    (∃ table, ofText ['B', '-', '>', '(', 'A', '|', 'B', ')'] {} = .ok table ∧
      table.Tabulates (.binary .implies (.var 'B') (.binary .or (.var 'A') (.var 'B')))) ∧
    ofText ['B', '-', '>', '(', 'A', '|', 'B', ')'] ⟨.all, 1⟩ = .error (.tooManyVariables 2 1) := by
  let group : Formula := .binary .or (.var 'A') (.var 'B')
  have read : Parsed.ofText ['B', '-', '>', '(', 'A', '|', 'B', ')'] =
      .ok ⟨.binary .implies (.var 'B') group,
        [⟨.var 'B', ['B'], 1⟩, ⟨.op (.binary .implies), ['-', '>'], 2⟩, ⟨.opening, ['('], 4⟩,
          ⟨.var 'A', ['A'], 5⟩, ⟨.op (.binary .or), ['|'], 6⟩, ⟨.var 'B', ['B'], 7⟩,
          ⟨.closing, [')'], 8⟩],
        [⟨group, 3, 6, 0⟩]⟩ := by decide +kernel
  obtain ⟨-, succeeds, -, -, tables⟩ := ofText_tabulates {} read
  obtain ⟨-, -, -, refused, -⟩ := ofText_tabulates ⟨.all, 1⟩ read
  obtain ⟨table, made⟩ := succeeds.mpr (by decide)
  exact ⟨⟨table, made, tables table made⟩, refused (by decide) (by decide)⟩

end TruthTable

end Sentential
