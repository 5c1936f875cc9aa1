import Sentential.Exchange
import Sentential.Proofs.Tables
import Sentential.Proofs.WrittenJson

/-!
# Headers

A column is known by its formula and looked up by its header. Three kinds of header are written in
two ways, but each of them spells its column's formula, so columns with one header have one formula.
No formula has two columns, unless it is the whole one and a variable. Its column then is headed by
the text, which is the variable's own header only where nothing but the variable was typed.
-/

namespace Sentential

/-- The header is a text of the column's formula. -/
def Column.Spelled (column : Column) : Prop :=
  Formula.ofText column.header.toList = .ok column.formula

theorem Column.Spelled.formula_eq {column other : Column} (h : column.Spelled) (h' : other.Spelled)
    (same : column.header = other.header) : column.formula = other.formula := by
  have read : Formula.ofText other.header.toList = .ok column.formula := same ▸ h
  exact Except.ok.inj (read.symm.trans h')

/-- Whichever of the fields with the key is kept, it holds the value. -/
def Json.Tells (fields : List (Option String × Json)) (key : String) (value : Json) : Prop :=
  (some key, value) ∈ fields ∧ ∀ other, (some key, other) ∈ fields → other = value

namespace TruthTable

variable {root : Formula} {columns : List Column} {groups : List Group} {mode : GroupColumns}
variable {text : List Char} {parsed : Parsed} {column : Column}

-- ---------------------------------------------------------------------------
-- Headers spell formulas
-- ---------------------------------------------------------------------------

def partColumns (mode : GroupColumns) (parsed : Parsed) : List Column :=
  (parsed.groups.filter mode.shows).foldl (addGroup parsed.root) (nameColumns parsed.root.names)

def wholeColumn (parsed : Parsed) : Column :=
  ⟨String.ofList (Token.render parsed.tokens), parsed.root⟩

theorem columnsOf_eq (mode : GroupColumns) (parsed : Parsed) :
    columnsOf mode parsed = partColumns mode parsed ++ [wholeColumn parsed] := rfl

theorem lettered_root (h : Parsed.ofText text = .ok parsed) :
    parsed.root.Lettered ∧ parsed.root.height ≤ maxDepth := by
  have read : Formula.ofText text = .ok parsed.root := by
    rw [Formula.ofText, h]
    rfl
  exact Formula.lettered_of_ofText read

theorem spelled_print {f : Formula} (lettered : f.Lettered) (low : f.height ≤ maxDepth) :
    Column.Spelled ⟨toString f, f⟩ := by
  have printed : (toString f).toList = f.print := String.toList_ofList
  rw [Column.Spelled, printed]
  exact Formula.ofText_print lettered low

theorem mem_partColumns (h : column ∈ partColumns mode parsed) :
    (∃ v ∈ parsed.root.names, column = ⟨toString (Formula.var v), .var v⟩) ∨
      ∃ g ∈ parsed.groups, g.formula ≠ parsed.root ∧ column = ⟨toString g.formula, g.formula⟩ := by
  rcases mem_foldl_addGroup h with name | ⟨g, mem, new⟩
  · obtain ⟨v, mem, rfl⟩ := List.mem_map.mp name
    exact .inl ⟨v, mem, rfl⟩
  · exact .inr ⟨g, (List.mem_filter.mp mem).1, new⟩

theorem spelled_of_mem_partColumns (h : Parsed.ofText text = .ok parsed)
    (mem : column ∈ partColumns mode parsed) : column.Spelled := by
  obtain ⟨lettered, low⟩ := lettered_root h
  rcases mem_partColumns mem with ⟨v, name, rfl⟩ | ⟨g, group, -, rfl⟩
  · have upper : v.isUpper = true := lettered v (Formula.mem_names.mp name)
    exact spelled_print (List.forall_mem_singleton.mpr upper) (by simp [Formula.height, maxDepth])
  · have part := Parsed.part_of_mem_groups h group
    exact spelled_print (part.lettered lettered) (Nat.le_trans part.height_le low)

theorem spelled_wholeColumn (h : Parsed.ofText text = .ok parsed) :
    (wholeColumn parsed).Spelled := by
  obtain ⟨again, read, root, -⟩ := Parsed.ofText_render h
  rw [Column.Spelled, wholeColumn, String.toList_ofList, Formula.ofText, read, ok_bind, root]
  rfl

theorem spelled_of_mem_columnsOf (h : Parsed.ofText text = .ok parsed)
    (mem : column ∈ columnsOf mode parsed) : column.Spelled := by
  rcases List.mem_append.mp mem with inner | last
  · exact spelled_of_mem_partColumns h inner
  · exact List.mem_singleton.mp last ▸ spelled_wholeColumn h

-- ---------------------------------------------------------------------------
-- Headers differ
-- ---------------------------------------------------------------------------

theorem nodup_addGroup (h : (columns.map Column.formula).Nodup) (g : Group) :
    ((addGroup root columns g).map Column.formula).Nodup := by
  unfold addGroup
  split
  · exact h
  next shown =>
    simp only [Bool.or_eq_true, List.any_eq_true, beq_iff_eq, not_or, not_exists, not_and] at shown
    rw [List.map_append, List.nodup_append]
    refine ⟨h, by simp, fun f hf k hk => ?_⟩
    obtain ⟨column, mem, rfl⟩ := List.mem_map.mp hf
    rw [List.mem_singleton.mp hk]
    exact shown.2 column mem

theorem nodup_foldl_addGroup (h : (columns.map Column.formula).Nodup) :
    ((groups.foldl (addGroup root) columns).map Column.formula).Nodup := by
  induction groups generalizing columns with
  | nil => exact h
  | cons g groups ih => exact ih (nodup_addGroup h g)

theorem nodup_formula_partColumns (mode : GroupColumns) (parsed : Parsed) :
    ((partColumns mode parsed).map Column.formula).Nodup := by
  refine nodup_foldl_addGroup ?_
  rw [nameColumns, List.map_map]
  exact List.pairwise_map.mpr (parsed.root.nodup_names.imp fun distinct same =>
    distinct (Formula.var.inj same))

theorem nodup_header_partColumns (h : Parsed.ofText text = .ok parsed) :
    ((partColumns mode parsed).map Column.header).Nodup := by
  have distinct := List.pairwise_map.mp (nodup_formula_partColumns mode parsed)
  refine List.pairwise_map.mpr (distinct.imp_of_mem fun hc hd other same => other ?_)
  exact (spelled_of_mem_partColumns h hc).formula_eq (spelled_of_mem_partColumns h hd) same

theorem symbols_of_render {p : Phrase} {v : Char} (formula : p.formula = .var v)
    (render : Symbol.render p.symbols = [v]) : p.symbols = [.var v] := by
  cases p with
  | var w => simpa [Phrase.symbols, Phrase.formula] using formula
  | enclosed p => simp [Phrase.symbols, Symbol.render, Symbol.spaced] at render
  | _ => simp [Phrase.formula] at formula

theorem symbols_of_header_mem (h : Parsed.ofText text = .ok parsed)
    (mem : (wholeColumn parsed).header ∈ (partColumns mode parsed).map Column.header) :
    ∃ v, parsed.tokens.map Token.symbol = [.var v] := by
  obtain ⟨column, mem, same⟩ := List.mem_map.mp mem
  have formula : column.formula = parsed.root :=
    (spelled_of_mem_partColumns h mem).formula_eq (spelled_wholeColumn h) same
  rcases mem_partColumns mem with ⟨v, -, rfl⟩ | ⟨g, -, other, rfl⟩
  · obtain ⟨tokens, p, -, derives, -, rfl⟩ := Parsed.ofText_eq_ok.mp h
    have render : Symbol.render p.symbols = [v] := by
      rw [derives.2]
      exact (String.ofList_injective same).symm
    exact ⟨v, derives.2 ▸ symbols_of_render formula.symm render⟩
  · exact absurd formula other

theorem nodup_headers (h : Parsed.ofText text = .ok parsed)
    (more : ∀ v, parsed.tokens.map Token.symbol ≠ [.var v]) :
    ((columnsOf mode parsed).map Column.header).Nodup := by
  rw [columnsOf_eq, List.map_append, List.nodup_append]
  refine ⟨nodup_header_partColumns h, by simp, fun header part last whole => ?_⟩
  rintro rfl
  rw [List.map_singleton, List.mem_singleton] at whole
  obtain ⟨v, alone⟩ := symbols_of_header_mem h (whole ▸ part)
  exact more v alone

theorem headers_of_variable {v : Char} (h : Parsed.ofText text = .ok parsed)
    (alone : parsed.tokens.map Token.symbol = [.var v]) :
    (columnsOf mode parsed).map Column.header = [String.singleton v, String.singleton v] := by
  obtain ⟨tokens, p, -, derives, -, rfl⟩ := Parsed.ofText_eq_ok.mp h
  obtain rfl : p = .var v := Phrase.unambiguous derives.1 trivial (derives.2.trans alone)
  have rendered : Token.render tokens = [v] := by
    rw [Token.render, alone]
    rfl
  simp only [columnsOf, rendered]
  rfl

-- ---------------------------------------------------------------------------
-- Cells by their headers
-- ---------------------------------------------------------------------------

theorem cells_eq {r : Nat} {values : Valuation} (h : Parsed.ofText text = .ok parsed)
    (small : r < 2 ^ parsed.root.names.length) (numbers : Numbers parsed.root.names r values) :
    (tableOf mode parsed).rows[r]? =
      some ((columnsOf mode parsed).map fun column => column.formula.eval values) := by
  have parts := fun g => Parsed.occurrences_of_mem_groups (g := g) h
  refine getElem?_rows.mpr ⟨small, ?_⟩
  exact row_eq_of_numbers parts numbers (numbers_assignment parsed.root.nodup_names r)

/-- The first column with the header has the formula that the header spells, as they all have. -/
theorem cell?_eq {r : Nat} {values : Valuation} (h : Parsed.ofText text = .ok parsed)
    (mem : column ∈ columnsOf mode parsed) (small : r < 2 ^ parsed.root.names.length)
    (numbers : Numbers parsed.root.names r values) :
    (tableOf mode parsed).cell? r column.header = some (column.formula.eval values) := by
  have there : ((columnsOf mode parsed).findIdx? (·.header == column.header)).isSome := by
    rw [List.findIdx?_isSome, List.any_eq_true]
    exact ⟨column, mem, beq_self_eq_true _⟩
  obtain ⟨i, first⟩ := Option.isSome_iff_exists.mp there
  obtain ⟨inside, same, -⟩ := List.findIdx?_eq_some_iff_getElem.mp first
  have formula : (columnsOf mode parsed)[i].formula = column.formula :=
    (spelled_of_mem_columnsOf h (List.getElem_mem inside)).formula_eq
      (spelled_of_mem_columnsOf h mem) (beq_iff_eq.mp same)
  have columns : (tableOf mode parsed).columns = columnsOf mode parsed := rfl
  simp only [cell?, columns, first, cells_eq h small numbers, Option.bind_eq_bind,
    Option.bind_some, List.getElem?_map, List.getElem?_eq_getElem inside, Option.map_some, formula]

-- ---------------------------------------------------------------------------
-- Rows as objects
-- ---------------------------------------------------------------------------

def rowJson (table : TruthTable) (cells : List Cell) : Json :=
  .record (table.headers.zip (cells.map fun cell => .text (Cell.text cell)))

theorem toJson_eq (table : TruthTable) : table.toJson =
    .record [("headers", .array (table.headers.map Json.text)),
      ("rows", .array (table.rows.map table.rowJson))] := rfl

theorem readsBack_rowJson (table : TruthTable) (cells : List Cell) :
    (table.rowJson cells).ReadsBack := by
  refine Json.readsBack_record fun field mem => ?_
  obtain ⟨cell, -, value⟩ := List.mem_map.mp (List.of_mem_zip mem).2
  exact value ▸ Json.readsBack_text _

theorem readsBack_toJson (table : TruthTable) : table.toJson.ReadsBack := by
  have headers : (Json.array (table.headers.map Json.text)).ReadsBack :=
    Json.readsBack_array (List.forall_mem_map.mpr fun header _ => Json.readsBack_text header)
  have rows : (Json.array (table.rows.map table.rowJson)).ReadsBack :=
    Json.readsBack_array (List.forall_mem_map.mpr fun cells _ => table.readsBack_rowJson cells)
  rw [toJson_eq]
  exact Json.readsBack_record (by simp [headers, rows])

def rowFields (columns : List Column) (values : Valuation) : List (Option String × Json) :=
  columns.map fun column => (some column.header, .text (Cell.text (column.formula.eval values)))

theorem rowJson_row (mode : GroupColumns) (parsed : Parsed) (values : Valuation) :
    (tableOf mode parsed).rowJson (row (columnsOf mode parsed) values) =
      .object (rowFields (columnsOf mode parsed) values) := by
  have zipped : (tableOf mode parsed).headers.zip
        ((row (columnsOf mode parsed) values).map fun cell => Json.text (Cell.text cell)) =
      (columnsOf mode parsed).map fun column =>
        (column.header, Json.text (Cell.text (column.formula.eval values))) := by
    rw [row, List.map_map]
    exact List.zip_map'
  rw [rowJson, zipped, Json.record, List.map_map]
  rfl

theorem tells_of_mem (values : Valuation) (h : Parsed.ofText text = .ok parsed)
    (mem : column ∈ columnsOf mode parsed) :
    Json.Tells (rowFields (columnsOf mode parsed) values) column.header
      (.text (Cell.text (column.formula.eval values))) := by
  refine ⟨List.mem_map_of_mem mem, fun value field => ?_⟩
  obtain ⟨other, there, eq⟩ := List.mem_map.mp field
  obtain ⟨header, value⟩ := Prod.mk.inj eq
  have formula : other.formula = column.formula :=
    (spelled_of_mem_columnsOf h there).formula_eq (spelled_of_mem_columnsOf h mem)
      (Option.some.inj header)
  rw [← value, formula]

-- ---------------------------------------------------------------------------
-- Tables
-- ---------------------------------------------------------------------------

/-- Every header of a table is a text of its column's formula. The headers differ, unless the text
is a variable and nothing else: then there are two, both that variable. So to look a cell up by any
header is to evaluate the formula that the header spells, and of a row that is written as an object
and read back no column is lost: whichever field with the header is kept, it holds the column's
cell. -/
theorem headers_tell_columns {params : TableParams} {table : TruthTable}
    (made : ofText text params = .ok table) :
    (∀ column ∈ table.columns, Formula.ofText column.header.toList = .ok column.formula) ∧
    (∃ tokens, Token.ofText text = .ok tokens ∧
      (∀ v, tokens.map Token.symbol = [.var v] →
        table.headers = [String.singleton v, String.singleton v]) ∧
      ((∀ v, tokens.map Token.symbol ≠ [.var v]) → table.headers.Nodup)) ∧
    (∀ row < table.rows.length, ∀ header ∈ table.headers, ∃ f,
      Formula.ofText header.toList = .ok f ∧ ∀ values, Numbers table.names row values →
        ∃ b, f.eval values = .ok b ∧ table.cell? row header = some (.ok b)) ∧
    ∃ objects, Json.readFirst? (Json.write table.toJson).toList =
        some (.record [("headers", .array (table.headers.map Json.text)),
          ("rows", .array objects)], []) ∧
      objects.length = table.rows.length ∧
      ∀ (row : Nat) (cells : List Cell), table.rows[row]? = some cells →
        ∃ fields, objects[row]? = some (.object fields) ∧
          ∀ (i : Nat) (column : Column), table.columns[i]? = some column →
            ∃ cell, cells[i]? = some cell ∧ Json.Tells fields column.header (.text cell.text) := by
  obtain ⟨parsed, read, -, rfl⟩ := ofText_eq_ok.mp made
  have length : (tableOf params.groups parsed).rows.length = 2 ^ parsed.root.names.length := by
    simp [tableOf, Nat.one_shiftLeft]
  refine ⟨fun column mem => spelled_of_mem_columnsOf read mem, ?_, ?_, ?_⟩
  · obtain ⟨tokens, tokenized, accepted⟩ := bind_eq_ok.mp read
    obtain ⟨p, -, -, rfl⟩ := Parsed.ofTokens_eq_ok.mp accepted
    exact ⟨tokens, tokenized, fun v alone => headers_of_variable read alone, nodup_headers read⟩
  · intro row inside header mem
    rw [length] at inside
    obtain ⟨column, there, rfl⟩ := List.mem_map.mp mem
    refine ⟨column.formula, spelled_of_mem_columnsOf read there, fun values numbers => ?_⟩
    have parts := fun g => Parsed.occurrences_of_mem_groups (g := g) read
    have value := Formula.eval_of_covers
      (Numbers.covers numbers (occurrences_of_mem_columnsOf parts there))
    exact ⟨_, value, value ▸ cell?_eq read there inside numbers⟩
  · refine ⟨(tableOf params.groups parsed).rows.map (tableOf params.groups parsed).rowJson,
      (tableOf params.groups parsed).readsBack_toJson.readFirst?_write, List.length_map _, ?_⟩
    intro row cells here
    obtain ⟨small, rfl⟩ := getElem?_rows.mp here
    have object := rowJson_row params.groups parsed (.ofList (assignment parsed.root.names row))
    refine ⟨_, by rw [List.getElem?_map, here, Option.map_some, object], fun i column there => ?_⟩
    have there : (columnsOf params.groups parsed)[i]? = some column := there
    exact ⟨_, by rw [TruthTable.row, List.getElem?_map, there, Option.map_some],
      tells_of_mem _ read (List.mem_of_getElem? there)⟩

theorem headers_tell_columns_negation :
    (∃ table, ofText ['A'] {} = .ok table ∧ table.headers = ["A", "A"]) ∧
    ∃ table, ofText ['~', '(', '~', 'A', ')'] {} = .ok table ∧
      table.headers = ["A", "¬A", "¬(¬A)"] ∧ table.headers.Nodup ∧
      ∃ f, Formula.ofText "¬(¬A)".toList = .ok f ∧ ∀ values, Numbers table.names 1 values →
        ∃ b, f.eval values = .ok b ∧ table.cell? 1 "¬(¬A)" = some (.ok b) := by
  let letter : Token := ⟨.var 'A', ['A'], 1⟩
  let negation : List Token := [⟨.op .not, ['~'], 1⟩, ⟨.opening, ['('], 2⟩, ⟨.op .not, ['~'], 3⟩,
    ⟨.var 'A', ['A'], 4⟩, ⟨.closing, [')'], 5⟩]
  have tokens : Token.ofText ['A'] = .ok [letter] := by decide +kernel
  have tokens' : Token.ofText ['~', '(', '~', 'A', ')'] = .ok negation := by decide +kernel
  have read : Parsed.ofText ['A'] = .ok ⟨.var 'A', [letter], []⟩ := by decide +kernel
  have read' : Parsed.ofText ['~', '(', '~', 'A', ')'] =
      .ok ⟨.not (.not (.var 'A')), negation, [⟨.not (.var 'A'), 2, 4, 0⟩]⟩ := by decide +kernel
  have made : ofText ['A'] {} = _ := ofText_eq_ok.mpr ⟨_, read, by decide, rfl⟩
  have made' : ofText ['~', '(', '~', 'A', ')'] {} = _ :=
    ofText_eq_ok.mpr ⟨_, read', by decide, rfl⟩
  obtain ⟨-, ⟨_, cut, twice, -⟩, -⟩ := headers_tell_columns made
  obtain ⟨-, ⟨_, cut', -, distinct⟩, cells, -⟩ := headers_tell_columns made'
  obtain rfl := Except.ok.inj (tokens.symm.trans cut)
  obtain rfl := Except.ok.inj (tokens'.symm.trans cut')
  refine ⟨⟨_, made, twice 'A' rfl⟩, _, made', by decide, distinct (by simp [negation]), ?_⟩
  exact cells 1 (by decide) _ (by decide)

end TruthTable

end Sentential
