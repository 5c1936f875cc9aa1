import Sentential.Valuation
import Sentential.Formula.Printer
import Sentential.Parser

/-!
# Truth tables

A column for each variable, one for each parenthesised group that is worth showing, and one for the
whole formula; a row for each assignment to the variables, in the order of binary counting. A column
is known by its formula, its header is for the reader.
-/

namespace Sentential

inductive GroupColumns
  | all
  | outermost
  deriving DecidableEq, Repr

/-- A table has `2 ^ n` rows, so no request may ask for more variables. -/
def tableCeiling : Nat := 16

structure TableParams where
  groups : GroupColumns := .all
  maxVariables : Nat := 12
  deriving DecidableEq, Repr

def TableParams.limit (params : TableParams) : Nat := min params.maxVariables tableCeiling

inductive TableError
  | malformed (e : SyntaxError)
  | noVariables
  | tooManyVariables (found limit : Nat)
  deriving DecidableEq, Repr

def TableError.message : TableError → String
  | .malformed e => e.message
  | .noVariables => "The formula contains no variables"
  | .tooManyVariables found limit =>
    s!"The formula has {found} variables, at most {limit} are supported"

structure Column where
  header : String
  formula : Formula
  deriving DecidableEq, Repr

/-- A cell whose column cannot be evaluated holds the error and leaves the other cells alone. -/
abbrev Cell := Except EvalError Bool

def Cell.text : Cell → String
  | .ok true => "1"
  | .ok false => "0"
  | .error _ => "Error"

structure TruthTable where
  names : List Char
  columns : List Column
  rows : List (List Cell)

def GroupColumns.shows : GroupColumns → Group → Bool
  | .all, _ => true
  | .outermost, g => g.depth == 0

namespace TruthTable

/-- Atoms, the whole formula and what has a column already get no column. -/
def addGroup (root : Formula) (columns : List Column) (g : Group) : List Column :=
  if g.formula.isAtom || g.formula == root || columns.any (·.formula == g.formula) then columns
  else columns ++ [⟨toString g.formula, g.formula⟩]

def nameColumns (names : List Char) : List Column :=
  names.map fun v => ⟨String.singleton v, .var v⟩

def columnsOf (groups : GroupColumns) (parsed : Parsed) : List Column :=
  (parsed.groups.filter groups.shows).foldl (addGroup parsed.root)
      (nameColumns parsed.root.names) ++
    [⟨String.ofList (Token.render parsed.tokens), parsed.root⟩]

/-- The row's number in binary, the first variable taking the most significant digit. -/
def assignment (names : List Char) (row : Nat) : List (Char × Bool) :=
  names.zipIdx.map fun (v, i) => (v, row.testBit (names.length - 1 - i))

def row (columns : List Column) (values : Valuation) : List Cell :=
  columns.map fun c => c.formula.eval values

def ofParsed (parsed : Parsed) (params : TableParams) : Except TableError TruthTable :=
  let names := parsed.root.names
  let columns := columnsOf params.groups parsed
  if names.isEmpty then .error .noVariables
  else if params.limit < names.length then
    .error (.tooManyVariables names.length params.limit)
  else
    .ok {
      names
      columns
      rows := (List.range (1 <<< names.length)).map fun r =>
        row columns (.ofList (assignment names r)) }

def ofText (text : List Char) (params : TableParams) : Except TableError TruthTable :=
  match Parsed.ofText text with
  | .error e => .error (.malformed e)
  | .ok parsed => ofParsed parsed params

def headers (table : TruthTable) : List String := table.columns.map Column.header

/-- Of several columns with one header the first counts. -/
def cell? (table : TruthTable) (row : Nat) (header : String) : Option Cell := do
  let column ← table.columns.findIdx? (·.header == header)
  (← table.rows[row]?)[column]?

def results (table : TruthTable) : List Cell := table.rows.filterMap List.getLast?

end TruthTable

end Sentential
