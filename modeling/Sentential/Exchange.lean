import Sentential.Json
import Sentential.Proof
import Sentential.TruthTable

/-!
# Exchange

The JSON forms of what users send and receive. A record is an object, in which unknown fields are
passed over and no known field may occur twice, or an array of its fields in their order. A value of
the wrong shape is told apart from one of the right shape that the library itself refuses.
-/

namespace Sentential

inductive ReadError
  | shape
  | refused (e : ProofError)
  deriving DecidableEq, Repr

namespace Json

def fields? (names : List String) : Json → Option (List (Option Json))
  | .array items =>
    if items.length ≤ names.length then some ((List.range names.length).map fun i => items[i]?)
    else none
  | .object fields =>
    if fields.all (·.1.isSome) && names.all (fun n => (fields.filter (·.1 == some n)).length ≤ 1)
    then some (names.map fun n => fields.lookup (some n))
    else none
  | _ => none

end Json

/-- A mode is a string, or an object whose only key is the mode and whose value is null. -/
def GroupColumns.ofJson? (value : Json) : Option GroupColumns :=
  let name? :=
    match value with
    | .string name => name
    | .object [(name, .null)] => name
    | _ => none
  if name? = some "ALL" then some .all
  else if name? = some "OUTERMOST" then some .outermost
  else none

/-- A number of variables is written in digits alone and fits 64 bits. -/
def TableParams.count? : Json → Option Nat
  | .number n => n.natural?.filter (· < UInt64.size)
  | _ => none

def TableParams.ofJson? (value : Json) : Option TableParams := do
  let [groups, maxVariables] ← value.fields? ["subformulas", "maxVariables"] | none
  let standard : TableParams := {}
  return {
    groups := ← (groups.map GroupColumns.ofJson?).getD (some standard.groups)
    maxVariables := ← (maxVariables.map TableParams.count?).getD (some standard.maxVariables) }

def Proof.targetOfJson? (value : Json) : Option (Option String) := do
  let [target] ← value.fields? ["target"] | none
  match target with
  | none | some .null => return none
  | some target => return some (← target.string?)

def Step.ofJson? (value : Json) : Option Step := do
  let [some formula, some ruleApplied] ← value.fields? ["formula", "ruleApplied"] | none
  return ⟨← formula.string?, ← ruleApplied.string?⟩

def ProofRecord.ofJson? (value : Json) : Option ProofRecord := do
  let [some (.array steps), some target, some sealHex] ←
    value.fields? ["steps", "target", "seal"] | none
  return ⟨← steps.mapM Step.ofJson?, ← target.string?, ← sealHex.string?⟩

def Proof.ofJson (value : Json) : Except ReadError Proof :=
  match ProofRecord.ofJson? value with
  | none => .error .shape
  | some r =>
    match Proof.ofRecord r with
    | .error e => .error (.refused e)
    | .ok p => .ok p

namespace Move

/-- A move is kept until its type is known; this many arrays and objects may lie within each
other. -/
def maxNesting : Nat := 127

def readRule (value : Json) : Except ReadError Rule :=
  match value.string? with
  | none => .error .shape
  | some name =>
    match Rule.ofName name with
    | .error e => .error (.refused e)
    | .ok rule => .ok rule

def readText (value : Json) : Except ReadError String :=
  match value.string? with
  | none => .error .shape
  | some text => .ok text

/-- The fields of an application are read as they come, so the first fault is the answer; that one
is missing shows only at the end. -/
def readApply (rule? : Option Rule) (text? : Option String) :
    List (Option String × Json) → Except ReadError Move
  | [] =>
    match rule?, text? with
    | some rule, some text => .ok (.apply rule text)
    | _, _ => .error .shape
  | (key, value) :: fields =>
    if key = some "rule" then
      if rule?.isSome then .error .shape
      else do readApply (some (← readRule value)) text? fields
    else if key = some "formula" then
      if text?.isSome then .error .shape
      else do readApply rule? (some (← readText value)) fields
    else readApply rule? text? fields

def ofFields (fields : List (Option String × Json)) : Except ReadError Move :=
  let (types, others) := fields.partition fun f => f.1 == some "type"
  match types with
  | [(_, type)] =>
    if type.string? = some "apply" then readApply none none others
    else if type.string? = some "undo" then .ok .undo
    else .error .shape
  | _ => .error .shape

def ofItems (type : Json) (items : List Json) : Except ReadError Move :=
  if type.string? = some "apply" then
    match items with
    | [] => .error .shape
    | rule :: items => do
      let rule ← readRule rule
      match items with
      | [text] => return .apply rule (← readText text)
      | _ => throw .shape
  else if type.string? = some "undo" && items.isEmpty then .ok .undo
  else .error .shape

def ofJson (value : Json) : Except ReadError Move :=
  if value.isKeepable maxNesting then
    match value with
    | .object fields => ofFields fields
    | .array (type :: items) => ofItems type items
    | _ => .error .shape
  else .error .shape

end Move

def Step.toJson (s : Step) : Json :=
  .record [("formula", .text s.formula), ("ruleApplied", .text s.ruleApplied)]

def ProofRecord.toJson (r : ProofRecord) : Json :=
  .record [("steps", .array (r.steps.map Step.toJson)), ("target", .text r.target),
    ("seal", .text r.sealHex)]

def Proof.toJson (p : Proof) : Json := p.record.toJson

def Verdict.toJson (v : Verdict) : Json :=
  .record [("closed", .bool v.closed), ("msg", .text v.message)]

def Rule.toJson (rule : Rule) : Json :=
  .record [("value", .text rule.name), ("label", .text rule.label),
    ("laws", .array (rule.laws.map fun law => .text (toString law)))]

def Rule.catalogue : Json := .array (Rule.all.map Rule.toJson)

def TruthTable.toJson (table : TruthTable) : Json :=
  .record [("headers", .array (table.headers.map Json.text)),
    ("rows", .array (table.rows.map fun cells =>
      .record (table.headers.zip (cells.map fun cell => .text (Cell.text cell)))))]

end Sentential
