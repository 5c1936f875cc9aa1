import Sentential.Exchange
import Sentential.Json.Reader
import Sentential.Json.Writer
import Sentential.Respelling

/-!
# Service

The routes that the library answers. A request carries a form; an answer is JSON or a short text. A
request that cannot be read is turned away without a word, one that the library refuses is turned
away with the library's own message.
-/

namespace Sentential

abbrev Form := List (String × String)

structure Request where
  method : String
  path : String
  form : Option Form
  deriving DecidableEq, Repr

structure Response where
  status : Nat
  body : Option String
  deriving DecidableEq, Repr

inductive Refusal
  | unreadable
  | refused (message : String)
  deriving DecidableEq, Repr

def Refusal.body : Refusal → Option String
  | .unreadable => none
  | .refused message => some message

namespace Form

def optional (form : Form) (name : String) : Except Refusal (Option String) :=
  match form.filter (·.1 == name) with
  | [] => .ok none
  | [(_, value)] => .ok (some value)
  | _ => .error .unreadable

def required (form : Form) (name : String) : Except Refusal String := do
  match ← form.optional name with
  | some value => return value
  | none => throw .unreadable

end Form

namespace Service

/-- Reads a value from a JSON text. That the library refuses the value shows before text that
trails behind it. -/
def readJson {α : Type} (read : Json → Except ReadError α) (text : String) : Except Refusal α :=
  match Json.readFirst? text.toList with
  | none => .error .unreadable
  | some (value, rest) =>
    match read value with
    | .error .shape => .error .unreadable
    | .error (.refused e) => .error (.refused e.message)
    | .ok a => if Json.isSpent rest then .ok a else .error .unreadable

def orShape {α : Type} : Option α → Except ReadError α
  | some a => .ok a
  | none => .error .shape

def refuse {α : Type} (result : Except ProofError α) : Except Refusal α :=
  result.mapError fun e => .refused e.message

def validation (text : List Char) : Json :=
  match Parsed.ofText text with
  | .ok _ => .record [("valid", .bool true)]
  | .error e => .record [("valid", .bool false), ("message", .text e.message)]

def validate (form : Form) : Except Refusal Json := do
  return validation (← form.required "formula").toList

def normalize (form : Form) : Except Refusal Json := do
  return .text (String.ofList (respellInWords (← form.required "formula").toList))

def display (form : Form) : Except Refusal Json := do
  return .text (String.ofList (respellInGlyphs (← form.required "formula").toList))

def truthTable (form : Form) : Except Refusal Json := do
  let formula ← form.required "formula"
  let params ←
    match ← form.optional "params" with
    | some text => readJson (orShape ∘ TableParams.ofJson?) text
    | none => pure {}
  match TruthTable.ofText formula.toList params with
  | .ok table => return table.toJson
  | .error e => throw (.refused e.message)

def checkRule (form : Form) : Except Refusal Json := do
  let source ← form.required "from"
  let target ← form.required "to"
  let name ← form.required "rule"
  return .bool (← refuse (Rule.checkTexts name source target))

def startProof (form : Form) : Except Refusal Json := do
  let formula ← form.required "formula"
  let target? ←
    match ← form.optional "params" with
    | some text => readJson (orShape ∘ Proof.targetOfJson?) text
    | none => pure none
  return (← refuse (Proof.start formula target?)).toJson

def validateProof (form : Form) : Except Refusal Json := do
  let p ← readJson Proof.ofJson (← form.required "state")
  return .bool p.isValid

def moveProof (form : Form) : Except Refusal Json := do
  let state ← form.required "state"
  let move ← form.required "move"
  let p ← readJson Proof.ofJson state
  let m ← readJson Move.ofJson move
  return (← refuse (p.move m)).toJson

def closeProof (form : Form) : Except Refusal Json := do
  let p ← readJson Proof.ofJson (← form.required "state")
  return p.verdict.toJson

def pages : List (String × String) :=
  [("/", "proplab API Server\n\nAvailable endpoints:\n" ++
      "/validate /normalize /display /truth-table\n/rules /check-rule\n" ++
      "/equivalence (parse, move, close, validate)"),
    ("/rules", Json.write Rule.catalogue),
    ("/equivalence", "Calculus equivalence loaded.\n" ++
      "Interact via the /parse /move /close and /validate endpoints")]

def actions : List (String × (Form → Except Refusal Json)) :=
  [("/validate", validate), ("/normalize", normalize), ("/display", display),
    ("/truth-table", truthTable), ("/check-rule", checkRule),
    ("/equivalence/parse", startProof), ("/equivalence/validate", validateProof),
    ("/equivalence/move", moveProof), ("/equivalence/close", closeProof)]

def notFound : Response := ⟨404, none⟩

def get (path : String) : Response :=
  match pages.lookup path with
  | some page => ⟨200, some page⟩
  | none => notFound

def post (path : String) (form : Option Form) : Response :=
  match actions.lookup path with
  | none => notFound
  | some action =>
    match form with
    | none => ⟨415, none⟩
    | some form =>
      match action form with
      | .ok answer => ⟨200, some (Json.write answer)⟩
      | .error refusal => ⟨400, refusal.body⟩

/-- A query or a fragment behind the path plays no part. -/
def respond (request : Request) : Response :=
  let path := String.ofList (request.path.toList.takeWhile fun c => c ≠ '?' && c ≠ '#')
  if request.method = "GET" then get path
  else if request.method = "POST" then post path request.form
  else notFound

end Service

end Sentential
