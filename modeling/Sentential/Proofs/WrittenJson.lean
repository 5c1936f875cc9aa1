import Sentential.Json.Reader
import Sentential.Json.Writer

/-!
# Written JSON is read back

A value of texts, arrays and records is read back from its compact form, whatever characters the
texts have and whatever follows. One lemma for each way to build a value; the reader's bound only
has to be twice the number of characters.
-/

namespace Sentential.Json

-- ---------------------------------------------------------------------------
-- Texts
-- ---------------------------------------------------------------------------

theorem toList_foldl_push (out : String) (cs : List Char) :
    (cs.foldl String.push out).toList = out.toList ++ cs := by
  induction cs generalizing out with
  | nil => simp
  | cons c cs ih => simp [ih]

theorem toList_foldl_escape (out : String) (cs : List Char) :
    (cs.foldl (fun out c => (escape c).foldl String.push out) out).toList =
      out.toList ++ cs.flatMap escape := by
  induction cs generalizing out with
  | nil => simp
  | cons c cs ih => simp [ih, toList_foldl_push]

def quoteTail (s : String) : List Char := s.toList.flatMap escape ++ ['"']

@[simp] theorem toList_quoteOn (out s : String) :
    (quoteOn out s).toList = out.toList ++ '"' :: quoteTail s := by
  simp [quoteOn, quoteTail, toList_foldl_escape]

theorem hexValue?_hexDigit {d : Nat} (h : d < 16) : hexValue? (hexDigit d) = some d := by
  have all : ∀ d : Fin 16, hexValue? (hexDigit d) = some d.val := by decide
  exact all ⟨d, h⟩

theorem Unit16.ofNat_toNat {c : Char} (h : c.toNat < 32) : ofNat c.toNat = .char c := by
  have noHalf : ¬ 0xD800 ≤ c.toNat ∧ ¬ 0xDC00 ≤ c.toNat := by omega
  simp [ofNat, noHalf]

theorem readEscape?_control {c : Char} (h : c.toNat < 32) (rest : List Char) :
    readEscape? ('u' :: '0' :: '0' :: hexDigit (c.toNat / 16) :: hexDigit (c.toNat % 16) :: rest) =
      some (.char c, rest) := by
  have zero : hexValue? '0' = some 0 := rfl
  have high := hexValue?_hexDigit (d := c.toNat / 16) (by omega)
  have low := hexValue?_hexDigit (d := c.toNat % 16) (by omega)
  have value : ((0 * 16 + 0) * 16 + c.toNat / 16) * 16 + c.toNat % 16 = c.toNat := by omega
  simp only [readEscape?, zero, high, low, Option.bind_eq_bind, Option.bind_some, value,
    Unit16.ofNat_toNat h]
  rfl

theorem readUnits?_escape (bound : Nat) (read : List Unit16) (c : Char) (rest : List Char) :
    readUnits? (bound + 1) read (escape c ++ rest) = readUnits? bound (.char c :: read) rest := by
  unfold escape
  split
  case h_8 =>
    split
    next control => simp [readUnits?, readEscape?_control control]
    next plain => simp [readUnits?, plain]
  all_goals rfl

theorem readUnits?_quoteTail (cs : List Char) {bound : Nat} (h : cs.length < bound)
    (read : List Unit16) (rest : List Char) :
    readUnits? bound read (cs.flatMap escape ++ '"' :: rest) =
      some (read.reverse ++ cs.map .char, rest) := by
  induction cs generalizing bound read with
  | nil =>
    obtain ⟨n, rfl⟩ := Nat.exists_eq_add_one.mpr h
    simp [readUnits?]
  | cons c cs ih =>
    rw [List.length_cons] at h
    obtain ⟨n, rfl⟩ := Nat.exists_eq_add_one.mpr (Nat.zero_lt_of_lt h)
    rw [List.flatMap_cons, List.append_assoc, readUnits?_escape, ih (by omega)]
    simp

theorem textOf?_map_char (read cs : List Char) :
    textOf? read (cs.map .char) = some (read.reverse ++ cs) := by
  induction cs generalizing read with
  | nil => simp [textOf?]
  | cons c cs ih => simp [textOf?, ih]

theorem length_le_flatMap_escape (cs : List Char) : cs.length ≤ (cs.flatMap escape).length := by
  induction cs with
  | nil => simp
  | cons c cs ih =>
    have own : 1 ≤ (escape c).length := by
      unfold escape
      split
      case h_8 => split <;> simp
      all_goals simp
    rw [List.flatMap_cons, List.length_append, List.length_cons]
    omega

theorem readString?_quoteTail (s : String) (rest : List Char) :
    readString? (quoteTail s ++ rest) = some (some s, rest) := by
  have room : s.toList.length < (s.toList.flatMap escape ++ '"' :: rest).length + 1 := by
    have := length_le_flatMap_escape s.toList
    rw [List.length_append]
    omega
  rw [readString?, quoteTail, List.append_assoc, List.singleton_append,
    readUnits?_quoteTail _ room]
  simp [textOf?_map_char]

-- ---------------------------------------------------------------------------
-- Values
-- ---------------------------------------------------------------------------

def chars (value : Json) : List Char := (write value).toList

def opens (c : Char) : Bool := !(c == ' ' || c == '\n' || c == '\t' || c == '\r') && c != ']'

theorem skipBlanks_of_opens {c : Char} (h : opens c = true) (rest : List Char) :
    skipBlanks (c :: rest) = c :: rest := by
  refine List.dropWhile_cons_of_neg ?_
  rw [opens, Bool.and_eq_true, Bool.not_eq_true'] at h
  simp [h.1]

/-- The value is written alike behind any text, and is read back whatever follows. -/
structure ReadsBack (value : Json) : Prop where
  written (out : String) : (writeOn out value).toList = out.toList ++ chars value
  begins : ∃ c rest, chars value = c :: rest ∧ opens c = true
  read (bound : Nat) (rest : List Char) : 2 * (chars value).length ≤ bound →
    readValue? bound (chars value ++ rest) = some (value, rest)

theorem chars_text (s : String) : chars (text s) = '"' :: quoteTail s := by
  simp [chars, write, text, writeOn]

theorem readsBack_text (s : String) : (text s).ReadsBack where
  written out := by rw [chars_text, text, writeOn, Option.getD_some, toList_quoteOn]
  begins := ⟨'"', quoteTail s, chars_text s, rfl⟩
  read bound rest room := by
    rw [chars_text] at room ⊢
    obtain ⟨n, rfl⟩ : ∃ n, bound = n + 1 := Nat.exists_eq_add_one.mpr (by simp at room; omega)
    rw [List.cons_append, readValue?, skipBlanks_of_opens rfl]
    simp [readString?_quoteTail, text]

-- ---------------------------------------------------------------------------
-- Arrays
-- ---------------------------------------------------------------------------

section Arrays

variable {items : List Json}

def itemChars (items : List Json) : List Char := [','].intercalate (items.map chars)

theorem toList_writeItemsOn (h : ∀ item ∈ items, item.ReadsBack) (out : String) :
    (writeItemsOn out items).toList = out.toList ++ itemChars items := by
  induction items generalizing out with
  | nil => simp [writeItemsOn, itemChars]
  | cons item items ih =>
    obtain ⟨own, others⟩ := List.forall_mem_cons.mp h
    cases items with
    | nil => simpa [writeItemsOn, itemChars] using own.written out
    | cons next items =>
      have step : writeItemsOn out (item :: next :: items) =
        writeItemsOn ((writeOn out item).push ',') (next :: items) := rfl
      rw [step, ih others]
      simp [itemChars, own.written out]

theorem readItems?_itemChars (h : ∀ item ∈ items, item.ReadsBack) (filled : items ≠ [])
    {bound : Nat} (room : 2 * (itemChars items).length + 1 ≤ bound) (rest : List Char) :
    readItems? bound (itemChars items ++ ']' :: rest) = some (items, rest) := by
  obtain ⟨bound, rfl⟩ : ∃ n, bound = n + 1 := Nat.exists_eq_add_one.mpr (by omega)
  induction items generalizing bound with
  | nil => exact absurd rfl filled
  | cons item items ih =>
    obtain ⟨own, others⟩ := List.forall_mem_cons.mp h
    cases items with
    | nil =>
      have alone : itemChars [item] = chars item := by simp [itemChars]
      rw [alone] at room ⊢
      rw [readItems?, own.read bound _ (by omega)]
      rfl
    | cons next items =>
      have parts : itemChars (item :: next :: items) =
          chars item ++ ',' :: itemChars (next :: items) := by
        simp [itemChars]
      rw [parts] at room ⊢
      rw [List.length_append, List.length_cons] at room
      obtain ⟨bound, rfl⟩ : ∃ n, bound = n + 1 := Nat.exists_eq_add_one.mpr (by omega)
      have later := ih others (by simp) bound (by omega)
      rw [List.append_assoc, readItems?, own.read _ _ (by omega), List.cons_append]
      simp only [skipBlanks_of_opens (c := ',') rfl, later, Option.map_some]

theorem itemChars_begins {item : Json} (h : item.ReadsBack) (items : List Json) :
    ∃ c rest, itemChars (item :: items) = c :: rest ∧ opens c = true := by
  obtain ⟨c, rest, eq, opening⟩ := h.begins
  cases items with
  | nil => exact ⟨c, rest, by simp [itemChars, eq], opening⟩
  | cons next items =>
    exact ⟨c, rest ++ ',' :: itemChars (next :: items), by simp [itemChars, eq], opening⟩

theorem readsBack_array (h : ∀ item ∈ items, item.ReadsBack) : (array items).ReadsBack := by
  have shape : chars (array items) = '[' :: (itemChars items ++ [']']) := by
    simp [chars, write, writeOn, toList_writeItemsOn h]
  refine ⟨fun out => ?_, ⟨'[', _, shape, rfl⟩, fun bound rest room => ?_⟩
  · rw [writeOn, shape]
    simp [toList_writeItemsOn h]
  · rw [shape] at room ⊢
    simp only [List.length_cons, List.length_append] at room
    obtain ⟨n, rfl⟩ : ∃ n, bound = n + 1 := Nat.exists_eq_add_one.mpr (by omega)
    rw [List.cons_append, List.append_assoc, List.singleton_append, readValue?,
      skipBlanks_of_opens rfl]
    cases items with
    | nil => rfl
    | cons item items =>
      have later : readItems? n _ = _ := readItems?_itemChars h (by simp) (by omega) rest
      obtain ⟨c, tail, eq, opening⟩ := itemChars_begins (h item (by simp)) items
      have unclosed : c ≠ ']' := by
        rintro rfl
        simp [opens] at opening
      rw [eq, List.cons_append] at later ⊢
      simp only [skipBlanks_of_opens opening]
      split
      next closing => exact absurd (List.cons.inj closing).1 unclosed
      next => rw [later, Option.map_some]

end Arrays

-- ---------------------------------------------------------------------------
-- Records
-- ---------------------------------------------------------------------------

section Records

variable {fields : List (String × Json)}

def fieldChars (field : String × Json) : List Char :=
  '"' :: (quoteTail field.1 ++ ':' :: chars field.2)

def recordChars (fields : List (String × Json)) : List Char :=
  [','].intercalate (fields.map fieldChars)

theorem toList_writeFieldsOn (h : ∀ field ∈ fields, field.2.ReadsBack) (out : String) :
    (writeFieldsOn out (fields.map fun f => (some f.1, f.2))).toList =
      out.toList ++ recordChars fields := by
  induction fields generalizing out with
  | nil => simp [writeFieldsOn, recordChars]
  | cons field fields ih =>
    obtain ⟨own, others⟩ := List.forall_mem_cons.mp h
    cases fields with
    | nil => simp [writeFieldsOn, recordChars, fieldChars, own.written]
    | cons next fields =>
      have step : writeFieldsOn out ((field :: next :: fields).map fun f => (some f.1, f.2)) =
        writeFieldsOn ((writeOn ((quoteOn out field.1).push ':') field.2).push ',')
          ((next :: fields).map fun f => (some f.1, f.2)) := rfl
      rw [step, ih others]
      simp [recordChars, fieldChars, own.written]

def readOn? (bound : Nat) (field : String × Json) :
    List Char → Option (List (Option String × Json) × List Char)
  | ',' :: rest => (readFields? bound rest).map fun (fields, rest) =>
    ((some field.1, field.2) :: fields, rest)
  | '\x7d' :: rest => some ([(some field.1, field.2)], rest)
  | _ => none

theorem readFields?_fieldChars {field : String × Json} (own : field.2.ReadsBack) {bound : Nat}
    (room : 2 * (fieldChars field).length ≤ bound) (rest : List Char) :
    readFields? (bound + 1) (fieldChars field ++ rest) =
      readOn? bound field (skipBlanks rest) := by
  simp only [fieldChars, List.length_append, List.length_cons] at room
  have value := own.read bound rest (by omega)
  rw [fieldChars, List.cons_append, List.append_assoc, List.cons_append, readFields?,
    skipBlanks_of_opens rfl]
  simp only [readString?_quoteTail, skipBlanks_of_opens (c := ':') rfl, value]
  rfl

theorem readFields?_recordChars (h : ∀ field ∈ fields, field.2.ReadsBack) (filled : fields ≠ [])
    {bound : Nat} (room : 2 * (recordChars fields).length + 1 ≤ bound) (rest : List Char) :
    readFields? bound (recordChars fields ++ '\x7d' :: rest) =
      some (fields.map fun f => (some f.1, f.2), rest) := by
  obtain ⟨bound, rfl⟩ : ∃ n, bound = n + 1 := Nat.exists_eq_add_one.mpr (by omega)
  induction fields generalizing bound with
  | nil => exact absurd rfl filled
  | cons field fields ih =>
    obtain ⟨own, others⟩ := List.forall_mem_cons.mp h
    cases fields with
    | nil =>
      have alone : recordChars [field] = fieldChars field := by simp [recordChars]
      rw [alone] at room ⊢
      rw [readFields?_fieldChars own (by omega), skipBlanks_of_opens rfl]
      rfl
    | cons next fields =>
      have parts : recordChars (field :: next :: fields) =
          fieldChars field ++ ',' :: recordChars (next :: fields) := by
        simp [recordChars]
      rw [parts] at room ⊢
      rw [List.length_append, List.length_cons] at room
      obtain ⟨bound, rfl⟩ : ∃ n, bound = n + 1 := Nat.exists_eq_add_one.mpr (by omega)
      have later := ih others (by simp) bound (by omega)
      rw [List.append_assoc, readFields?_fieldChars own (by omega), List.cons_append,
        skipBlanks_of_opens rfl, readOn?, later]
      rfl

theorem readsBack_record (h : ∀ field ∈ fields, field.2.ReadsBack) : (record fields).ReadsBack := by
  have shape : chars (record fields) = '\x7b' :: (recordChars fields ++ ['\x7d']) := by
    simp [chars, write, record, writeOn, toList_writeFieldsOn h]
  refine ⟨fun out => ?_, ⟨'\x7b', _, shape, rfl⟩, fun bound rest room => ?_⟩
  · rw [shape, record, writeOn]
    simp [toList_writeFieldsOn h]
  · rw [shape] at room ⊢
    simp only [List.length_cons, List.length_append] at room
    obtain ⟨n, rfl⟩ : ∃ n, bound = n + 1 := Nat.exists_eq_add_one.mpr (by omega)
    rw [List.cons_append, List.append_assoc, List.singleton_append, readValue?,
      skipBlanks_of_opens rfl]
    cases fields with
    | nil => rfl
    | cons field fields =>
      have later : readFields? n _ = _ := readFields?_recordChars h (by simp) (by omega) rest
      obtain ⟨tail, eq⟩ : ∃ tail, recordChars (field :: fields) = '"' :: tail := by
        cases fields <;> simp [recordChars, fieldChars]
      rw [eq, List.cons_append] at later ⊢
      simp only [skipBlanks_of_opens (c := '"') rfl, later]
      rfl

end Records

theorem ReadsBack.readFirst?_write {value : Json} (h : value.ReadsBack) :
    readFirst? (write value).toList = some (value, []) := by
  have read := h.read (2 * (chars value).length + 2) [] (by omega)
  rwa [List.append_nil] at read

end Sentential.Json
