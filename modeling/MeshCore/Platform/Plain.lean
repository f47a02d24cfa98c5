import MeshCore.Platform.Json

/-
  A plain printer and reader of flat objects of texts, as an
  overlay is stored: one setting a line, indented by two.

  Key definitions include:
    * `Plain.escape`, `Plain.readText`
    * `Plain.print`, `Plain.read`
    * `Plain.library`, `Plain.strictLibrary`

  Key facts include:
    * `Plain.readText_escape`
    * `Plain.read_print`
    * `Plain.library_roundTrips`
    * `Plain.strictLibrary_strict`
-/

namespace MeshCore.Platform.Plain

------------------------------------------------------------
-- Strings
------------------------------------------------------------

def hexDigit (n : UInt8) : UInt8 :=
  if n < 10 then 48 + n else 87 + n

def hexValue (digit : UInt8) : UInt8 :=
  if digit < 58 then digit - 48 else digit - 87

/- A byte inside quotes. -/
def escape (b : UInt8) : Bytes :=
  if b = 0x22 ∨ b = 0x5C then [0x5C, b]
  else if b < 0x20 then
    [0x5C, 0x75, 48, 48, hexDigit (b >>> 4),
      hexDigit (b &&& 0x0F)]
  else [b]

/- Up to the closing quote, and what follows it. -/
def readText : Bytes → Option (Bytes × Bytes)
| [] => none
| b :: rest =>
    if b = 0x22 then some ([], rest)
    else if b = 0x5C then
      match rest with
      | [] => none
      | b :: rest =>
          if b = 0x75 then
            match rest with
            | _ :: _ :: high :: low :: rest =>
                (readText rest).map fun (text, rest) =>
                  ((hexValue high <<< 4 ||| hexValue low) ::
                    text, rest)
            | _ => none
          else
            (readText rest).map fun (text, rest) =>
              (b :: text, rest)
    else
      (readText rest).map fun (text, rest) =>
        (b :: text, rest)

theorem hexValue_hexDigit
    {b : UInt8}
    (hLow : b < 0x20) :
    hexValue (hexDigit (b >>> 4)) <<< 4 |||
        hexValue (hexDigit (b &&& 0x0F)) =
      b := by
  have hAll :
      ∀ n < 32,
        hexValue (hexDigit (UInt8.ofNat n >>> 4)) <<< 4 |||
            hexValue (hexDigit (UInt8.ofNat n &&& 0x0F)) =
          UInt8.ofNat n := by
    decide +kernel
  have hHere := hAll b.toNat (UInt8.lt_iff_toNat_lt.mp hLow)
  rwa [UInt8.ofNat_toNat] at hHere

theorem readText_quote (rest : Bytes) :
    readText (0x22 :: rest) = some ([], rest) := by
  rw [readText.eq_def]
  exact if_pos rfl

theorem readText_escape_cons
    (b : UInt8)
    (rest : Bytes) :
    readText (escape b ++ rest) =
      (readText rest).map fun (text, rest) =>
        (b :: text, rest) := by
  unfold escape
  split
  next hQuoted =>
    rcases hQuoted with rfl | rfl
    all_goals
      rw [readText.eq_def]
      exact (if_neg (by decide)).trans (if_pos rfl)
  next hPlain =>
    rw [not_or] at hPlain
    split
    next hLow =>
      rw [readText.eq_def]
      simp [hexValue_hexDigit hLow]
    next =>
      rw [readText.eq_def]
      exact (if_neg hPlain.1).trans (if_neg hPlain.2)

/- A string is read back up to its quote. -/
theorem readText_escape (text rest : Bytes) :
    readText (text.flatMap escape ++ 0x22 :: rest) =
      some (text, rest) := by
  induction text with
  | nil => exact readText_quote rest
  | cons b text ih =>
      rw [List.flatMap_cons, List.append_assoc,
        readText_escape_cons, ih, Option.map_some]

------------------------------------------------------------
-- Objects
------------------------------------------------------------

/- What follows a given beginning. -/
def strip (start input : Bytes) : Option Bytes :=
  if start <+: input then some (input.drop start.length)
  else none

theorem strip_append (start rest : Bytes) :
    strip start (start ++ rest) = some rest := by
  rw [strip, if_pos (List.prefix_append _ _),
    List.drop_left]

def printField (field : Bytes × Bytes) : Bytes :=
  ascii "  \"" ++ field.1.flatMap escape ++ ascii "\": \"" ++
    field.2.flatMap escape ++ ascii "\""

/- The fields of an object that has some, and its end. -/
def printFields (field : Bytes × Bytes) :
    List (Bytes × Bytes) → Bytes
| [] => printField field ++ ascii "\n\x7d"
| next :: rest =>
    printField field ++ ascii ",\n" ++ printFields next rest

def print : List (Bytes × Bytes) → Bytes
| [] => ascii "\x7b\x7d"
| field :: rest => ascii "\x7b\n" ++ printFields field rest

def readField (input : Bytes) :
    Option ((Bytes × Bytes) × Bytes) := do
  let input ← strip (ascii "  \"") input
  let (key, input) ← readText input
  let input ← strip (ascii ": \"") input
  let (value, input) ← readText input
  return ((key, value), input)

/- As many fields as the fuel allows, up to the end. -/
def readFields (fuel : Nat) (input : Bytes) :
    Option (List (Bytes × Bytes)) :=
  match fuel with
  | 0 => none
  | fuel + 1 => do
      let (field, input) ← readField input
      if input = ascii "\n\x7d\n" then return [field]
      else
        let input ← strip (ascii ",\n") input
        let rest ← readFields fuel input
        return field :: rest

def read (input : Bytes) : Option (List (Bytes × Bytes)) :=
  if input = ascii "\x7b\x7d\n" then some []
  else do
    let fields ← strip (ascii "\x7b\n") input
    readFields fields.length fields

theorem readField_print
    (field : Bytes × Bytes)
    (rest : Bytes) :
    readField (printField field ++ rest) =
      some (field, rest) := by
  have hColon :
      ascii "\": \"" = 0x22 :: ascii ": \"" := by decide
  have hQuote : ascii "\"" = [0x22] := by decide
  unfold readField printField
  simp only [hColon, hQuote, List.append_assoc,
    List.cons_append, List.nil_append, strip_append,
    readText_escape, Option.bind_eq_bind, Option.bind_some]
  rfl

theorem readFields_print
    (field : Bytes × Bytes)
    (rest : List (Bytes × Bytes))
    {fuel : Nat}
    (hFuel : rest.length < fuel) :
    readFields fuel (printFields field rest ++ ascii "\n") =
      some (field :: rest) := by
  induction rest generalizing field fuel with
  | nil =>
      rcases Nat.exists_eq_add_one_of_ne_zero
        (Nat.ne_of_gt hFuel) with ⟨fuel, rfl⟩
      have hEnd :
          ascii "\n\x7d" ++ ascii "\n" =
            ascii "\n\x7d\n" := by decide
      simp only [readFields, printFields, List.append_assoc,
        readField_print, Option.bind_eq_bind,
        Option.bind_some, hEnd, if_true]
      rfl
  | cons next rest ih =>
      rcases Nat.exists_eq_add_one_of_ne_zero
        (Nat.ne_zero_of_lt hFuel) with ⟨fuel, rfl⟩
      have hMore :
          ascii ",\n" ++
              (printFields next rest ++ ascii "\n") ≠
            ascii "\n\x7d\n" := by
        intro hSame
        have hFirst : some (0x2C : UInt8) = some 0x0A :=
          congrArg List.head? hSame
        exact absurd hFirst (by decide)
      simp only [readFields, printFields, List.append_assoc,
        readField_print, Option.bind_eq_bind,
        Option.bind_some, if_neg hMore, strip_append,
        ih next (Nat.lt_of_succ_lt_succ hFuel)]
      rfl

theorem length_printFields
    (field : Bytes × Bytes)
    (rest : List (Bytes × Bytes)) :
    rest.length < (printFields field rest).length := by
  induction rest generalizing field with
  | nil => simp [printFields, printField, ascii]
  | cons next rest ih =>
      have hRest := ih next
      simp only [printFields, List.length_append,
        List.length_cons]
      have hComma : (ascii ",\n").length = 2 := by decide
      omega

/- What was printed is read, with the newline after it. -/
theorem read_print (fields : List (Bytes × Bytes)) :
    read (print fields ++ ascii "\n") = some fields := by
  cases fields with
  | nil => decide
  | cons field rest =>
      have hSome :
          ascii "\x7b\n" ++
              (printFields field rest ++ ascii "\n") ≠
            ascii "\x7b\x7d\n" := by
        intro hSame
        have hSecond : some (0x0A : UInt8) = some 0x7D :=
          congrArg (·[1]?) hSame
        exact absurd hSecond (by decide)
      have hFuel :
          rest.length <
            (printFields field rest ++ ascii "\n").length :=
        Nat.lt_of_lt_of_le (length_printFields field rest)
          (by rw [List.length_append]; omega)
      unfold read print
      rw [List.append_assoc, if_neg hSome]
      simp only [strip_append, Option.bind_eq_bind,
        Option.bind_some, readFields_print field rest hFuel]

------------------------------------------------------------
-- The Library
------------------------------------------------------------

/- A field whose value is a text. -/
def textField : Bytes × Json → Option (Bytes × Bytes)
| (key, .string text) => some (key, text)
| _ => none

def library : JsonLibrary where
  parse := fun input =>
    (read input).map fun fields =>
      .object
        (fields.map fun field => (field.1, .string field.2))
  dump := fun node =>
    match node with
    | .object fields => (fields.mapM textField).map print
    | _ => none

theorem mapM_textField (entries : List (Bytes × Bytes)) :
    (entries.map fun entry =>
        (entry.1, Json.string entry.2)).mapM textField =
      some entries := by
  induction entries with
  | nil => rfl
  | cons entry rest ih =>
      rw [List.map_cons, List.mapM_cons, ih]
      rfl

/- What was printed of some settings is read as they were. -/
theorem parse_print (values : Values) :
    library.parse (print values.toList ++ [0x0A]) =
      some (document values) := by
  have hRead := read_print values.toList
  simp only [library, document]
  rw [show [0x0A] = ascii "\n" by decide, hRead,
    Option.map_some]

theorem library_roundTrips : library.RoundTrips := by
  intro values _
  refine ⟨print values.toList, ?_, parse_print values⟩
  simp only [library, document, mapM_textField,
    Option.map_some]

/- The same, but it throws at a string that is no text. -/
def strictLibrary : JsonLibrary where
  parse := library.parse
  dump := fun node =>
    match node with
    | .object fields =>
        (fields.mapM textField).bind fun entries =>
          if ∀ entry ∈ entries,
              Utf8 entry.1 ∧ Utf8 entry.2 then
            some (print entries)
          else none
    | _ => none

theorem strictLibrary_dump (values : Values) :
    strictLibrary.dump (document values) =
      if ∀ entry ∈ values.toList,
          Utf8 entry.1 ∧ Utf8 entry.2 then
        some (print values.toList)
      else none := by
  simp only [strictLibrary, document, mapM_textField,
    Option.bind_some]

theorem strictLibrary_strict : strictLibrary.Strict := by
  have hText :
      ∀ values : Values,
        (document values).IsText ↔
          ∀ entry ∈ values.toList,
            Utf8 entry.1 ∧ Utf8 entry.2 := by
    intro values
    rw [isText_document]
    simp only [← Std.ExtTreeMap.mem_toList_iff_getElem?_eq_some,
      Prod.forall]
  constructor
  · intro values hNot
    rw [hText] at hNot
    rw [strictLibrary_dump, if_neg hNot]
  · intro values hAll
    rw [hText] at hAll
    refine ⟨print values.toList, ?_, parse_print values⟩
    rw [strictLibrary_dump, if_pos hAll]

end MeshCore.Platform.Plain
