import Mathlib.Data.List.Basic
import MeshCore.Defines
import MeshCore.Library.Layers

/-
  Documents, as the parser hands them over, and the flat
  settings they are read as: a key in dots for every scalar
  and every array of scalars.

  Key definitions include:
    * `Platform.Utf8`
    * `Platform.Json`, `Platform.JsonLibrary`
    * `Platform.JsonLibrary.Strict`
    * `Platform.flatten`
    * `Platform.Sound`, `Platform.document`

  Key facts include:
    * `Platform.isText_document`
    * `Platform.flatten_sound`
    * `Platform.flatten_document`
-/

namespace MeshCore.Platform

------------------------------------------------------------
-- Text
------------------------------------------------------------

/- The bytes of some characters. -/
def Utf8 (text : Bytes) : Prop :=
  ∃ chars : List Char,
    text = chars.flatMap String.utf8EncodeChar

theorem Utf8.append
    {a b : Bytes}
    (ha : Utf8 a)
    (hb : Utf8 b) :
    Utf8 (a ++ b) := by
  rcases ha with ⟨first, rfl⟩
  rcases hb with ⟨second, rfl⟩
  exact ⟨first ++ second, List.flatMap_append.symm⟩

theorem utf8_nil : Utf8 [] :=
  ⟨[], rfl⟩

instance : DecidablePred Utf8 := fun text =>
  decidable_of_iff
    (ByteArray.IsValidUTF8 text.toByteArray)
    ⟨by
      rintro ⟨chars, hEncode⟩
      have hBytes := congrArg (·.data.toList) hEncode
      exact ⟨chars, by
        simpa [List.utf8Encode] using hBytes⟩,
    by
      rintro ⟨chars, rfl⟩
      exact ⟨chars, rfl⟩⟩

/- A character below the high bit is its own byte. -/
theorem utf8_map
    {chars : List Char}
    (hLow : chars.all (·.toNat < 128) = true) :
    Utf8 (chars.map fun c => UInt8.ofNat c.toNat) := by
  refine ⟨chars, ?_⟩
  induction chars with
  | nil => rfl
  | cons c rest ih =>
      rw [List.all_cons, Bool.and_eq_true,
        decide_eq_true_eq] at hLow
      have hByte :
          String.utf8EncodeChar c = [UInt8.ofNat c.toNat] := by
        unfold String.utf8EncodeChar
        rw [if_pos (by exact Nat.le_of_lt_succ hLow.1)]
        rfl
      rw [List.map_cons, List.flatMap_cons, hByte,
        ih hLow.2]
      rfl

theorem utf8_ascii
    (s : String)
    (hLow : s.toList.all (·.toNat < 128) = true) :
    Utf8 (ascii s) :=
  utf8_map hLow

------------------------------------------------------------
-- Documents
------------------------------------------------------------

/- A number stands as the text it is dumped as. -/
inductive Json where
| null
| boolean (b : Bool)
| number (printed : Bytes)
| string (text : Bytes)
| array (items : List Json)
| object (fields : List (Bytes × Json))

/- An array or an object. -/
def Json.nested : Json → Bool
| .array _ => true
| .object _ => true
| _ => false

abbrev Values :=
  Std.ExtTreeMap Bytes Bytes

abbrev Lists :=
  Std.ExtTreeMap Bytes (List Bytes)

/- The flat object that holds these settings. -/
def document (values : Values) : Json :=
  .object
    (values.toList.map fun entry =>
      (entry.1, .string entry.2))

/- No key is empty, and everything is text. -/
def Sound (values : Values) : Prop :=
  ∀ key value,
    values[key]? = some value →
      key ≠ [] ∧ Utf8 key ∧ Utf8 value

/-
  The library that reads documents and prints them, indented
  by two. It discards what is no document, and throws at a
  string that is no text.
-/
structure JsonLibrary where
  parse : Bytes → Option Json
  dump : Json → Option Bytes

/- Settings that are text come back from what was dumped. -/
def JsonLibrary.RoundTrips (lib : JsonLibrary) : Prop :=
  ∀ values,
    Sound values →
      ∃ text,
        lib.dump (document values) = some text ∧
          lib.parse (text ++ [0x0A]) =
            some (document values)

mutual

/- Every string of a document is text. -/
def Json.IsText : Json → Prop
| .number printed => Utf8 printed
| .string text => Utf8 text
| .array items => Json.AllText items
| .object fields => Json.FieldsText fields
| _ => True

def Json.AllText : List Json → Prop
| [] => True
| item :: rest => item.IsText ∧ Json.AllText rest

def Json.FieldsText : List (Bytes × Json) → Prop
| [] => True
| (key, child) :: rest =>
    Utf8 key ∧ child.IsText ∧ Json.FieldsText rest

end

/- What is read at all is text all through. -/
def JsonLibrary.ReadsText (lib : JsonLibrary) : Prop :=
  ∀ text node, lib.parse text = some node → node.IsText

/-
  It throws at settings of which one is no text, and reads
  back whatever else it has printed.
-/
structure JsonLibrary.Strict (lib : JsonLibrary) :
    Prop where
  throws :
    ∀ values,
      ¬ (document values).IsText →
        lib.dump (document values) = none
  prints :
    ∀ values,
      (document values).IsText →
        ∃ text,
          lib.dump (document values) = some text ∧
            lib.parse (text ++ [0x0A]) =
              some (document values)

/- Settings make a document of text if all of them are. -/
theorem isText_document {values : Values} :
    (document values).IsText ↔
      ∀ key value,
        values[key]? = some value →
          Utf8 key ∧ Utf8 value := by
  have hFields :
      ∀ entries : List (Bytes × Bytes),
        Json.FieldsText
            (entries.map fun entry =>
              (entry.1, .string entry.2)) ↔
          ∀ entry ∈ entries, Utf8 entry.1 ∧ Utf8 entry.2 := by
    intro entries
    induction entries with
    | nil => simp [Json.FieldsText]
    | cons entry rest ih =>
        rw [List.map_cons, Json.FieldsText, ih,
          List.forall_mem_cons, and_assoc]
        rfl
  rw [document, Json.IsText, hFields]
  constructor
  · intro hAll key value hEntry
    exact hAll (key, value)
      (Std.ExtTreeMap.mem_toList_iff_getElem?_eq_some.mpr
        hEntry)
  · intro hAll entry hMem
    exact hAll entry.1 entry.2
      (Std.ExtTreeMap.mem_toList_iff_getElem?_eq_some.mp
        hMem)

------------------------------------------------------------
-- Flattening
------------------------------------------------------------

structure Flat where
  values : Values := ∅
  lists : Lists := ∅

/- Never asked of an array or an object. -/
def scalarToText : Json → Bytes
| .string text => text
| .boolean b => if b then ascii "true" else ascii "false"
| .number printed => printed
| _ => []

def joined : List Bytes → Bytes
| [] => []
| [item] => item
| item :: rest => item ++ ascii "," ++ joined rest

mutual

/- What comes later under a key replaces what was there. -/
def flatten
    (node : Json)
    (above : Bytes)
    (flat : Flat) :
    Option Flat :=
  match node with
  | .object fields => flattenFields fields above flat
  | .array items =>
      if items.any Json.nested then none
      else
        let texts := items.map scalarToText
        some
          { values := flat.values.insert above (joined texts)
            lists := flat.lists.insert above texts }
  | node =>
      some
        { flat with
          values :=
            flat.values.insert above (scalarToText node) }

def flattenFields
    (fields : List (Bytes × Json))
    (above : Bytes)
    (flat : Flat) :
    Option Flat :=
  match fields with
  | [] => some flat
  | (key, child) :: rest =>
      if key = [] then none
      else
        let full :=
          if above = [] then key
          else above ++ ascii "." ++ key
        (flatten child full flat).bind
          (flattenFields rest above)

end

------------------------------------------------------------
-- What Flattening Makes Of Text
------------------------------------------------------------

theorem sound_empty : Sound ∅ := by
  intro key value hEntry
  rw [Std.ExtTreeMap.getElem?_empty] at hEntry
  contradiction

theorem Sound.insert
    {values : Values} {key value : Bytes}
    (hSound : Sound values)
    (hKey : key ≠ [])
    (hKeyText : Utf8 key)
    (hValueText : Utf8 value) :
    Sound (values.insert key value) := by
  intro key' value' hEntry
  rw [Std.ExtTreeMap.getElem?_insert] at hEntry
  split at hEntry
  next hSame =>
    rw [← Std.LawfulEqCmp.eq_of_compare hSame,
      ← Option.some.inj hEntry]
    exact ⟨hKey, hKeyText, hValueText⟩
  next => exact hSound key' value' hEntry

theorem scalarToText_utf8
    {node : Json}
    (hText : node.IsText) :
    Utf8 (scalarToText node) := by
  cases node with
  | number printed => exact hText
  | string text => exact hText
  | boolean b =>
      cases b
      · exact utf8_ascii "false" (by decide)
      · exact utf8_ascii "true" (by decide)
  | _ => exact utf8_nil

theorem joined_utf8
    {items : List Json}
    (hText : Json.AllText items) :
    Utf8 (joined (items.map scalarToText)) := by
  induction items with
  | nil => exact utf8_nil
  | cons item rest ih =>
      have hItem := scalarToText_utf8 hText.1
      have hRest := ih hText.2
      cases rest with
      | nil => exact hItem
      | cons next rest =>
          exact
            (hItem.append (utf8_ascii "," (by decide))).append
              hRest

mutual

/- A document of text flattens to settings of text. -/
theorem flatten_sound
    {node : Json} {above : Bytes} {flat flat' : Flat}
    (hFlat : flatten node above flat = some flat')
    (hNode : node.IsText)
    (hAbove : Utf8 above)
    (hNamed : above ≠ [] ∨ ∃ fields, node = .object fields)
    (hSound : Sound flat.values) :
    Sound flat'.values := by
  match node with
  | .object fields =>
      exact flattenFields_sound hFlat hNode hAbove hSound
  | .array items =>
      have hKey : above ≠ [] := by simpa using hNamed
      simp only [flatten] at hFlat
      split at hFlat
      · contradiction
      · rw [← Option.some.inj hFlat]
        exact hSound.insert hKey hAbove (joined_utf8 hNode)
  | .null | .boolean _ | .number _ | .string _ =>
      have hKey : above ≠ [] := by simpa using hNamed
      rw [← Option.some.inj hFlat]
      exact hSound.insert hKey hAbove
        (scalarToText_utf8 hNode)

theorem flattenFields_sound
    {fields : List (Bytes × Json)}
    {above : Bytes} {flat flat' : Flat}
    (hFlat : flattenFields fields above flat = some flat')
    (hFields : Json.FieldsText fields)
    (hAbove : Utf8 above)
    (hSound : Sound flat.values) :
    Sound flat'.values := by
  match fields with
  | [] =>
      rw [← Option.some.inj hFlat]
      exact hSound
  | (key, child) :: rest =>
      rcases hFields with ⟨hKey, hChild, hRest⟩
      simp only [flattenFields] at hFlat
      split at hFlat
      · contradiction
      next hSome =>
        rcases Option.bind_eq_some_iff.mp hFlat with
          ⟨between, hHere, hThere⟩
        refine flattenFields_sound hThere hRest hAbove ?_
        apply flatten_sound hHere hChild _ _ hSound
        · split
          · exact hKey
          · have hDot := utf8_ascii "." (by decide)
            exact (hAbove.append hDot).append hKey
        · left
          split
          · exact hSome
          · simp [hSome]

end

/- What is flat already is flattened to itself. -/
theorem flattenFields_texts
    {entries : List (Bytes × Bytes)}
    (hKeys : ∀ entry ∈ entries, entry.1 ≠ [])
    (flat : Flat) :
    flattenFields
        (entries.map fun entry => (entry.1, .string entry.2))
        [] flat =
      some
        { flat with
          values := flat.values.insertMany entries } := by
  induction entries generalizing flat with
  | nil => rfl
  | cons entry rest ih =>
      have hHere := hKeys entry List.mem_cons_self
      have hThere := fun entry hRest =>
        hKeys entry (List.mem_cons_of_mem _ hRest)
      rw [List.map_cons, flattenFields, if_neg hHere]
      simp only [flatten, if_true, Option.bind_some]
      rw [ih hThere, Std.ExtTreeMap.insertMany_cons]
      rfl

theorem flatten_document
    {values : Values}
    (hSound : Sound values) :
    flatten (document values) [] {} =
      some { values := values } := by
  have hKeys : ∀ entry ∈ values.toList, entry.1 ≠ [] := by
    intro entry hEntry
    exact (hSound entry.1 entry.2
      (Std.ExtTreeMap.mem_toList_iff_getElem?_eq_some.mp
        hEntry)).1
  calc flatten (document values) [] {}
      = some
          { values := Layers.lay ∅ values } :=
        flattenFields_texts hKeys {}
    _ = some { values := values } := by
        rw [Layers.empty_lay]

end MeshCore.Platform
