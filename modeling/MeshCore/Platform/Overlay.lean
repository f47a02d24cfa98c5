import MeshCore.Platform.Json

/-
  The overlay: the settings an admin changed over the air,
  kept in a file beside the config.

  Key definitions include:
    * `Platform.Disk`, `Platform.writeAtomic`
    * `Platform.Overlay`
    * `Platform.Overlay.load`, `Platform.Overlay.set`
    * `Platform.Overlay.Storable`
    * `Platform.Overlay.SetsAtomically`

  Key facts include:
    * `Platform.writeAtomic_cases`
    * `Platform.Overlay.load_sound`
    * `Platform.Overlay.set_cases`
    * `Platform.Overlay.setsAtomically_iff`
-/

namespace MeshCore.Platform

------------------------------------------------------------
-- Storage
------------------------------------------------------------

/- How the steps of one attempt to replace a file go. -/
structure Attempt where
  opened : Bool := true
  written : Bool := true
  synced : Bool := true
  closed : Bool := true
  renamed : Bool := true
deriving DecidableEq, Repr

/-
  The file of the overlay, if there is one, and how the
  attempts to come will go.
-/
structure Disk where
  file : Option Bytes
  attempts : Nat → Attempt

/-
  A temporary file is written, synced and renamed. It is
  removed wherever that fails, and nothing ever reads it.
  Whether the directory could be synced is not looked at.
-/
def writeAtomic (disk : Disk) (data : Bytes) : Bool × Disk :=
  let attempt := disk.attempts 0
  let disk :=
    { disk with attempts := fun n => disk.attempts (n + 1) }
  if ¬ attempt.opened then (false, disk)
  else if ¬ attempt.written then (false, disk)
  else if ¬ (attempt.synced ∧ attempt.closed) then
    (false, disk)
  else if ¬ attempt.renamed then (false, disk)
  else (true, { disk with file := some data })

/- All of the file is replaced, or none of it. -/
theorem writeAtomic_cases (disk : Disk) (data : Bytes) :
    ((writeAtomic disk data).1 = true ∧
        (writeAtomic disk data).2.file = some data) ∨
      ((writeAtomic disk data).1 = false ∧
        (writeAtomic disk data).2.file = disk.file) := by
  unfold writeAtomic
  dsimp only
  split_ifs
  · exact .inl ⟨rfl, rfl⟩
  all_goals exact .inr ⟨rfl, rfl⟩

------------------------------------------------------------
-- Overlays
------------------------------------------------------------

structure Overlay where
  values : Values

namespace Overlay

/-
  A file that was never written means that nothing was ever
  changed. One that cannot be read is an error.
-/
def load
    (lib : JsonLibrary)
    (file : Option Bytes) :
    Option Overlay :=
  match file with
  | none => some { values := ∅ }
  | some blob =>
      match lib.parse blob with
      | some (.object fields) =>
          (flatten (.object fields) [] {}).map fun flat =>
            { values := flat.values }
      | _ => none

/- What is loaded of a document that could be read. -/
def ofDocument (node : Json) : Option Overlay :=
  match node with
  | .object fields =>
      (flatten (.object fields) [] {}).map fun flat =>
        { values := flat.values }
  | _ => none

theorem load_some (lib : JsonLibrary) (blob : Bytes) :
    load lib (some blob) = (lib.parse blob).bind ofDocument := by
  unfold load ofDocument
  cases hParse : lib.parse blob with
  | none => simp only [hParse, Option.bind_none]
  | some node => cases node <;> simp [hParse]

/- Nothing when the library throws, otherwise whether. -/
def save
    (lib : JsonLibrary)
    (overlay : Overlay)
    (disk : Disk) :
    Option Bool × Disk :=
  match lib.dump (document overlay.values) with
  | none => (none, disk)
  | some text =>
      let (stored, disk) :=
        writeAtomic disk (text ++ ascii "\n")
      (some stored, disk)

/-
  What was there is put back when it could not be stored.
  An exception leaves before that, with the change made.
-/
def set
    (lib : JsonLibrary)
    (overlay : Overlay)
    (disk : Disk)
    (key value : Bytes) :
    Option Bool × Overlay × Disk :=
  let previous := overlay.values[key]?
  let changed : Overlay :=
    { values := overlay.values.insert key value }
  match changed.save lib disk with
  | (none, disk) => (none, changed, disk)
  | (some true, disk) => (some true, changed, disk)
  | (some false, disk) =>
      (some false,
        { values :=
            Layers.putBack changed.values key previous },
        disk)

------------------------------------------------------------
-- What Is Stored
------------------------------------------------------------

/- What is loaded is text: nothing else is read. -/
theorem load_sound
    {lib : JsonLibrary} {file : Option Bytes}
    {overlay : Overlay}
    (hReads : lib.ReadsText)
    (hLoad : load lib file = some overlay) :
    Sound overlay.values := by
  unfold load at hLoad
  split at hLoad
  next =>
    rw [← Option.some.inj hLoad]
    exact sound_empty
  next blob =>
    split at hLoad
    next fields hParse =>
      rcases Option.map_eq_some_iff.mp hLoad with
        ⟨flat, hFlat, rfl⟩
      exact flatten_sound hFlat (hReads blob _ hParse)
        utf8_nil (.inr ⟨fields, rfl⟩) sound_empty
    next => contradiction

/- What was saved is what is loaded. -/
theorem load_of_dump
    {lib : JsonLibrary} {values : Values} {text : Bytes}
    (hSound : Sound values)
    (hParse :
      lib.parse (text ++ ascii "\n") =
        some (document values)) :
    load lib (some (text ++ ascii "\n")) =
      some { values := values } := by
  have hFlat := flatten_document hSound
  unfold document at hFlat hParse
  simp only [load, hParse, hFlat, Option.map_some]

/-
  A setting that is text is in the overlay and in its file,
  or in neither of them.
-/
theorem set_cases
    {lib : JsonLibrary} {overlay : Overlay}
    {key value : Bytes}
    (hRound : lib.RoundTrips)
    (hSound : Sound overlay.values)
    (hKey : key ≠ [])
    (hKeyText : Utf8 key)
    (hValueText : Utf8 value)
    (disk : Disk) :
    (∃ disk',
        overlay.set lib disk key value =
          (some true,
            { values := overlay.values.insert key value },
            disk') ∧
        load lib disk'.file =
          some
            { values :=
                overlay.values.insert key value }) ∨
      ∃ disk',
        overlay.set lib disk key value =
          (some false, overlay, disk') ∧
        disk'.file = disk.file := by
  have hChanged :=
    hSound.insert hKey hKeyText hValueText
  rcases hRound _ hChanged with ⟨text, hDump, hParse⟩
  have hWrite :=
    writeAtomic_cases disk (text ++ ascii "\n")
  simp only [set, save, hDump]
  generalize writeAtomic disk (text ++ ascii "\n") =
    outcome at hWrite ⊢
  rcases outcome with ⟨stored, disk'⟩
  dsimp only at hWrite
  rcases hWrite with ⟨rfl, hFile⟩ | ⟨rfl, hFile⟩
  · left
    refine ⟨disk', rfl, ?_⟩
    rw [hFile]
    exact load_of_dump hChanged hParse
  · right
    refine ⟨disk', ?_, hFile⟩
    simp only
    rw [Layers.putBack_insert]

------------------------------------------------------------
-- What Can Be Stored
------------------------------------------------------------

/- The setting is text, and so is whatever is kept beside it. -/
structure Storable
    (values : Values)
    (key value : Bytes) :
    Prop where
  keyText : Utf8 key
  valueText : Utf8 value
  others :
    ∀ key' value',
      key' ≠ key →
        values[key']? = some value' →
          Utf8 key' ∧ Utf8 value'

theorem storable_iff
    {values : Values} {key value : Bytes} :
    Storable values key value ↔
      (document (values.insert key value)).IsText := by
  rw [isText_document]
  simp only [Std.ExtTreeMap.getElem?_insert,
    Std.LawfulEqCmp.compare_eq_iff_eq]
  constructor
  · rintro ⟨hKey, hValue, hOthers⟩ key' value' hEntry
    split at hEntry
    next hSame =>
      cases hEntry
      exact ⟨hSame ▸ hKey, hValue⟩
    next hOther =>
      exact hOthers key' value' (Ne.symm hOther) hEntry
  · intro hAll
    have hSelf := hAll key value (if_pos rfl)
    refine ⟨hSelf.1, hSelf.2, ?_⟩
    intro key' value' hOther hEntry
    exact hAll key' value'
      ((if_neg (Ne.symm hOther)).trans hEntry)

/-
  The setting is in the overlay, and the file says exactly
  what the overlay does; or both are as they were. Leaving
  by an exception is neither.
-/
def SetsAtomically
    (lib : JsonLibrary)
    (overlay : Overlay)
    (disk : Disk)
    (key value : Bytes) :
    Prop :=
  match overlay.set lib disk key value with
  | (some true, overlay', disk') =>
      overlay'.values = overlay.values.insert key value ∧
        ∃ text,
          disk'.file = some text ∧
            lib.parse text = some (document overlay'.values)
  | (some false, overlay', disk') =>
      overlay'.values = overlay.values ∧
        disk'.file = disk.file
  | (none, _, _) => False

/- A setting that cannot be stored is left by an exception. -/
theorem set_of_not_storable
    {lib : JsonLibrary} {overlay : Overlay}
    {key value : Bytes}
    (hStrict : lib.Strict)
    (hNot : ¬ Storable overlay.values key value)
    (disk : Disk) :
    overlay.set lib disk key value =
      (none, { values := overlay.values.insert key value },
        disk) := by
  rw [storable_iff] at hNot
  simp only [set, save, hStrict.throws _ hNot]

theorem setsAtomically_of_storable
    {lib : JsonLibrary} {overlay : Overlay}
    {key value : Bytes}
    (hStrict : lib.Strict)
    (hStorable : Storable overlay.values key value)
    (disk : Disk) :
    overlay.SetsAtomically lib disk key value := by
  rcases hStrict.prints _ (storable_iff.mp hStorable) with
    ⟨text, hDump, hParse⟩
  have hWrite :=
    writeAtomic_cases disk (text ++ ascii "\n")
  simp only [SetsAtomically, set, save, hDump]
  generalize writeAtomic disk (text ++ ascii "\n") =
    outcome at hWrite ⊢
  rcases outcome with ⟨stored, disk'⟩
  dsimp only at hWrite
  rcases hWrite with ⟨rfl, hFile⟩ | ⟨rfl, hFile⟩
  · exact ⟨rfl, _, hFile, hParse⟩
  · refine ⟨?_, hFile⟩
    simp only
    rw [Layers.putBack_insert]

/- A setting is changed in one piece where it can be stored. -/
theorem setsAtomically_iff
    {lib : JsonLibrary}
    (hStrict : lib.Strict)
    (overlay : Overlay)
    (disk : Disk)
    (key value : Bytes) :
    overlay.SetsAtomically lib disk key value ↔
      Storable overlay.values key value := by
  constructor
  · intro hSets
    by_contra hNot
    rw [SetsAtomically,
      set_of_not_storable hStrict hNot disk] at hSets
    exact hSets
  · intro hStorable
    exact setsAtomically_of_storable hStrict hStorable disk

end Overlay

end MeshCore.Platform
