import MeshCore.Platform.Overlay
import MeshCore.Platform.Plain

/-
  The config: what the operator wrote, with the overlay laid
  over it, and how a setting is read as a text, a number or
  a flag.

  Key definitions include:
    * `Platform.Config`
    * `Platform.Config.loadFromString`
    * `Platform.Config.applyOverlay`, `Platform.Config.put`
    * `Platform.strtol`
    * `Platform.Config.getInt`, `Platform.Config.getBool`
    * `Platform.Config.SameAnswers`
    * `Platform.Config.Shadows`

  Key facts include:
    * `Platform.Config.applyOverlay_insert`
    * `Platform.Config.get_put`
    * `Platform.Config.getInt_put_decimal`
    * `Platform.Config.getBool_put_flag`
    * `Platform.Config.overlay_shadows_iff`
-/

namespace MeshCore.Platform

------------------------------------------------------------
-- Numbers
------------------------------------------------------------

/- What `isspace` takes for a space. -/
def isSpace (b : UInt8) : Bool :=
  b = 0x20 ∨ (9 ≤ b ∧ b ≤ 13)

def isDigit (b : UInt8) : Bool :=
  48 ≤ b ∧ b ≤ 57

/- The number spelt by some digits. -/
def digitsValue (digits : Bytes) : Nat :=
  digits.foldl (fun n b => n * 10 + (b.toNat - 48)) 0

/-
  The decimal number a text begins with, and what follows
  it. A number out of range is cut to it; where there is
  none, everything follows.
-/
def strtol (text : Bytes) : Int × Bytes :=
  let unsigned := text.dropWhile isSpace
  let (negative, rest) :=
    match unsigned with
    | 0x2D :: rest => (true, rest)
    | 0x2B :: rest => (false, rest)
    | rest => (false, rest)
  let digits := rest.takeWhile isDigit
  if digits = [] then (0, text)
  else
    let value : Int := digitsValue digits
    let signed := if negative then -value else value
    (max (-2 ^ 63) (min signed (2 ^ 63 - 1)),
      rest.drop digits.length)

/- What is stored of a flag, in the spelling of a config. -/
def flag (on : Bool) : Bytes :=
  if on then ascii "true" else ascii "false"

------------------------------------------------------------
-- The Config
------------------------------------------------------------

structure Config where
  values : Values
  lists : Lists

namespace Config

/- What is loaded of a document that could be read. -/
def ofDocument (node : Json) : Option Config :=
  match node with
  | .object fields =>
      (flatten (.object fields) [] {}).map fun flat =>
        { values := flat.values
          lists := flat.lists }
  | _ => none

def loadFromString
    (lib : JsonLibrary)
    (text : Bytes) :
    Option Config :=
  (lib.parse text).bind ofDocument

def has (config : Config) (key : Bytes) : Bool :=
  config.values.contains key

/- What shadows a list takes the list with it. -/
def applyOverlay
    (config : Config)
    (overlay : Overlay) :
    Config :=
  { values := Layers.lay config.values overlay.values
    lists :=
      overlay.values.keys.foldl (·.erase ·) config.lists }

def get
    (config : Config)
    (key : Bytes)
    (fallback : Bytes := []) :
    Bytes :=
  (config.values[key]?).getD fallback

def getList (config : Config) (key : Bytes) : List Bytes :=
  (config.lists[key]?).getD []

/- A number has to fill the text, up to its first NUL. -/
def getInt
    (config : Config)
    (key : Bytes)
    (fallback : Int) :
    Int :=
  match config.values[key]? with
  | none => fallback
  | some text =>
      if text = [] then fallback
      else
        let (value, rest) :=
          strtol (text.takeWhile (· ≠ 0))
        if rest = [] then value else fallback

def getBool
    (config : Config)
    (key : Bytes)
    (fallback : Bool) :
    Bool :=
  match config.values[key]? with
  | none => fallback
  | some value =>
      if value = ascii "true" ∨ value = ascii "yes" ∨
          value = ascii "1" then
        true
      else if value = ascii "false" ∨ value = ascii "no" ∨
          value = ascii "0" then
        false
      else fallback

------------------------------------------------------------
-- One Setting More
------------------------------------------------------------

/- The same settings, with one of them given. -/
def put (config : Config) (key value : Bytes) : Config :=
  { values := config.values.insert key value
    lists := config.lists.erase key }

/- A setting of the overlay is one of the config under it. -/
theorem applyOverlay_insert
    (config : Config)
    (overlay : Overlay)
    (key value : Bytes) :
    (config.applyOverlay
        { values := overlay.values.insert key value }).values =
      ((config.applyOverlay overlay).put key value).values :=
  Layers.lay_insert key value

theorem values_put
    (config : Config)
    (key key' value : Bytes) :
    (config.put key value).values[key']? =
      if key' = key then some value
      else config.values[key']? := by
  rw [put, Std.ExtTreeMap.getElem?_insert]
  simp only [Std.LawfulEqCmp.compare_eq_iff_eq,
    eq_comm (a := key)]

theorem get_put
    (config : Config)
    (key value fallback : Bytes) :
    (config.put key value).get key fallback = value := by
  rw [get, values_put, if_pos rfl, Option.getD_some]

/- The other settings are as they were. -/
theorem get_put_of_ne
    {key key' : Bytes}
    (hOther : key' ≠ key)
    (config : Config)
    (value fallback : Bytes) :
    (config.put key value).get key' fallback =
      config.get key' fallback := by
  rw [get, values_put, if_neg hOther, get]

theorem getBool_put_of_ne
    {key key' : Bytes}
    (hOther : key' ≠ key)
    (config : Config)
    (value : Bytes)
    (fallback : Bool) :
    (config.put key value).getBool key' fallback =
      config.getBool key' fallback := by
  rw [getBool, values_put, if_neg hOther, getBool]

theorem getInt_put_of_ne
    {key key' : Bytes}
    (hOther : key' ≠ key)
    (config : Config)
    (value : Bytes)
    (fallback : Int) :
    (config.put key value).getInt key' fallback =
      config.getInt key' fallback := by
  rw [getInt, values_put, if_neg hOther, getInt]

theorem getBool_put_flag
    (config : Config)
    (key : Bytes)
    (on fallback : Bool) :
    (config.put key (flag on)).getBool key fallback = on := by
  rw [getBool, values_put, if_pos rfl]
  cases on <;> rfl

/- The hop limits there are, in digits and back. -/
theorem getInt_put_decimal
    {hops : Nat}
    (hHops : hops ≤ maxHopCount)
    (config : Config)
    (key : Bytes)
    (fallback : Int) :
    (config.put key (decimal hops)).getInt key fallback =
      hops := by
  have hDigits :
      ∀ n ≤ maxHopCount,
        decimal n ≠ [] ∧
          strtol ((decimal n).takeWhile (· ≠ 0)) =
            ((n : Int), []) := by
    decide +kernel
  rcases hDigits hops hHops with ⟨hSome, hRead⟩
  rw [getInt, values_put, if_pos rfl]
  simp only [if_neg hSome, hRead, if_true]

------------------------------------------------------------
-- What An Overlay Shadows
------------------------------------------------------------

theorem has_eq (config : Config) (key : Bytes) :
    config.has key = (config.values[key]?).isSome :=
  Std.ExtTreeMap.contains_eq_isSome_getElem?

/- Two configs answer every question about a key alike. -/
structure SameAnswers
    (config config' : Config)
    (key : Bytes) :
    Prop where
  has : config.has key = config'.has key
  get :
    ∀ fallback,
      config.get key fallback = config'.get key fallback
  getList : config.getList key = config'.getList key

/-
  What the config on top says of a key it defines, and what
  the one below says of any other.
-/
def Shadows
    (base top both : Config)
    (key : Bytes) :
    Prop :=
  if top.has key then both.SameAnswers top key
  else both.SameAnswers base key

/- Every value, and no list, of what is laid on top. -/
theorem values_applyOverlay
    (config : Config)
    (overlay : Overlay)
    (key : Bytes) :
    (config.applyOverlay overlay).values[key]? =
      (overlay.values[key]?).or config.values[key]? :=
  Layers.getElem?_lay key

theorem lists_applyOverlay
    (config : Config)
    (overlay : Overlay)
    (key : Bytes) :
    (config.applyOverlay overlay).lists[key]? =
      if (overlay.values[key]?).isSome then none
      else config.lists[key]? := by
  rw [applyOverlay, Layers.getElem?_foldl_erase]
  simp only [Std.ExtTreeMap.mem_keys,
    Std.ExtTreeMap.isSome_getElem?_iff_mem]

theorem applyOverlay_twice
    (config : Config)
    (overlay : Overlay) :
    (config.applyOverlay overlay).applyOverlay overlay =
      config.applyOverlay overlay := by
  have hLists :
      ((config.applyOverlay overlay).applyOverlay
          overlay).lists =
        (config.applyOverlay overlay).lists := by
    apply Std.ExtTreeMap.ext_getElem?
    intro key
    rw [lists_applyOverlay, lists_applyOverlay]
    split <;> rfl
  have hValues :
      ((config.applyOverlay overlay).applyOverlay
          overlay).values =
        (config.applyOverlay overlay).values :=
    Layers.lay_lay
  exact congrArg₂ Config.mk hValues hLists

/- A key the overlay does not define is left alone. -/
theorem sameAnswers_below
    {config : Config} {overlay : Overlay} {key : Bytes}
    (hNone : overlay.values[key]? = none) :
    (config.applyOverlay overlay).SameAnswers config key := by
  have hValue := values_applyOverlay config overlay key
  rw [hNone, Option.none_or] at hValue
  refine ⟨?_, fun fallback => ?_, ?_⟩
  · rw [has_eq, has_eq, hValue]
  · rw [get, get, hValue]
  · rw [getList, getList, lists_applyOverlay, hNone]
    rfl

/- One that it defines answers with its value, and no list. -/
theorem sameAnswers_above_iff
    {config top : Config} {overlay : Overlay} {key : Bytes}
    (hSame : top.values = overlay.values)
    (hSome : (overlay.values[key]?).isSome) :
    (config.applyOverlay overlay).SameAnswers top key ↔
      top.getList key = [] := by
  have hValue :
      (config.applyOverlay overlay).values[key]? =
        top.values[key]? := by
    rw [values_applyOverlay, hSame, Option.or_of_isSome hSome]
  have hList :
      (config.applyOverlay overlay).getList key = [] := by
    rw [getList, lists_applyOverlay, if_pos hSome]
    rfl
  constructor
  · intro hAnswers
    rw [← hAnswers.getList, hList]
  · intro hNone
    refine ⟨?_, fun fallback => ?_, hList.trans hNone.symm⟩
    · rw [has_eq, has_eq, hValue]
    · rw [get, get, hValue]

theorem shadows_ofDocument_iff
    (config : Config)
    {above : Json} {overlay : Overlay}
    (hAbove : Overlay.ofDocument above = some overlay) :
    ∃ top,
      ofDocument above = some top ∧
        ∀ key,
          Shadows config top (config.applyOverlay overlay)
              key ↔
            (top.has key → top.getList key = []) := by
  unfold Overlay.ofDocument at hAbove
  split at hAbove
  next fields =>
    rcases Option.map_eq_some_iff.mp hAbove with
      ⟨flat, hFlat, rfl⟩
    refine
      ⟨{ values := flat.values, lists := flat.lists },
        by simp only [ofDocument, hFlat, Option.map_some],
        fun key => ?_⟩
    unfold Shadows
    rw [has_eq]
    cases hEntry : flat.values[key]? with
    | none =>
        simp only [Option.isSome_none, Bool.false_eq_true,
          if_false, false_implies, iff_true]
        exact sameAnswers_below hEntry
    | some value =>
        simp only [Option.isSome_some, if_true, true_implies]
        exact sameAnswers_above_iff rfl (by rw [hEntry]; rfl)
  next => contradiction

/-
  An overlay shadows a key if and only if it does not define
  it as a list of anything; and it is laid on once for all.
-/
theorem overlay_shadows_iff
    {lib : JsonLibrary}
    (config : Config)
    {blob : Bytes} {overlay : Overlay}
    (hLoad : Overlay.load lib (some blob) = some overlay) :
    ∃ top,
      loadFromString lib blob = some top ∧
        (∀ key,
          Shadows config top (config.applyOverlay overlay)
              key ↔
            (top.has key → top.getList key = [])) ∧
        (config.applyOverlay overlay).applyOverlay overlay =
          config.applyOverlay overlay := by
  rw [Overlay.load_some] at hLoad
  rcases Option.bind_eq_some_iff.mp hLoad with
    ⟨above, hParse, hAbove⟩
  rcases shadows_ofDocument_iff config hAbove with
    ⟨top, hTop, hShadows⟩
  refine ⟨top, ?_, hShadows, applyOverlay_twice config _⟩
  rw [loadFromString, hParse]
  exact hTop

section Example

/- A list and a name of the config. -/
def listed : Json :=
  .object
    [(ascii "name", .string (ascii "node-one")),
      (ascii "radio",
        .object
          [(ascii "udp_peers",
            .array [.string (ascii "a:1")])])]

/- Another list in its place. -/
def relisted : Json :=
  .object
    [(ascii "radio",
      .object
        [(ascii "udp_peers",
          .array [.string (ascii "b:2")])])]

def peers : Bytes := ascii "radio.udp_peers"

/- An overlay that empties the list, and its file. -/
def emptied : Values := Std.ExtTreeMap.insert ∅ peers []

def emptiedFile : Bytes :=
  Plain.print emptied.toList ++ [0x0A]

theorem an_emptied_list_is_shadowed :
    ∃ config top,
      ofDocument listed = some config ∧
        loadFromString Plain.library emptiedFile =
          some top ∧
        Shadows config top
          (config.applyOverlay { values := emptied })
          peers := by
  have hConfig : (ofDocument listed).isSome := by
    decide +kernel
  rcases Option.isSome_iff_exists.mp hConfig with
    ⟨config, hConfig⟩
  have hSound : Sound emptied :=
    sound_empty.insert (by decide)
      (utf8_ascii "radio.udp_peers" (by decide)) utf8_nil
  have hParse := Plain.parse_print emptied
  have hLoad :
      Overlay.load Plain.library (some emptiedFile) =
        some { values := emptied } :=
    Overlay.load_of_dump hSound hParse
  rcases overlay_shadows_iff config hLoad with
    ⟨top, hTop, hShadows, -⟩
  refine ⟨config, top, hConfig, hTop,
    (hShadows peers).mpr fun _ => ?_⟩
  have hFlat := flatten_document hSound
  rw [document] at hFlat hParse
  rw [loadFromString, emptiedFile, hParse, Option.bind_some,
    ofDocument, hFlat] at hTop
  cases hTop
  rw [getList, Std.ExtTreeMap.getElem?_empty,
    Option.getD_none]

/- The list on top hides the other, and is lost itself. -/
theorem a_list_on_top_is_lost :
    ¬ ∀ (below above : Json) (config top : Config)
        (overlay : Overlay) (key : Bytes),
        ofDocument below = some config →
          Overlay.ofDocument above = some overlay →
            ofDocument above = some top →
              Shadows config top
                (config.applyOverlay overlay) key := by
  intro hAll
  have hLost :
      (ofDocument listed).bind (fun config =>
          (Overlay.ofDocument relisted).map fun overlay =>
            (config.applyOverlay overlay).getList peers) =
        some [] := by
    decide +kernel
  have hTop :
      (ofDocument relisted).map
          (fun top => (top.has peers, top.getList peers)) =
        some (true, [ascii "b:2"]) := by
    decide +kernel
  rcases Option.bind_eq_some_iff.mp hLost with
    ⟨config, hConfig, hLost⟩
  rcases Option.map_eq_some_iff.mp hLost with
    ⟨overlay, hOverlay, hLost⟩
  rcases Option.map_eq_some_iff.mp hTop with
    ⟨top, hTop, hAlone⟩
  rcases Prod.mk.inj hAlone with ⟨hHas, hList⟩
  have hShadows :=
    hAll listed relisted config top overlay peers hConfig
      hOverlay hTop
  rw [Shadows, if_pos hHas] at hShadows
  have hBoth := hShadows.getList
  rw [hLost, hList] at hBoth
  exact absurd hBoth (by decide)

end Example

end Config

end MeshCore.Platform
