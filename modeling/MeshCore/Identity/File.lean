import MeshCore.Identity.Exact
import MeshCore.Packet.Writing
import Mathlib.Data.List.Forall2

/-
  The file of the contacts. It has no count of its records,
  so the reader goes on until nothing is left; a record that
  is cut short, a name that is too long or a record too many
  and nothing of the file is taken.

  Version 1 knew the adverts only, and nothing of how they
  were heard.

  Key definitions include:
    * `Store.writeContacts`, `Store.loadContacts`
    * `Store.recordBytes`, `Store.Spells`
    * `Store.Storable`

  Key facts include:
    * `Store.readContact_iff`, `Store.parseContacts_iff`
    * `Store.loadContacts_writeContacts`
    * `Store.contacts_survive_the_file`
-/

namespace MeshCore

namespace Store

------------------------------------------------------------
-- Writing
------------------------------------------------------------

/- How a contact was heard, which version 2 added. -/
def heardBytes (contact : Contact) : Bytes :=
  writeUint32 contact.lastHeard ++
    [contact.snr.toUInt16.toUInt8,
      (contact.snr.toUInt16 >>> 8).toUInt8, contact.hops]

def contactBytes (contact : Contact) : Bytes :=
  let name := contact.name.take maxContactName
  contact.pk.toList ++
    (writeUint32 contact.timestamp ++
      contact.type ::
        (if contact.hasLocation then 1 else 0) ::
          (writeUint32 contact.latitude.toUInt32 ++
            (writeUint32 contact.longitude.toUInt32 ++
              UInt8.ofNat name.length ::
                (name ++ heardBytes contact))))

/- What is written, all of it or nothing. -/
def writeContacts (store : Store) : Bytes :=
  contactsFormatVersion ::
    store.contacts.flatMap contactBytes

------------------------------------------------------------
-- Reading
------------------------------------------------------------

def contactFixedSize : Nat :=
  packetPublicKeySize + 4 + 1 + 1 + 4 + 4 + 1

def contactHeardSize : Nat := 4 + 2 + 1

/- What a file of this version has on the link. -/
def readHeard
    (version : UInt8)
    (contact : Contact)
    (view : Bytes) :
    Option (Contact × Bytes) :=
  if 2 ≤ version then
    if view.length < contactHeardSize then none
    else
      let lastHeard := readUint32 view 0
      let view := view.drop 4
      let snr :=
        (readUint16 (view.getD 0 0) (view.getD 1 0)).toInt16
      let view := view.drop 2
      let hops := view.getD 0 0
      some
        ({ contact with
            lastHeard := lastHeard
            snr := snr
            hops := hops },
          view.drop 1)
  else some (contact, view)

/- The record at the head of a view, and what follows it. -/
def readContact
    (version : UInt8)
    (view : Bytes) :
    Option (Contact × Bytes) :=
  if view.length < contactFixedSize then none
  else
    let pk := copyInto packetPublicKeySize view
    let view := view.drop packetPublicKeySize
    let timestamp := readUint32 view 0
    let view := view.drop 4
    let type := view.getD 0 0
    let view := view.drop 1
    let hasLocation := decide (view.getD 0 0 ≠ 0)
    let view := view.drop 1
    let latitude := (readUint32 view 0).toInt32
    let view := view.drop 4
    let longitude := (readUint32 view 0).toInt32
    let view := view.drop 4
    let nameLength := (view.getD 0 0).toNat
    let view := view.drop 1
    if maxContactName < nameLength ∨
        view.length < nameLength then
      none
    else
      readHeard version
        { pk := pk
          timestamp := timestamp
          type := type
          hasLocation := hasLocation
          latitude := latitude
          longitude := longitude
          name := view.take nameLength }
        (view.drop nameLength)

/-
  Records up to the end of the view. The number is how many
  the table has room for.
-/
def readContacts
    (version : UInt8) :
    Nat → Bytes → Option (List Contact)
| _, [] => some []
| 0, _ :: _ => none
| room + 1, b :: view => do
    let (contact, view) ← readContact version (b :: view)
    let contacts ← readContacts version room view
    return contact :: contacts

def parseContacts (blob : Bytes) : Option (List Contact) :=
  match blob with
  | [] => none
  | version :: view =>
      if contactsFormatVersion < version ∨
          version < contactsFormatMinVersion then
        none
      else readContacts version maxContacts view

/-
  The contacts of a file take the place of those there are.
  There is no blob where the file could not be read.
-/
def loadContacts
    (store : Store)
    (blob : Option Bytes) :
    Bool × Store :=
  match blob.bind parseContacts with
  | none => (false, store)
  | some contacts =>
      (true,
        { store with
          contacts := contacts
          buckets := reindex contacts })

------------------------------------------------------------
-- What A Record Spells
------------------------------------------------------------

/- What comes before the name, with a flag of its own. -/
def advertBytes (located : UInt8) (contact : Contact) : Bytes :=
  contact.pk.toList ++
    (writeUint32 contact.timestamp ++
      contact.type :: located ::
        (writeUint32 contact.latitude.toUInt32 ++
          writeUint32 contact.longitude.toUInt32))

/- A contact in the bytes of a version. -/
def recordBytes
    (version located : UInt8)
    (contact : Contact) :
    Bytes :=
  advertBytes located contact ++
    UInt8.ofNat contact.name.length ::
      (contact.name ++
        if 2 ≤ version then heardBytes contact else [])

/-
  A record is, byte for byte, what a file of this version
  has of a contact. Any flag but zero says that there is a
  position, and version 1 has nothing on the link.
-/
structure Spells
    (version : UInt8)
    (record : Bytes)
    (contact : Contact) :
    Prop where
  name : contact.name.length ≤ maxContactName
  unheard :
    version < 2 →
      contact.lastHeard = 0 ∧ contact.snr = 0 ∧
        contact.hops = 0
  bytes :
    ∃ located,
      contact.hasLocation = decide (located ≠ 0) ∧
        record = recordBytes version located contact

theorem length_advertBytes
    (located : UInt8) (contact : Contact) :
    (advertBytes located contact).length + 1 =
      contactFixedSize := by
  simp only [advertBytes, contactFixedSize,
    List.length_append, List.length_cons,
    length_writeUint32, Vector.length_toList]

theorem Spells.length_le
    {version : UInt8} {record : Bytes} {contact : Contact}
    (hSpells : Spells version record contact) :
    contactFixedSize ≤ record.length := by
  rcases hSpells.bytes with ⟨located, _, rfl⟩
  have hSize := length_advertBytes located contact
  rw [recordBytes, List.length_append, List.length_cons]
  omega

/- Two bytes at the head of a view, as a number and back. -/
theorem head_readUint16
    {view : Bytes}
    (hLong : 2 ≤ view.length) :
    let value :=
      readUint16 (view.getD 0 0) (view.getD 1 0)
    [value.toUInt8, (value >>> 8).toUInt8] ++ view.drop 2 =
      view := by
  rcases view with _ | ⟨low, _ | ⟨high, rest⟩⟩
  · contradiction
  · simp at hLong
  · simp only [List.getD_cons_zero, List.getD_cons_succ,
      bytes_readUint16]
    rfl

/- What is read of the link is what the bytes spell. -/
theorem readHeard_spelled
    {version : UInt8} {contact heard : Contact}
    {view rest : Bytes}
    (hRead :
      readHeard version contact view = some (heard, rest)) :
    view =
        (if 2 ≤ version then heardBytes heard else []) ++
          rest ∧
      heard =
        { contact with
          lastHeard := heard.lastHeard
          snr := heard.snr
          hops := heard.hops } ∧
      (version < 2 → heard = contact) := by
  unfold readHeard at hRead
  by_cases hVersion : 2 ≤ version
  · simp only [if_pos hVersion] at hRead ⊢
    split_ifs at hRead with hShort
    rw [Nat.not_lt, contactHeardSize] at hShort
    cases hRead
    refine ⟨?_, rfl, fun hOld =>
      absurd hVersion (UInt8.not_le.mpr hOld)⟩
    have hWhen :
        writeUint32 (readUint32 view 0) ++ view.drop 4 =
          view :=
      head_readUint32 (by omega)
    have hLink : 2 + 1 ≤ (view.drop 4).length := by
      rw [List.length_drop]
      omega
    generalize view.drop 4 = link at *
    have hSnr := @head_readUint16 link (by omega)
    dsimp only at hSnr
    have hHops : 1 ≤ (link.drop 2).length := by
      rw [List.length_drop]
      omega
    generalize link.drop 2 = hops at *
    rw [heardBytes, UInt16.toUInt16_toInt16,
      List.append_assoc, List.cons_append,
      List.cons_append, List.cons_append, List.nil_append,
      head_byte hHops]
    rw [List.cons_append, List.cons_append, List.nil_append]
      at hSnr
    rw [hSnr, hWhen]
  · simp only [if_neg hVersion] at hRead ⊢
    cases hRead
    exact ⟨rfl, rfl, fun _ => rfl⟩

/- What the bytes spell of the link is what is read. -/
theorem readHeard_of_spelled
    {version : UInt8} {contact heard : Contact}
    (hSame :
      heard =
        { contact with
          lastHeard := heard.lastHeard
          snr := heard.snr
          hops := heard.hops })
    (hOld : version < 2 → heard = contact)
    (rest : Bytes) :
    readHeard version contact
        ((if 2 ≤ version then heardBytes heard else []) ++
          rest) =
      some (heard, rest) := by
  unfold readHeard
  by_cases hVersion : 2 ≤ version
  · have hSnr :
        (readUint16 heard.snr.toUInt16.toUInt8
          (heard.snr.toUInt16 >>> 8).toUInt8).toInt16 =
            heard.snr := by
      rw [readUint16_bytes, Int16.toInt16_toUInt16]
    have hLong :
        ¬ (heardBytes heard ++ rest).length <
          contactHeardSize := by
      simp only [heardBytes, contactHeardSize,
        List.length_append, length_writeUint32,
        List.length_cons, List.length_nil]
      omega
    simp only [if_pos hVersion, if_neg hLong]
    simp only [heardBytes, List.append_assoc,
      readUint32_writeUint32, drop_writeUint32,
      List.cons_append, List.nil_append,
      List.getD_cons_zero, List.getD_cons_succ, hSnr,
      List.drop_succ_cons, List.drop_zero]
    rw [← hSame]
  · rw [hOld (UInt8.not_le.mp hVersion)]
    simp only [if_neg hVersion]
    rfl

/- What comes before a name is all there, or too short. -/
theorem advertBytes_of_length
    {view : Bytes}
    (hLong : contactFixedSize ≤ view.length) :
    ∃ (located length : UInt8) (advert : Contact)
        (rest : Bytes),
      view = advertBytes located advert ++ length :: rest := by
  simp only [contactFixedSize] at hLong
  have hKey := @head_copyInto packetPublicKeySize view
    (by omega)
  generalize copyInto packetPublicKeySize view = pk at hKey
  generalize view.drop packetPublicKeySize = claims at hKey
  subst hKey
  simp only [List.length_append, Vector.length_toList]
    at hLong
  have hTimestamp := @head_readUint32 claims (by omega)
  generalize readUint32 claims 0 = timestamp at hTimestamp
  generalize claims.drop 4 = flags at hTimestamp
  subst hTimestamp
  simp only [List.length_append, length_writeUint32]
    at hLong
  rcases flags with _ | ⟨type, _ | ⟨located, place⟩⟩
  · simp [packetPublicKeySize] at hLong
  · simp [packetPublicKeySize] at hLong
  simp only [List.length_cons] at hLong
  have hLatitude := @head_readUint32 place (by omega)
  generalize readUint32 place 0 = latitude at hLatitude
  generalize place.drop 4 = beyond at hLatitude
  subst hLatitude
  simp only [List.length_append, length_writeUint32]
    at hLong
  have hLongitude := @head_readUint32 beyond (by omega)
  generalize readUint32 beyond 0 = longitude at hLongitude
  generalize beyond.drop 4 = named at hLongitude
  subst hLongitude
  simp only [List.length_append, length_writeUint32]
    at hLong
  rcases named with _ | ⟨length, rest⟩
  · simp at hLong
  refine
    ⟨located, length,
      { pk := pk
        timestamp := timestamp
        type := type
        latitude := latitude.toInt32
        longitude := longitude.toInt32 },
      rest, ?_⟩
  simp only [advertBytes, UInt32.toUInt32_toInt32,
    List.append_assoc, List.cons_append]

/- The spec of the reader: a name, and what is behind it. -/
theorem readContact_advertBytes
    (version located length : UInt8)
    (advert : Contact)
    (rest : Bytes) :
    readContact version
        (advertBytes located advert ++ length :: rest) =
      if maxContactName < length.toNat ∨
          rest.length < length.toNat then
        none
      else
        readHeard version
          { pk := advert.pk
            timestamp := advert.timestamp
            type := advert.type
            hasLocation := decide (located ≠ 0)
            latitude := advert.latitude
            longitude := advert.longitude
            name := rest.take length.toNat }
          (rest.drop length.toNat) := by
  have hSize := length_advertBytes located advert
  have hLong :
      ¬ (advertBytes located advert ++
          length :: rest).length < contactFixedSize := by
    rw [List.length_append, List.length_cons]
    omega
  unfold readContact
  simp only [if_neg hLong]
  simp only [advertBytes, List.append_assoc,
    List.cons_append, copyInto_toList_append, drop_toList,
    drop_writeUint32, readUint32_writeUint32,
    List.getD_cons_zero, List.drop_succ_cons,
    List.drop_zero, Int32.toInt32_toUInt32]

/- What was read of a record is what its bytes spell. -/
theorem readContact_spelled
    {version : UInt8} {view rest : Bytes}
    {contact : Contact}
    (hRead :
      readContact version view = some (contact, rest)) :
    ∃ record,
      view = record ++ rest ∧
        Spells version record contact := by
  have hLong : contactFixedSize ≤ view.length := by
    unfold readContact at hRead
    split_ifs at hRead with hShort
    exact Nat.le_of_not_lt hShort
  rcases advertBytes_of_length hLong with
    ⟨located, length, advert, named, rfl⟩
  rw [readContact_advertBytes] at hRead
  split_ifs at hRead with hName
  rw [not_or, Nat.not_lt, Nat.not_lt] at hName
  rcases readHeard_spelled hRead with
    ⟨hBytes, hContact, hOld⟩
  have hLength : contact.name.length = length.toNat := by
    rw [hContact]
    exact List.length_take_of_le hName.2
  have hName' : contact.name = named.take length.toNat := by
    rw [hContact]
  have hAdvert :
      advertBytes located contact =
        advertBytes located advert := by
    rw [hContact]
    rfl
  refine ⟨recordBytes version located contact, ?_, ?_⟩
  · rw [recordBytes, hLength, UInt8.ofNat_toNat, hAdvert,
      List.append_assoc, List.cons_append,
      List.append_assoc, ← hBytes, hName',
      List.take_append_drop]
  · exact
      { name := by
          rw [hLength]
          exact hName.1
        unheard := by
          intro hVersion
          rw [hOld hVersion]
          exact ⟨rfl, rfl, rfl⟩
        bytes := ⟨located, by rw [hContact], rfl⟩ }

/- What the bytes of a record spell is what is read. -/
theorem Spells.readContact
    {version : UInt8} {record : Bytes} {contact : Contact}
    (hSpells : Spells version record contact)
    (rest : Bytes) :
    readContact version (record ++ rest) =
      some (contact, rest) := by
  rcases hSpells.bytes with ⟨located, hLocated, rfl⟩
  have hName := hSpells.name
  have hLength :
      (UInt8.ofNat contact.name.length).toNat =
        contact.name.length := by
    rw [UInt8.toNat_ofNat']
    simp only [maxContactName] at hName
    omega
  rw [recordBytes, List.append_assoc, List.cons_append,
    readContact_advertBytes, hLength, List.append_assoc,
    List.take_left, List.drop_left, if_neg]
  · refine readHeard_of_spelled ?_ ?_ rest
    · simp only [← hLocated]
    · intro hVersion
      rcases hSpells.unheard hVersion with
        ⟨hWhen, hSnr, hHops⟩
      rw [← hLocated]
      cases contact
      simp only at hWhen hSnr hHops
      subst hWhen hSnr hHops
      rfl
  · rw [List.length_append]
    omega

------------------------------------------------------------
-- What A File Spells
------------------------------------------------------------

/- A file that is accepted, record by record. -/
theorem readContacts_iff
    {version : UInt8} {room : Nat} {view : Bytes}
    {contacts : List Contact} :
    readContacts version room view = some contacts ↔
      contacts.length ≤ room ∧
        ∃ records,
          view = records.flatten ∧
            List.Forall₂ (Spells version) records
              contacts := by
  constructor
  · intro hRead
    induction room generalizing view contacts with
    | zero =>
        cases view with
        | nil =>
            cases hRead
            exact ⟨Nat.le_refl _, [], rfl, .nil⟩
        | cons b view => cases hRead
    | succ room ih =>
        cases view with
        | nil =>
            cases hRead
            exact ⟨Nat.zero_le _, [], rfl, .nil⟩
        | cons b view =>
            rw [readContacts, Option.bind_eq_bind,
              Option.bind_eq_some_iff] at hRead
            rcases hRead with ⟨⟨contact, next⟩, hFirst, hRest⟩
            rw [Option.bind_eq_bind,
              Option.bind_eq_some_iff] at hRest
            rcases hRest with ⟨more, hMore, hEq⟩
            cases hEq
            rcases readContact_spelled hFirst with
              ⟨record, hView, hSpells⟩
            rcases ih hMore with ⟨hRoom, records, rfl, hAll⟩
            exact ⟨Nat.succ_le_succ hRoom, record :: records,
              hView, .cons hSpells hAll⟩
  · rintro ⟨hRoom, records, rfl, hAll⟩
    induction hAll generalizing room with
    | nil => cases room <;> rfl
    | @cons record contact records contacts hSpells _ ih =>
        have hLong := hSpells.length_le
        rcases room with _ | room
        · simp at hRoom
        have hMore := ih (Nat.le_of_succ_le_succ hRoom)
        have hFirst := hSpells.readContact records.flatten
        rw [List.flatten_cons]
        cases hView : record ++ records.flatten with
        | nil =>
            rw [List.append_eq_nil_iff] at hView
            rw [hView.1] at hLong
            contradiction
        | cons b view =>
            rw [readContacts, ← hView, hFirst]
            simp only [Option.bind_eq_bind,
              Option.bind_some, hMore]
            rfl

/- A whole file of a version, and the contacts in it. -/
def SpellsFile
    (version : UInt8)
    (blob : Bytes)
    (contacts : List Contact) :
    Prop :=
  ∃ records,
    blob = version :: records.flatten ∧
      List.Forall₂ (Spells version) records contacts

/- Nobody in a file of version 1 was ever heard. -/
theorem SpellsFile.unheard
    {blob : Bytes} {contacts : List Contact}
    (hFile : SpellsFile 1 blob contacts) :
    ∀ c ∈ contacts,
      c.lastHeard = 0 ∧ c.snr = 0 ∧ c.hops = 0 := by
  rcases hFile with ⟨records, hBlob, hAll⟩
  clear hBlob
  induction hAll with
  | nil => exact nofun
  | cons hSpells _ ih =>
      rw [List.forall_mem_cons]
      exact ⟨hSpells.unheard (by decide), ih⟩

/- The whole of what is accepted, and as what. -/
theorem parseContacts_iff
    {blob : Bytes} {contacts : List Contact} :
    parseContacts blob = some contacts ↔
      contacts.length ≤ maxContacts ∧
        ∃ version,
          contactsFormatMinVersion ≤ version ∧
            version ≤ contactsFormatVersion ∧
            SpellsFile version blob contacts := by
  cases blob with
  | nil => simp [parseContacts, SpellsFile]
  | cons version view =>
      rw [parseContacts]
      constructor
      · intro hParse
        split_ifs at hParse with hVersion
        rw [not_or, UInt8.not_lt, UInt8.not_lt] at hVersion
        rcases readContacts_iff.mp hParse with
          ⟨hRoom, records, rfl, hAll⟩
        exact ⟨hRoom, version, hVersion.2, hVersion.1,
          records, rfl, hAll⟩
      · rintro
          ⟨hRoom, other, hLow, hHigh, records, hBlob, hAll⟩
        cases hBlob
        rw [if_neg]
        · exact readContacts_iff.mpr
            ⟨hRoom, records, rfl, hAll⟩
        · rw [not_or, UInt8.not_lt, UInt8.not_lt]
          exact ⟨hHigh, hLow⟩

theorem loadContacts_of_parse
    {store : Store} {blob : Bytes} {contacts : List Contact}
    (hParse : parseContacts blob = some contacts) :
    store.loadContacts (some blob) =
      (true,
        { store with
          contacts := contacts
          buckets := reindex contacts }) := by
  rw [loadContacts, Option.bind_some, hParse]

/- A file is accepted exactly when it spells contacts. -/
theorem loadContacts_accepts_iff
    (store : Store) (blob : Bytes) :
    (store.loadContacts (some blob)).1 = true ↔
      ∃ contacts, parseContacts blob = some contacts := by
  rw [loadContacts, Option.bind_some]
  cases parseContacts blob with
  | none => simp
  | some contacts => simp

/- One that is refused leaves everything as it was. -/
theorem loadContacts_of_refused
    {store : Store} {blob : Option Bytes}
    (hRefused : (store.loadContacts blob).1 = false) :
    (store.loadContacts blob).2 = store := by
  unfold loadContacts at hRefused ⊢
  cases hParse : blob.bind parseContacts with
  | none => rfl
  | some contacts => simp [hParse] at hRefused

/- A record that is written spells the contact it is of. -/
theorem spells_contactBytes
    {contact : Contact}
    (hName : contact.name.length ≤ maxContactName) :
    Spells contactsFormatVersion (contactBytes contact)
      contact where
  name := hName
  unheard := fun hOld => absurd hOld (by decide)
  bytes := by
    refine
      ⟨if contact.hasLocation then 1 else 0, ?_, ?_⟩
    · cases contact.hasLocation <;> rfl
    · have hVersion : (2 : UInt8) ≤ contactsFormatVersion := by
        decide
      simp only [contactBytes, recordBytes, advertBytes,
        if_pos hVersion, List.take_of_length_le hName,
        List.append_assoc, List.cons_append]

theorem Exact.spells_writeContacts
    {store : Store}
    (hExact : store.Exact) :
    SpellsFile contactsFormatVersion store.writeContacts
      store.contacts := by
  refine ⟨store.contacts.map contactBytes, ?_, ?_⟩
  · rw [writeContacts, List.flatMap]
  · rw [List.forall₂_map_left_iff, List.forall₂_same]
    intro contact hMem
    exact spells_contactBytes (hExact.names contact hMem)

/- What was saved is what is loaded, into any store. -/
theorem Exact.loadContacts_writeContacts
    {store : Store}
    (hExact : store.Exact)
    (other : Store) :
    other.loadContacts (some store.writeContacts) =
      (true,
        { other with
          contacts := store.contacts
          buckets := store.buckets }) := by
  have hParse :
      parseContacts store.writeContacts =
        some store.contacts :=
    parseContacts_iff.mpr ⟨hExact.bounded,
      contactsFormatVersion, by decide, by decide,
      hExact.spells_writeContacts⟩
  rw [loadContacts_of_parse hParse, hExact.buckets]

/-
  Whatever a store has learned, its file gives it back,
  contact by contact, to whatever store it is loaded into. A
  file of version 1 gives the adverts and nothing on the
  link. A file is accepted when it spells contacts, one
  after another, and no more than there is room for; any
  other leaves the contacts and their index alone.
-/
theorem contacts_survive_the_file
    (selfPk : PublicKey) (selfSk : PrivateKey)
    (uses : List Use) (other : Store) :
    other.loadContacts
          (some (after selfPk selfSk uses).writeContacts) =
        (true,
          { other with
            contacts := (after selfPk selfSk uses).contacts
            buckets := (after selfPk selfSk uses).buckets }) ∧
      (∀ blob contacts,
        SpellsFile 1 blob contacts →
          contacts.length ≤ maxContacts →
            other.loadContacts (some blob) =
                (true,
                  { other with
                    contacts := contacts
                    buckets := reindex contacts }) ∧
              ∀ c ∈ contacts,
                c.lastHeard = 0 ∧ c.snr = 0 ∧
                  c.hops = 0) ∧
      (∀ blob,
        (other.loadContacts (some blob)).1 = true ↔
          ∃ version contacts,
            contactsFormatMinVersion ≤ version ∧
              version ≤ contactsFormatVersion ∧
              contacts.length ≤ maxContacts ∧
              SpellsFile version blob contacts) ∧
      ∀ blob,
        (other.loadContacts blob).1 = false →
          (other.loadContacts blob).2 = other := by
  refine ⟨?_, ?_, ?_, fun _ => loadContacts_of_refused⟩
  · have hExact := exact_after selfPk selfSk uses
    exact hExact.loadContacts_writeContacts other
  · intro blob contacts hFile hRoom
    have hParse :=
      parseContacts_iff.mpr
        ⟨hRoom, 1, by decide, by decide, hFile⟩
    exact ⟨loadContacts_of_parse hParse, hFile.unheard⟩
  · intro blob
    rw [loadContacts_accepts_iff]
    constructor
    · rintro ⟨contacts, hParse⟩
      rcases parseContacts_iff.mp hParse with
        ⟨hRoom, version, hLow, hHigh, hFile⟩
      exact ⟨version, contacts, hLow, hHigh, hRoom, hFile⟩
    · rintro ⟨version, contacts, hLow, hHigh, hRoom, hFile⟩
      exact ⟨contacts, parseContacts_iff.mpr
        ⟨hRoom, version, hLow, hHigh, hFile⟩⟩

end Store

end MeshCore
