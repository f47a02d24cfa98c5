import MeshCore.Identity.Store
import MeshCore.Library.Table
import Mathlib.Data.List.Find
import Mathlib.Data.List.Induction

/-
  The index of the contacts: what is found through it, and
  that it stays right whatever is learned.

  Key definitions include:
    * `Store.contactOf`
    * `Store.Indexed`
    * `Store.HasNeighbour`

  Key facts include:
    * `Store.reindex_eq`
    * `Store.Indexed.remember`, `Store.Indexed.noteHeard`
    * `Store.Indexed.contactOf_remember`
    * `Store.Indexed.mem_neighbours_iff`
-/

namespace MeshCore

------------------------------------------------------------
-- The Index
------------------------------------------------------------

namespace Store

/- The contact of a key. -/
def contactOf
    (store : Store)
    (pk : PublicKey) :
    Option Contact :=
  (store.find pk).bind (store.contacts[·]?)

/- Rows are in the table, and each is found by its key. -/
structure Indexed (store : Store) : Prop where
  rows :
    ∀ hash, ∀ row ∈ store.buckets hash,
      row < store.contacts.length
  found :
    ∀ row c,
      store.contacts[row]? = some c →
        store.find c.pk = some row

theorem indexed_new
    (selfPk : PublicKey) (selfSk : PrivateKey) :
    Indexed { selfPk := selfPk, selfSk := selfSk } where
  rows := by simp
  found := by simp

/- What `find` returns is a row with that key. -/
theorem find_eq_some
    {store : Store} {pk : PublicKey} {row : Nat}
    (hFind : store.find pk = some row) :
    ∃ c, store.contacts[row]? = some c ∧ c.pk = pk := by
  have hHere := List.find?_some hFind
  cases hRow : store.contacts[row]? with
  | none => simp [hRow] at hHere
  | some c =>
      refine ⟨c, rfl, ?_⟩
      simpa [hRow] using hHere

/- A key that is not found is not in the table. -/
theorem Indexed.not_mem
    {store : Store} {pk : PublicKey}
    (hIndexed : store.Indexed)
    (hFind : store.find pk = none) :
    ∀ c ∈ store.contacts, c.pk ≠ pk := by
  rintro c hc rfl
  rcases List.mem_iff_getElem?.mp hc with ⟨row, hRow⟩
  rw [hIndexed.found row c hRow] at hFind
  contradiction

/- No key is in the table twice. -/
theorem Indexed.unique
    {store : Store} {i j : Nat} {c d : Contact}
    (hIndexed : store.Indexed)
    (hI : store.contacts[i]? = some c)
    (hJ : store.contacts[j]? = some d)
    (hSame : c.pk = d.pk) :
    i = j := by
  have hFirst := hIndexed.found i c hI
  have hSecond := hIndexed.found j d hJ
  rw [hSame, hSecond] at hFirst
  exact (Option.some.inj hFirst).symm

/- Looking up depends on the keys and the index alone. -/
theorem find_withContacts
    {store : Store} {contacts : List Contact}
    (hKeys :
      contacts.map Contact.pk =
        store.contacts.map Contact.pk)
    (pk : PublicKey) :
    Store.find { store with contacts := contacts } pk =
      store.find pk := by
  have hRow :
      ∀ row : Nat,
        (contacts[row]?).any
            (fun c : Contact => c.pk == pk) =
          (store.contacts[row]?).any fun c : Contact =>
            c.pk == pk := by
    intro row
    have hThis := congrArg (·[row]?) hKeys
    simp only [List.getElem?_map] at hThis
    cases hOld : store.contacts[row]? <;>
      cases hNew : contacts[row]? <;>
        simp_all
  simp only [find, hRow]

theorem Indexed.withContacts
    {store : Store} {contacts : List Contact}
    (hIndexed : store.Indexed)
    (hKeys :
      contacts.map Contact.pk =
        store.contacts.map Contact.pk) :
    Indexed { store with contacts := contacts } := by
  have hLength := congrArg List.length hKeys
  simp only [List.length_map] at hLength
  constructor
  · simp only [hLength]
    exact hIndexed.rows
  · intro row c hRow
    rw [find_withContacts hKeys]
    have hThis := congrArg (·[row]?) hKeys
    simp only at hRow
    simp only [List.getElem?_map, hRow, Option.map_some]
      at hThis
    rcases Option.map_eq_some_iff.mp hThis.symm with
      ⟨old, hOld, hPk⟩
    rw [← hPk]
    exact hIndexed.found row old hOld

/- What was heard of a contact leaves the keys alone. -/
theorem keys_heard
    (contacts : List Contact) (row : Nat)
    (wall : UInt32) (snr : Int16) (hops : UInt8) :
    (contacts.modify row fun c =>
        { c with lastHeard := wall, snr := snr,
                 hops := hops }).map Contact.pk =
      contacts.map Contact.pk := by
  apply Table.map_modify
  exact fun _ => rfl

theorem Indexed.noteHeard
    {store : Store}
    (hIndexed : store.Indexed)
    (pk : PublicKey) (wall : UInt32)
    (snr : Int16) (hops : UInt8) :
    (store.noteHeard pk wall snr hops).Indexed := by
  unfold Store.noteHeard
  cases store.find pk with
  | none => exact hIndexed
  | some row =>
      have hKeys :=
        keys_heard store.contacts row wall snr hops
      exact hIndexed.withContacts hKeys

/- The rebuilt index has the rows of each hash in order. -/
theorem reindex_eq
    (contacts : List Contact)
    (hash : UInt8) :
    reindex contacts hash =
      (List.range contacts.length).filter fun row =>
        (contacts[row]?).any (·.hash == hash) := by
  induction contacts using List.reverseRecOn with
  | nil => rfl
  | append_singleton contacts c ih =>
      have hOld :
          (List.range contacts.length).filter
              (fun row =>
                ((contacts ++ [c])[row]?).any
                  (·.hash == hash)) =
            (List.range contacts.length).filter
              fun row =>
                (contacts[row]?).any (·.hash == hash) := by
        apply List.filter_congr
        intro row hRow
        rw [List.getElem?_append_left
          (List.mem_range.mp hRow)]
      simp only [reindex, List.zipIdx_append,
        List.foldl_append, List.length_append,
        List.length_singleton, List.range_succ,
        List.filter_append, hOld]
      simp only [reindex] at ih
      by_cases hHash : hash = c.hash
      · subst hHash
        simp [indexContact, ih]
      · have hOther : ¬ c.hash = hash :=
          fun h => hHash h.symm
        simp [indexContact, hHash, hOther, ih]

/- A rebuilt index is one, where no key is there twice. -/
theorem indexed_reindex
    (store : Store)
    (contacts : List Contact)
    (hNodup : (contacts.map Contact.pk).Nodup) :
    Indexed
      { store with
        contacts := contacts
        buckets := reindex contacts } := by
  generalize hStore :
      ({ store with
          contacts := contacts
          buckets := reindex contacts } : Store) = rebuilt
  have hContacts : contacts = rebuilt.contacts := by
    rw [← hStore]
  have hBuckets :
      rebuilt.buckets = reindex rebuilt.contacts := by
    rw [← hStore]
  rw [hContacts] at hNodup
  constructor
  · intro hash row hRow
    rw [hBuckets, reindex_eq] at hRow
    exact List.mem_range.mp (List.mem_filter.mp hRow).1
  · intro row c hRow
    have hBound := (List.getElem?_eq_some_iff.mp hRow).1
    have hHere :
        row ∈ rebuilt.buckets (PublicKey.hash c.pk) := by
      rw [hBuckets, reindex_eq]
      apply List.mem_filter.mpr
      refine ⟨List.mem_range.mpr hBound, ?_⟩
      simp [hRow, Contact.hash]
    cases hFind : rebuilt.find c.pk with
    | none =>
        have hNone := List.find?_eq_none.mp hFind row hHere
        simp [hRow] at hNone
    | some other =>
        rcases find_eq_some hFind with ⟨d, hOther, hPk⟩
        -- the same key in two rows is in one row
        have hKeys :
            (rebuilt.contacts.map Contact.pk)[other]? =
              (rebuilt.contacts.map Contact.pk)[row]? := by
          simp only [List.getElem?_map, hOther, hRow,
            Option.map_some, hPk]
        have hOtherBound :=
          (List.getElem?_eq_some_iff.mp hOther).1
        have hSame :=
          List.getElem?_inj (by simpa using hOtherBound)
            hNodup |>.mp hKeys
        rw [hSame]

theorem Indexed.nodup
    {store : Store}
    (hIndexed : store.Indexed) :
    (store.contacts.map Contact.pk).Nodup := by
  apply List.nodup_iff_injective_getElem.mpr
  rintro ⟨i, hi⟩ ⟨j, hj⟩ hSame
  rw [List.length_map] at hi hj
  simp only [List.getElem_map] at hSame
  have hEq :=
    hIndexed.unique (List.getElem?_eq_getElem hi)
      (List.getElem?_eq_getElem hj) hSame
  exact Fin.ext hEq

/- A contact behind the last one, entered in the index. -/
theorem Indexed.append
    {store : Store} {fresh : Contact}
    (hIndexed : store.Indexed)
    (hNew : store.find fresh.pk = none) :
    Indexed
      { store with
        contacts := store.contacts ++ [fresh]
        buckets :=
          indexContact store.buckets store.contacts.length
            fresh } := by
  constructor
  · intro hash row hRow
    simp only [List.length_append, List.length_singleton,
      indexContact] at hRow ⊢
    split at hRow
    · rcases List.mem_append.mp hRow with hOld | hLast
      · have hBound := hIndexed.rows hash row hOld
        omega
      · rw [List.mem_singleton.mp hLast]
        omega
    · have hBound := hIndexed.rows hash row hRow
      omega
  · intro row c hRow
    -- rows that were there say what they said
    have hSame :
        ∀ (pk : PublicKey) (hash : UInt8),
          (store.buckets hash).find? (fun row =>
            ((store.contacts ++ [fresh])[row]?).any
              (fun c : Contact => c.pk == pk)) =
          (store.buckets hash).find? fun row =>
            (store.contacts[row]?).any
              fun c : Contact => c.pk == pk := by
      intro pk hash
      apply List.find?_congr
      intro row hMem
      rw [List.getElem?_append_left
        (hIndexed.rows hash row hMem)]
    simp only [find, indexContact] at hNew ⊢
    by_cases hLast : row = store.contacts.length
    · subst hLast
      have hFresh : c = fresh := by
        simpa using hRow.symm
      subst hFresh
      have hHash : PublicKey.hash c.pk = c.hash := rfl
      simp only [hHash] at hNew ⊢
      rw [if_true, List.find?_append, hSame, hNew]
      simp
    · have hBound :
          row < store.contacts.length := by
        have hIn := (List.getElem?_eq_some_iff.mp hRow).1
        simp only [List.length_append,
          List.length_singleton] at hIn
        omega
      simp only [List.getElem?_append_left hBound] at hRow
      have hFound := hIndexed.found row c hRow
      simp only [find] at hFound
      split
      · rw [List.find?_append, hSame, hFound]
        rfl
      · rw [hSame, hFound]

/- The oldest row is a row. -/
theorem oldestRow_lt
    {contacts : List Contact}
    (hSome : 0 < contacts.length) :
    oldestRow contacts < contacts.length := by
  unfold oldestRow
  apply List.foldlRecOn
    (motive := fun oldest => oldest < contacts.length)
  · exact hSome
  · intro oldest hOldest row hRow
    split
    · exact List.mem_range.mp hRow
    · exact hOldest

/- Appdata is about what an author says of itself. -/
theorem applyAppdata_eq (c : Contact) (appdata : Bytes) :
    ∃ (type : UInt8) (hasLocation : Bool)
        (latitude longitude : Int32) (name : Bytes),
      name.length ≤ maxContactName ∧
        applyAppdata c appdata =
          { c with
            type := type
            hasLocation := hasLocation
            latitude := latitude
            longitude := longitude
            name := name } := by
  cases appdata with
  | nil => exact ⟨_, _, _, _, [], Nat.zero_le _, rfl⟩
  | cons flags rest =>
      simp only [applyAppdata]
      split
      · exact ⟨_, _, _, _, [], Nat.zero_le _, rfl⟩
      next located offset hLocated =>
        have hPlace :
            ∃ type hasLocation latitude longitude,
              located =
                { c with
                  type := type
                  hasLocation := hasLocation
                  latitude := latitude
                  longitude := longitude
                  name := [] } := by
          split_ifs at hLocated
          · cases hLocated
            exact ⟨_, _, _, _, rfl⟩
          · cases hLocated
            exact ⟨_, _, _, _, rfl⟩
        rcases hPlace with
          ⟨type, hasLocation, latitude, longitude, rfl⟩
        split
        · exact ⟨_, _, _, _, [], Nat.zero_le _, rfl⟩
        · split
          · exact ⟨_, _, _, _, [], Nat.zero_le _, rfl⟩
          · exact ⟨_, _, _, _, _, List.length_take_le _ _,
              rfl⟩

@[simp] theorem pk_applyAppdata
    (c : Contact) (appdata : Bytes) :
    (applyAppdata c appdata).pk = c.pk := by
  rcases applyAppdata_eq c appdata with
    ⟨type, hasLocation, latitude, longitude, name, _, hEq⟩
  rw [hEq]

@[simp] theorem timestamp_applyAppdata
    (c : Contact) (appdata : Bytes) :
    (applyAppdata c appdata).timestamp = c.timestamp := by
  rcases applyAppdata_eq c appdata with
    ⟨type, hasLocation, latitude, longitude, name, _, hEq⟩
  rw [hEq]

theorem length_name_applyAppdata
    (c : Contact) (appdata : Bytes) :
    (applyAppdata c appdata).name.length ≤
      maxContactName := by
  rcases applyAppdata_eq c appdata with
    ⟨type, hasLocation, latitude, longitude, name, hName,
      hEq⟩
  rw [hEq]
  exact hName

@[simp] theorem pk_bare (pk : PublicKey) :
    (Contact.bare pk).pk = pk :=
  rfl

/- A row may be rewritten if its key is kept. -/
theorem keys_set
    {contacts : List Contact} {row : Nat}
    {known c : Contact}
    (hRow : contacts[row]? = some known)
    (hPk : c.pk = known.pk) :
    (contacts.set row c).map Contact.pk =
      contacts.map Contact.pk := by
  rw [List.map_set, hPk]
  apply List.ext_getElem?
  intro i
  rw [List.getElem?_set]
  by_cases hHere : row = i
  · subst hHere
    rcases List.getElem?_eq_some_iff.mp hRow with
      ⟨hBound, hAt⟩
    simp [hBound, hAt]
  · rw [if_neg hHere]

------------------------------------------------------------
-- What An Advert Does
------------------------------------------------------------

/- What is known of an author after an advert. -/
def learned (before : Contact) (advert : Advert) : Contact :=
  applyAppdata
    { before with timestamp := advert.timestamp }
    advert.appdata

@[simp] theorem pk_learned
    (before : Contact) (advert : Advert) :
    (learned before advert).pk = before.pk :=
  pk_applyAppdata _ _

@[simp] theorem timestamp_learned
    (before : Contact) (advert : Advert) :
    (learned before advert).timestamp = advert.timestamp :=
  timestamp_applyAppdata _ _

/- The key that an advert is by. -/
def author (advert : Advert) : PublicKey :=
  copyInto _ advert.publicKey

/- All that `remember` can do. -/
inductive Remembered
    (store : Store)
    (advert : Advert) :
    Update → Store → Prop where
| rejected
    (hKey :
      advert.publicKey.length ≠ packetPublicKeySize) :
    Remembered store advert .rejected store
| stale
    {row : Nat} {known : Contact}
    (hFind : store.find (author advert) = some row)
    (hRow : store.contacts[row]? = some known)
    (hPk : known.pk = author advert)
    (hStale : advert.timestamp ≤ known.timestamp) :
    Remembered store advert .stale store
| updated
    {row : Nat} {known : Contact}
    (hFind : store.find (author advert) = some row)
    (hRow : store.contacts[row]? = some known)
    (hPk : known.pk = author advert)
    (hNewer : known.timestamp < advert.timestamp) :
    Remembered store advert .updated
      { store with
        contacts :=
          store.contacts.set row (learned known advert) }
| added
    (hFind : store.find (author advert) = none)
    (hRoom : store.contacts.length < maxContacts) :
    Remembered store advert .added
      { store with
        contacts :=
          store.contacts ++
            [learned (.bare (author advert)) advert]
        buckets :=
          indexContact store.buckets store.contacts.length
            (learned (.bare (author advert)) advert) }
| evicted
    (hFind : store.find (author advert) = none)
    (hFull : maxContacts ≤ store.contacts.length) :
    Remembered store advert .added
      { store with
        contacts :=
          store.contacts.set (oldestRow store.contacts)
            (learned (.bare (author advert)) advert)
        buckets :=
          reindex
            (store.contacts.set (oldestRow store.contacts)
              (learned (.bare (author advert)) advert)) }

theorem remember_cases (store : Store) (advert : Advert) :
    Remembered store advert (store.remember advert).1
      (store.remember advert).2 := by
  by_cases hKey :
      advert.publicKey.length ≠ packetPublicKeySize
  · simp only [Store.remember, if_pos hKey]
    exact .rejected hKey
  simp only [Store.remember, if_neg hKey]
  cases hFind : store.find (author advert) with
  | some row =>
      have hFind' := hFind
      rw [author] at hFind'
      rcases find_eq_some hFind with ⟨known, hRow, hPk⟩
      simp only [hFind', hRow]
      by_cases hStale : advert.timestamp ≤ known.timestamp
      · rw [if_pos hStale]
        exact .stale hFind hRow hPk hStale
      · rw [if_neg hStale]
        exact .updated hFind hRow hPk
          (UInt32.not_le.mp hStale)
  | none =>
      have hFind' := hFind
      rw [author] at hFind'
      simp only [hFind']
      by_cases hRoom : store.contacts.length < maxContacts
      · rw [if_pos hRoom]
        exact .added hFind hRoom
      · rw [if_neg hRoom]
        exact .evicted hFind (Nat.le_of_not_lt hRoom)

theorem oldestRow_lt_of_full
    {contacts : List Contact}
    (hFull : maxContacts ≤ contacts.length) :
    oldestRow contacts < contacts.length := by
  apply oldestRow_lt
  simp only [maxContacts] at hFull
  omega

/- A new contact in the place of another keeps keys apart. -/
theorem Indexed.nodup_set
    {store : Store} {fresh : Contact}
    (hIndexed : store.Indexed)
    (hFind : store.find fresh.pk = none)
    (row : Nat) :
    ((store.contacts.set row fresh).map
      Contact.pk).Nodup := by
  rw [List.map_set]
  apply hIndexed.nodup.set
  intro hMem
  rcases List.mem_map.mp hMem with ⟨c, hc, hSame⟩
  exact hIndexed.not_mem hFind c hc hSame

/- The store stays indexed. -/
theorem Indexed.remembered
    {store store' : Store} {advert : Advert}
    {update : Update}
    (hIndexed : store.Indexed)
    (hRemembered :
      Remembered store advert update store') :
    store'.Indexed := by
  cases hRemembered with
  | rejected hKey => exact hIndexed
  | stale hFind hRow hPk hStale => exact hIndexed
  | updated hFind hRow hPk hNewer =>
      exact hIndexed.withContacts (keys_set hRow (by simp))
  | added hFind hRoom =>
      exact hIndexed.append (by simpa using hFind)
  | evicted hFind hFull =>
      exact indexed_reindex store _
        (hIndexed.nodup_set (by simpa using hFind) _)

/- The author has a row, an old one or one just learned. -/
theorem Remembered.present
    {store store' : Store} {advert : Advert}
    {update : Update}
    (hRemembered : Remembered store advert update store')
    (hKey :
      advert.publicKey.length = packetPublicKeySize) :
    ∃ (row : Nat) (c : Contact),
      store'.contacts[row]? = some c ∧
        c.pk = author advert ∧
        ((store.contacts[row]? = some c ∧
            advert.timestamp ≤ c.timestamp) ∨
          ∃ before : Contact,
            before.pk = author advert ∧
              c = learned before advert) := by
  cases hRemembered with
  | rejected hOther => exact absurd hKey hOther
  | @stale row known hFind hRow hPk hStale =>
      exact ⟨row, known, hRow, hPk, .inl ⟨hRow, hStale⟩⟩
  | @updated row known hFind hRow hPk hNewer =>
      have hBound := (List.getElem?_eq_some_iff.mp hRow).1
      exact ⟨row, learned known advert,
        List.getElem?_set_self hBound, by simp [hPk],
        .inr ⟨known, hPk, rfl⟩⟩
  | added hFind hRoom =>
      exact ⟨store.contacts.length, _,
        List.getElem?_concat_length, by simp,
        .inr ⟨.bare (author advert), rfl, rfl⟩⟩
  | evicted hFind hFull =>
      exact ⟨oldestRow store.contacts, _,
        List.getElem?_set_self (oldestRow_lt_of_full hFull),
        by simp, .inr ⟨.bare (author advert), rfl, rfl⟩⟩

/- The store stays indexed, and the author is found in it. -/
theorem Indexed.remember
    {store : Store} {advert : Advert}
    (hIndexed : store.Indexed)
    (hKey :
      advert.publicKey.length = packetPublicKeySize) :
    (store.remember advert).2.Indexed ∧
      ((store.remember advert).2.find
        (copyInto _ advert.publicKey)).isSome = true := by
  have hCases := remember_cases store advert
  have hNext := hIndexed.remembered hCases
  rcases hCases.present hKey with ⟨row, c, hRow, hPk, _⟩
  have hFound := hNext.found row c hRow
  rw [hPk, author] at hFound
  refine ⟨hNext, ?_⟩
  rw [hFound]
  rfl

/- A row of the table is what its key leads to. -/
theorem Indexed.contactOf_eq
    {store : Store} {row : Nat} {c : Contact}
    (hIndexed : store.Indexed)
    (hRow : store.contacts[row]? = some c) :
    store.contactOf c.pk = some c := by
  rw [contactOf, hIndexed.found row c hRow,
    Option.bind_some, hRow]

/- An advert that is not stale is what is known after it. -/
theorem Indexed.contactOf_remember
    {store : Store} {advert : Advert}
    (hIndexed : store.Indexed)
    (hKey :
      advert.publicKey.length = packetPublicKeySize)
    (hNewer :
      ∀ known,
        store.contactOf (copyInto _ advert.publicKey) =
            some known →
          known.timestamp < advert.timestamp) :
    ∃ before : Contact,
      before.pk = copyInto _ advert.publicKey ∧
        before.timestamp = advert.timestamp ∧
        (store.remember advert).2.contactOf
            (copyInto _ advert.publicKey) =
          some (applyAppdata before advert.appdata) := by
  have hCases := remember_cases store advert
  have hNext := hIndexed.remembered hCases
  rcases hCases.present hKey with
    ⟨row, c, hRow, hPk, hOld | ⟨before, hBefore, rfl⟩⟩
  · have hKnown := hIndexed.contactOf_eq hOld.1
    rw [hPk] at hKnown
    exact absurd (hNewer c hKnown)
      (UInt32.not_lt.mpr hOld.2)
  · have hContact := hNext.contactOf_eq hRow
    rw [hPk] at hContact
    exact ⟨{ before with timestamp := advert.timestamp },
      hBefore, rfl, hContact⟩

/- One that is as old as what is known changes nothing. -/
theorem remember_of_stale
    {store : Store} {advert : Advert} {known : Contact}
    (hKnown :
      store.contactOf (copyInto _ advert.publicKey) =
        some known)
    (hStale : advert.timestamp ≤ known.timestamp) :
    (store.remember advert).2 = store := by
  rw [contactOf] at hKnown
  unfold Store.remember
  split
  · rfl
  · cases hFind :
        store.find (copyInto _ advert.publicKey) with
    | none => simp [hFind] at hKnown
    | some row =>
        rw [hFind, Option.bind_some] at hKnown
        simp only [hFind, hKnown, if_pos hStale]

/- Noting how a contact was heard is about that alone. -/
theorem contactOf_noteHeard_eq
    {store : Store} {pk : PublicKey} {c : Contact}
    (hContact : store.contactOf pk = some c)
    (wall : UInt32) (snr : Int16) (hops : UInt8) :
    (store.noteHeard pk wall snr hops).contactOf pk =
      some
        { c with lastHeard := wall, snr := snr,
                 hops := hops } := by
  rw [contactOf] at hContact
  cases hFind : store.find pk with
  | none => simp [hFind] at hContact
  | some row =>
      rw [hFind, Option.bind_some] at hContact
      have hKeys :=
        keys_heard store.contacts row wall snr hops
      have hSame :
          (store.noteHeard pk wall snr hops).find pk =
            some row := by
        rw [← hFind]
        simp only [Store.noteHeard, hFind]
        rw [find_withContacts hKeys, hFind]
      rw [contactOf, hSame]
      simp [Store.noteHeard, hFind, hContact]

/- Whoever is found is noted as just heard. -/
theorem contactOf_noteHeard
    {store : Store} {pk : PublicKey}
    (hFound : (store.find pk).isSome = true)
    (wall : UInt32) (snr : Int16) (hops : UInt8) :
    ∃ c,
      (store.noteHeard pk wall snr hops).contactOf pk =
          some c ∧
        c.pk = pk ∧
        c.lastHeard = wall ∧
        c.hops = hops := by
  rcases Option.isSome_iff_exists.mp hFound with
    ⟨row, hFind⟩
  rcases find_eq_some hFind with ⟨known, hRow, hPk⟩
  have hContact : store.contactOf pk = some known := by
    rw [contactOf, hFind, Option.bind_some, hRow]
  exact ⟨_, contactOf_noteHeard_eq hContact wall snr hops,
    hPk, rfl, rfl⟩

/- Whether the contact of a key is a neighbour. -/
def HasNeighbour (store : Store) (pk : PublicKey) : Prop :=
  ∃ c, store.contactOf pk = some c ∧ c.isNeighbour = true

instance (store : Store) (pk : PublicKey) :
    Decidable (store.HasNeighbour pk) :=
  decidable_of_iff
    ((store.contactOf pk).any Contact.isNeighbour = true)
    (Option.any_eq_true _ _)

/- With room for all of them, the list has every neighbour. -/
theorem Indexed.mem_neighbours_iff
    {store : Store} {limit : Nat}
    (hIndexed : store.Indexed)
    (hLimit : store.contacts.length ≤ limit)
    (pk : PublicKey) :
    (∃ c ∈ store.neighbours limit, c.pk = pk) ↔
      store.HasNeighbour pk := by
  have hAll :
      ∀ c,
        c ∈ store.neighbours limit ↔
          c ∈ store.contacts ∧ c.isNeighbour = true := by
    intro c
    unfold neighbours
    rw [List.take_of_length_le (by
      rw [List.length_insertionSort]
      exact Nat.le_trans (List.length_filter_le _ _) hLimit),
      List.mem_insertionSort, List.mem_filter]
  constructor
  · rintro ⟨c, hc, rfl⟩
    rcases (hAll c).mp hc with ⟨hMem, hNeighbour⟩
    rcases List.mem_iff_getElem?.mp hMem with ⟨row, hRow⟩
    refine ⟨c, ?_, hNeighbour⟩
    rw [contactOf, hIndexed.found row c hRow]
    exact hRow
  · rintro ⟨c, hContact, hNeighbour⟩
    rcases Option.bind_eq_some_iff.mp hContact with
      ⟨row, hFind, hRow⟩
    rcases find_eq_some hFind with ⟨d, hThere, hPk⟩
    rw [hRow] at hThere
    rw [← Option.some.inj hThere] at hPk
    exact ⟨c, (hAll c).mpr
      ⟨List.mem_of_getElem? hRow, hNeighbour⟩, hPk⟩

end Store

end MeshCore
