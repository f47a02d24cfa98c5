import MeshCore.Identity.Index
import MeshCore.Library.Least
import MeshCore.Library.Run
import MeshCore.Library.Table

/-
  The table of the contacts and its buckets, whatever is
  learned and in whatever order: every bucket is what it
  would be if the index were built anew.

  Key definitions include:
    * `Store.Exact`
    * `Store.Use`, `Store.use`, `Store.after`

  Key facts include:
    * `Store.Exact.remember`, `Store.Exact.noteHeard`
    * `Store.Exact.mem_buckets_iff`
    * `Store.Exact.contactOf_eq_some_iff`
    * `Store.oldestRow_isFirst`
    * `Store.Remembered.evicts`
-/

namespace MeshCore

namespace Store

------------------------------------------------------------
-- Exactness
------------------------------------------------------------

/- A table within its limits, with the index of its rows. -/
structure Exact (store : Store) : Prop where
  buckets : store.buckets = reindex store.contacts
  keys : (store.contacts.map Contact.pk).Nodup
  bounded : store.contacts.length ≤ maxContacts
  names :
    ∀ c ∈ store.contacts, c.name.length ≤ maxContactName

theorem exact_new
    (selfPk : PublicKey) (selfSk : PrivateKey) :
    Exact { selfPk := selfPk, selfSk := selfSk } where
  buckets := rfl
  keys := List.nodup_nil
  bounded := Nat.zero_le _
  names := nofun

/- What is put into a store, with its index. -/
theorem exact_reindex
    (store : Store)
    {contacts : List Contact}
    (hKeys : (contacts.map Contact.pk).Nodup)
    (hBounded : contacts.length ≤ maxContacts)
    (hNames :
      ∀ c ∈ contacts, c.name.length ≤ maxContactName) :
    Exact
      { store with
        contacts := contacts
        buckets := reindex contacts } :=
  ⟨rfl, hKeys, hBounded, hNames⟩

theorem Exact.indexed
    {store : Store}
    (hExact : store.Exact) :
    store.Indexed := by
  have hIndexed :=
    indexed_reindex store store.contacts hExact.keys
  rw [← hExact.buckets] at hIndexed
  exact hIndexed

/- The rows of a bucket are those of its hash, each once. -/
theorem Exact.mem_buckets_iff
    {store : Store}
    (hExact : store.Exact)
    (hash : UInt8) :
    (store.buckets hash).Nodup ∧
      ∀ row,
        row ∈ store.buckets hash ↔
          ∃ c, store.contacts[row]? = some c ∧
            PublicKey.hash c.pk = hash := by
  rw [hExact.buckets, reindex_eq]
  refine ⟨List.nodup_range.filter _, ?_⟩
  intro row
  rw [List.mem_filter, List.mem_range,
    Option.any_eq_true]
  constructor
  · rintro ⟨_, c, hRow, hHash⟩
    exact ⟨c, hRow, by simpa [Contact.hash] using hHash⟩
  · rintro ⟨c, hRow, hHash⟩
    exact ⟨(List.getElem?_eq_some_iff.mp hRow).1, c, hRow,
      by simpa [Contact.hash] using hHash⟩

/- A contact is found by its key, if it is there at all. -/
theorem Exact.contactOf_eq_some_iff
    {store : Store}
    (hExact : store.Exact)
    (pk : PublicKey) (c : Contact) :
    store.contactOf pk = some c ↔
      c ∈ store.contacts ∧ c.pk = pk := by
  constructor
  · intro hContact
    rcases Option.bind_eq_some_iff.mp hContact with
      ⟨row, hFind, hRow⟩
    rcases find_eq_some hFind with ⟨d, hThere, hPk⟩
    rw [hRow] at hThere
    cases hThere
    exact ⟨List.mem_of_getElem? hRow, hPk⟩
  · rintro ⟨hMem, rfl⟩
    rcases List.mem_iff_getElem?.mp hMem with ⟨row, hRow⟩
    exact hExact.indexed.contactOf_eq hRow

------------------------------------------------------------
-- What Is Learned Fits
------------------------------------------------------------

/- An index that is built row by row is built anew. -/
theorem reindex_append
    (contacts : List Contact) (fresh : Contact) :
    reindex (contacts ++ [fresh]) =
      indexContact (reindex contacts) contacts.length
        fresh := by
  simp only [reindex, List.zipIdx_append, Nat.zero_add,
    List.foldl_append]
  rfl

/- It depends on the keys alone. -/
theorem reindex_congr
    {contacts contacts' : List Contact}
    (hKeys :
      contacts'.map Contact.pk =
        contacts.map Contact.pk) :
    reindex contacts' = reindex contacts := by
  funext hash
  have hLength := congrArg List.length hKeys
  simp only [List.length_map] at hLength
  rw [reindex_eq, reindex_eq, hLength]
  apply List.filter_congr
  intro row _
  have hThis := congrArg (·[row]?) hKeys
  simp only [List.getElem?_map] at hThis
  cases hOld : contacts[row]? with
  | none => simp_all
  | some c =>
      rw [hOld] at hThis
      rcases Option.map_eq_some_iff.mp hThis with
        ⟨d, hNew, hPk⟩
      rw [hNew, Option.any_some, Option.any_some,
        Contact.hash, Contact.hash, hPk]

/- Contacts may change in all but their keys. -/
theorem Exact.withContacts
    {store : Store} {contacts : List Contact}
    (hExact : store.Exact)
    (hKeys :
      contacts.map Contact.pk =
        store.contacts.map Contact.pk)
    (hNames :
      ∀ c ∈ contacts, c.name.length ≤ maxContactName) :
    Exact { store with contacts := contacts } where
  buckets := by
    rw [reindex_congr hKeys]
    exact hExact.buckets
  keys := by
    rw [hKeys]
    exact hExact.keys
  bounded := by
    have hLength := congrArg List.length hKeys
    rw [List.length_map, List.length_map] at hLength
    rw [hLength]
    exact hExact.bounded
  names := hNames

/- The names of a table with one row replaced. -/
theorem Exact.names_set
    {store : Store}
    (hExact : store.Exact)
    (row : Nat) (before : Contact) (advert : Advert) :
    ∀ c ∈ store.contacts.set row (learned before advert),
      c.name.length ≤ maxContactName := by
  intro c hMem
  rcases List.mem_or_eq_of_mem_set hMem with hOld | rfl
  · exact hExact.names c hOld
  · exact length_name_applyAppdata _ _

/- The step lemma of adverts. -/
theorem Exact.remembered
    {store store' : Store} {advert : Advert}
    {update : Update}
    (hExact : store.Exact)
    (hRemembered :
      Remembered store advert update store') :
    store'.Exact := by
  cases hRemembered with
  | rejected hKey => exact hExact
  | stale hFind hRow hPk hStale => exact hExact
  | updated hFind hRow hPk hNewer =>
      exact hExact.withContacts (keys_set hRow (by simp))
        (hExact.names_set _ _ _)
  | added hFind hRoom =>
      have hFresh :
          store.find
              (learned (.bare (author advert)) advert).pk =
            none := by
        simpa using hFind
      have hKeys :=
        (hExact.indexed.append hFresh).nodup
      refine ⟨?_, hKeys, ?_, ?_⟩
      · rw [reindex_append, ← hExact.buckets]
      · rw [List.length_append]
        exact hRoom
      · intro c hMem
        rcases List.mem_append.mp hMem with hOld | hNew
        · exact hExact.names c hOld
        · rw [List.mem_singleton.mp hNew]
          exact length_name_applyAppdata _ _
  | evicted hFind hFull =>
      apply exact_reindex store
      · exact hExact.indexed.nodup_set
          (by simpa using hFind) _
      · rw [List.length_set]
        exact hExact.bounded
      · exact hExact.names_set _ _ _

theorem Exact.remember
    {store : Store}
    (hExact : store.Exact)
    (advert : Advert) :
    (store.remember advert).2.Exact :=
  hExact.remembered (remember_cases store advert)

theorem Exact.noteHeard
    {store : Store}
    (hExact : store.Exact)
    (pk : PublicKey) (wall : UInt32)
    (snr : Int16) (hops : UInt8) :
    (store.noteHeard pk wall snr hops).Exact := by
  unfold Store.noteHeard
  cases store.find pk with
  | none => exact hExact
  | some row =>
      apply hExact.withContacts
      · exact keys_heard store.contacts row wall snr hops
      · intro c hMem
        rcases Table.mem_modify hMem with
          hOld | ⟨d, hAt, rfl⟩
        · exact hExact.names c hOld
        · exact hExact.names d (List.mem_of_getElem? hAt)

------------------------------------------------------------
-- Runs
------------------------------------------------------------

/- What teaches a store something. -/
inductive Use where
| remember (advert : Advert)
| noteHeard
    (pk : PublicKey)
    (wall : UInt32)
    (snr : Int16)
    (hops : UInt8)

def use (store : Store) : Use → Store
| .remember advert => (store.remember advert).2
| .noteHeard pk wall snr hops =>
    store.noteHeard pk wall snr hops

theorem Exact.use
    {store : Store}
    (hExact : store.Exact)
    (use : Use) :
    (store.use use).Exact := by
  cases use with
  | remember advert => exact hExact.remember advert
  | noteHeard pk wall snr hops =>
      exact hExact.noteHeard pk wall snr hops

/- The run lemma. -/
theorem Exact.uses
    {store : Store}
    (hExact : store.Exact)
    (uses : List Use) :
    (uses.foldl Store.use store).Exact := by
  induction uses generalizing store with
  | nil => exact hExact
  | cons use uses ih => exact ih (hExact.use use)

/- What a store that began empty has become. -/
def after
    (selfPk : PublicKey)
    (selfSk : PrivateKey)
    (uses : List Use) :
    Store :=
  uses.foldl use { selfPk := selfPk, selfSk := selfSk }

theorem exact_after
    (selfPk : PublicKey) (selfSk : PrivateKey)
    (uses : List Use) :
    (after selfPk selfSk uses).Exact :=
  (exact_new selfPk selfSk).uses uses

------------------------------------------------------------
-- Who Is Evicted
------------------------------------------------------------

/- The row that goes has the least timestamp there is. -/
theorem oldestRow_isFirst
    {contacts : List Contact}
    (hSome : 0 < contacts.length) :
    Least.IsFirst contacts.length
      (fun row =>
        (contacts.getD row
          (.bare (copyInto _ []))).timestamp.toNat)
      (fun _ => True) (oldestRow contacts) := by
  apply Least.foldl_isFirst
  · intro best _ row _
    simp only [UInt32.lt_iff_toNat_lt]
  · exact hSome

/-
  An author that is added to a full table takes the place of
  the one contact whose advert is the oldest.
-/
theorem Remembered.evicts
    {store store' : Store} {advert : Advert}
    (hRemembered :
      Remembered store advert .added store')
    (hFull : store.contacts.length = maxContacts) :
    ∃ (row : Nat) (victim : Contact),
      store.contacts[row]? = some victim ∧
        (∀ c ∈ store.contacts,
          victim.timestamp ≤ c.timestamp) ∧
        store'.contacts =
          store.contacts.set row
            (learned (.bare (author advert)) advert) := by
  cases hRemembered with
  | added hFind hRoom =>
      rw [hFull] at hRoom
      exact absurd hRoom (Nat.lt_irrefl _)
  | evicted hFind hFull' =>
      have hBound := oldestRow_lt_of_full hFull'
      have hFirst :=
        oldestRow_isFirst (Nat.zero_lt_of_lt hBound)
      refine ⟨oldestRow store.contacts,
        store.contacts[oldestRow store.contacts],
        List.getElem?_eq_getElem hBound, ?_, rfl⟩
      intro c hMem
      rcases List.mem_iff_getElem.mp hMem with
        ⟨other, hOther, rfl⟩
      have hLeast := hFirst.least other hOther trivial
      simp only [List.getD_eq_getElem?_getD,
        List.getElem?_eq_getElem hBound,
        List.getElem?_eq_getElem hOther,
        Option.getD_some] at hLeast
      exact UInt32.le_iff_toNat_le.mpr hLeast

end Store

end MeshCore
