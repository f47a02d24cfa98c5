import MeshCore.Identity.File

/-
  A store over the life of a node: adverts and frames in any
  order, with saves, reloads and restarts between them. The
  table stays exact throughout. The adverts applied to a key
  are ever newer ones, until a file that is behind is loaded
  and takes some of them back.

  Key definitions include:
    * `Store.Kept`, `Store.Kept.step`
    * `Store.stamp`, `Store.applied`
    * `Store.TakesBack`

  Key facts include:
    * `Store.Kept.Exact.step`
    * `Store.Exact.stamp_use`
    * `Store.Kept.applied_increasing`
    * `Store.index_is_always_exact`
-/

namespace MeshCore

namespace Store

------------------------------------------------------------
-- The Life Of A Store
------------------------------------------------------------

/- All of the file is replaced, or none of it. -/
def flush
    (store : Store)
    (stored : Bool)
    (file : Option Bytes) :
    Option Bytes :=
  if stored then some store.writeContacts else file

/- Where there is no file, nothing was saved yet. -/
def loadSaved
    (store : Store)
    (file : Option Bytes) :
    Bool × Store :=
  match file with
  | none => (true, store)
  | some blob => store.loadContacts (some blob)

/- A store and its own file. -/
structure Kept where
  store : Store
  file : Option Bytes := none

/- What may happen to a store. A restart is a new store. -/
inductive Happening where
| use (use : Use)
| flush (stored : Bool)
| reload
| restart

/- Whether a file is loaded. -/
def Happening.loads : Happening → Bool
| .reload => true
| .restart => true
| _ => false

namespace Kept

def step (kept : Kept) : Happening → Kept
| .use use => { kept with store := kept.store.use use }
| .flush stored =>
    { kept with file := kept.store.flush stored kept.file }
| .reload =>
    { kept with
      store := (kept.store.loadSaved kept.file).2 }
| .restart =>
    let fresh : Store :=
      { selfPk := kept.store.selfPk
        selfSk := kept.store.selfSk }
    { kept with store := (fresh.loadSaved kept.file).2 }

def start (selfPk : PublicKey) (selfSk : PrivateKey) : Kept :=
  { store := { selfPk := selfPk, selfSk := selfSk } }

/- The store is exact, and so was the one that was saved. -/
structure Exact (kept : Kept) : Prop where
  store : kept.store.Exact
  saved :
    ∀ blob ∈ kept.file,
      ∃ saved : Store,
        saved.Exact ∧ blob = saved.writeContacts

theorem exact_start
    (selfPk : PublicKey) (selfSk : PrivateKey) :
    (start selfPk selfSk).Exact where
  store := exact_new selfPk selfSk
  saved := nofun

/- What the own file gives is as exact as what it has. -/
theorem Exact.loadSaved
    {kept : Kept}
    (hExact : kept.Exact)
    {store : Store}
    (hStore : store.Exact) :
    (store.loadSaved kept.file).2.Exact := by
  cases hFile : kept.file with
  | none => exact hStore
  | some blob =>
      rcases hExact.saved blob hFile with
        ⟨saved, hSaved, rfl⟩
      rw [Store.loadSaved,
        hSaved.loadContacts_writeContacts store,
        hSaved.buckets]
      exact exact_reindex store hSaved.keys hSaved.bounded
        hSaved.names

/- The step lemma. -/
theorem Exact.step
    {kept : Kept}
    (hExact : kept.Exact)
    (happening : Happening) :
    (kept.step happening).Exact := by
  cases happening with
  | use use => exact ⟨hExact.store.use use, hExact.saved⟩
  | flush stored =>
      refine ⟨hExact.store, ?_⟩
      intro blob hBlob
      simp only [Kept.step, Store.flush] at hBlob
      split at hBlob
      · cases hBlob
        exact ⟨kept.store, hExact.store, rfl⟩
      · exact hExact.saved blob hBlob
  | reload =>
      exact ⟨hExact.loadSaved hExact.store, hExact.saved⟩
  | restart =>
      exact ⟨hExact.loadSaved (exact_new _ _), hExact.saved⟩

/- The run lemma. -/
theorem Exact.run
    {kept : Kept}
    (hExact : kept.Exact)
    (happenings : List Happening) :
    (happenings.foldl Kept.step kept).Exact := by
  induction happenings generalizing kept with
  | nil => exact hExact
  | cons happening happenings ih =>
      exact ih (hExact.step happening)

end Kept

------------------------------------------------------------
-- Timestamps
------------------------------------------------------------

/- The timestamp that is kept with a key. -/
def stamp (store : Store) (pk : PublicKey) : Option UInt32 :=
  (store.contactOf pk).map (·.timestamp)

/- The timestamp an advert has just given a key. -/
def appliedBy
    (store : Store)
    (pk : PublicKey)
    (advert : Advert) :
    Option UInt32 :=
  if author advert = pk ∧
      ((store.remember advert).1 = .added ∨
        (store.remember advert).1 = .updated) then
    some advert.timestamp
  else none

/- Where no row of a key is new, it has its old one or none. -/
theorem Exact.stamp_of_old
    {store store' : Store} {pk : PublicKey}
    (hExact : store.Exact)
    (hExact' : store'.Exact)
    (hOld :
      ∀ c ∈ store'.contacts,
        c.pk = pk → c ∈ store.contacts) :
    store'.stamp pk = none ∨
      store'.stamp pk = store.stamp pk := by
  cases hContact : store'.contactOf pk with
  | none =>
      left
      rw [stamp, hContact]
      rfl
  | some c =>
      right
      rcases (hExact'.contactOf_eq_some_iff pk c).mp
          hContact with ⟨hMem, hPk⟩
      rw [stamp, stamp, hContact,
        (hExact.contactOf_eq_some_iff pk c).mpr
          ⟨hOld c hMem hPk, hPk⟩]

theorem stamp_of_find_none
    {store : Store} {pk : PublicKey}
    (hFind : store.find pk = none) :
    store.stamp pk = none := by
  rw [stamp, contactOf, hFind]
  rfl

theorem Indexed.stamp_eq
    {store : Store} {row : Nat} {c : Contact}
    (hIndexed : store.Indexed)
    (hRow : store.contacts[row]? = some c) :
    store.stamp c.pk = some c.timestamp := by
  rw [stamp, hIndexed.contactOf_eq hRow]
  rfl

/- Where another author is concerned, no row is new. -/
theorem Remembered.old
    {store store' : Store} {advert : Advert}
    {update : Update} {c : Contact}
    (hRemembered : Remembered store advert update store')
    (hMem : c ∈ store'.contacts)
    (hOther : author advert ≠ c.pk) :
    c ∈ store.contacts := by
  have hNew :
      ∀ before : Contact,
        before.pk = author advert →
          c ≠ learned before advert := by
    rintro before hBefore rfl
    rw [pk_learned] at hOther
    exact hOther hBefore.symm
  cases hRemembered with
  | rejected hKey => exact hMem
  | stale hFind hRow hPk hStale => exact hMem
  | updated hFind hRow hPk hNewer =>
      rcases List.mem_or_eq_of_mem_set hMem with hOld | hEq
      · exact hOld
      · exact absurd hEq (hNew _ hPk)
  | added hFind hRoom =>
      rcases List.mem_append.mp hMem with hOld | hEq
      · exact hOld
      · exact absurd (List.mem_singleton.mp hEq)
          (hNew _ rfl)
  | evicted hFind hFull =>
      rcases List.mem_or_eq_of_mem_set hMem with hOld | hEq
      · exact hOld
      · exact absurd hEq (hNew _ rfl)

/-
  What an advert does to the timestamp of a key: it puts in
  a newer one, or leaves what was there, or the key goes.
-/
theorem Exact.stamp_remember
    {store : Store}
    (hExact : store.Exact)
    (advert : Advert)
    (pk : PublicKey) :
    match store.appliedBy pk advert with
    | none =>
        (store.remember advert).2.stamp pk = none ∨
          (store.remember advert).2.stamp pk =
            store.stamp pk
    | some timestamp =>
        (store.remember advert).2.stamp pk =
            some timestamp ∧
          ∀ known, store.stamp pk = some known →
            known < timestamp := by
  have hCases := remember_cases store advert
  have hNext := hExact.remembered hCases
  unfold appliedBy
  generalize (store.remember advert).1 = update at hCases ⊢
  generalize (store.remember advert).2 = store' at *
  by_cases hAuthor : author advert = pk
  · subst hAuthor
    cases hCases with
    | rejected hKey => simp
    | stale hFind hRow hPk hStale => simp
    | updated hFind hRow hPk hNewer =>
        have hBound := (List.getElem?_eq_some_iff.mp hRow).1
        have hThen := hExact.indexed.stamp_eq hRow
        have hNow :=
          hNext.indexed.stamp_eq
            (List.getElem?_set_self hBound)
        rw [hPk] at hThen
        rw [pk_learned, timestamp_learned, hPk] at hNow
        simp [hThen, hNow, hNewer]
    | added hFind hRoom =>
        have hNow :=
          hNext.indexed.stamp_eq List.getElem?_concat_length
        rw [pk_learned, timestamp_learned, pk_bare] at hNow
        simp [hNow, stamp_of_find_none hFind]
    | evicted hFind hFull =>
        have hNow :=
          hNext.indexed.stamp_eq
            (List.getElem?_set_self
              (oldestRow_lt_of_full hFull))
        rw [pk_learned, timestamp_learned, pk_bare] at hNow
        simp [hNow, stamp_of_find_none hFind]
  · simp only [hAuthor, false_and, if_false]
    apply hExact.stamp_of_old hNext
    intro c hMem hPk
    apply hCases.old hMem
    rw [hPk]
    exact hAuthor

/- Noting how a contact was heard leaves every timestamp. -/
theorem stamp_noteHeard
    (store : Store) (pk pk' : PublicKey)
    (wall : UInt32) (snr : Int16) (hops : UInt8) :
    (store.noteHeard pk wall snr hops).stamp pk' =
      store.stamp pk' := by
  unfold Store.noteHeard
  cases store.find pk with
  | none => rfl
  | some row =>
      have hKeys :=
        keys_heard store.contacts row wall snr hops
      simp only [stamp, contactOf, find_withContacts hKeys]
      cases store.find pk' with
      | none => rfl
      | some row' =>
          simp only [Option.bind_some, List.getElem?_modify]
          cases store.contacts[row']? with
          | none => rfl
          | some c => by_cases hRow : row = row' <;> simp [hRow]

------------------------------------------------------------
-- Timestamps Over A Life
------------------------------------------------------------

namespace Kept

/- The timestamp that a step applies to a key, if any. -/
def appliedIn
    (pk : PublicKey)
    (t : Transition Kept Happening) :
    Option UInt32 :=
  match t.event with
  | .use (.remember advert) =>
      t.before.store.appliedBy pk advert
  | _ => none

def applied
    (pk : PublicKey)
    (ts : List (Transition Kept Happening)) :
    List UInt32 :=
  ts.filterMap (appliedIn pk)

/- A file is loaded that is behind what is known of a key. -/
def TakesBack
    (pk : PublicKey)
    (t : Transition Kept Happening) :
    Prop :=
  t.event.loads = true ∧
    ∃ known, t.before.store.stamp pk = some known ∧
      ∃ saved, t.after.store.stamp pk = some saved ∧
        saved < known

instance
    (pk : PublicKey)
    (t : Transition Kept Happening) :
    Decidable (TakesBack pk t) :=
  decidable_of_iff
    (t.event.loads = true ∧
      (t.before.store.stamp pk).any fun known =>
        (t.after.store.stamp pk).any (· < known))
    (by simp [TakesBack, Option.any_eq_true])

/-
  The step lemma: where a key stays, and nothing is taken
  back, its timestamp is the one applied or no older one.
-/
theorem Exact.stamp_step
    {kept : Kept}
    (hExact : kept.Exact)
    (happening : Happening)
    {pk : PublicKey} {now : UInt32}
    (hStays :
      (kept.step happening).store.stamp pk = some now)
    (hKeeps :
      ¬ TakesBack pk
        ⟨kept, happening, kept.step happening⟩) :
    (∀ known, kept.store.stamp pk = some known →
        known ≤ now) ∧
      ∀ timestamp,
        appliedIn pk
            ⟨kept, happening, kept.step happening⟩ =
          some timestamp →
          now = timestamp ∧
            ∀ known, kept.store.stamp pk = some known →
              known < timestamp := by
  have hSame :
      (kept.step happening).store.stamp pk =
          kept.store.stamp pk →
        ∀ known, kept.store.stamp pk = some known →
          known ≤ now := by
    intro hSame known hKnown
    rw [hStays, hKnown] at hSame
    cases hSame
    exact UInt32.le_refl _
  have hLoaded :
      happening.loads = true →
        ∀ known, kept.store.stamp pk = some known →
          known ≤ now := by
    intro hLoads known hKnown
    rw [← UInt32.not_lt]
    intro hOlder
    exact hKeeps
      ⟨hLoads, known, hKnown, now, hStays, hOlder⟩
  cases happening with
  | use use =>
      cases use with
      | remember advert =>
          have hThis :=
            hExact.store.stamp_remember advert pk
          cases hApplied :
              kept.store.appliedBy pk advert with
          | none =>
              rw [hApplied] at hThis
              refine ⟨?_, ?_⟩
              · rcases hThis with hNone | hOld
                · cases hStays.symm.trans hNone
                · exact hSame hOld
              · intro timestamp hHere
                cases hApplied.symm.trans hHere
          | some newer =>
              rw [hApplied] at hThis
              cases hStays.symm.trans hThis.1
              refine ⟨?_, ?_⟩
              · intro known hKnown
                exact UInt32.le_of_lt (hThis.2 known hKnown)
              · intro timestamp hHere
                cases hApplied.symm.trans hHere
                exact ⟨rfl, hThis.2⟩
      | noteHeard other wall snr hops =>
          exact
            ⟨hSame
              (stamp_noteHeard kept.store other pk wall snr
                hops),
              nofun⟩
  | flush stored => exact ⟨hSame rfl, nofun⟩
  | reload => exact ⟨hLoaded rfl, nofun⟩
  | restart => exact ⟨hLoaded rfl, nofun⟩

theorem stamp_of_found
    {store : Store} {pk : PublicKey}
    (hFound : (store.find pk).isSome = true) :
    ∃ now, store.stamp pk = some now := by
  rcases Option.isSome_iff_exists.mp hFound with
    ⟨row, hFind⟩
  rcases find_eq_some hFind with ⟨c, hRow, _⟩
  refine ⟨c.timestamp, ?_⟩
  rw [stamp, contactOf, hFind, Option.bind_some, hRow]
  rfl

/- The run lemma, with what was known before the run. -/
theorem Exact.applied_after
    {kept : Kept}
    (hExact : kept.Exact)
    {pk : PublicKey}
    {happenings : List Happening}
    (hStays :
      ∀ t ∈ replay Kept.step kept happenings,
        (t.after.store.find pk).isSome = true)
    (hKeeps :
      ∀ t ∈ replay Kept.step kept happenings,
        ¬ TakesBack pk t) :
    let timestamps :=
      applied pk (replay Kept.step kept happenings)
    timestamps.Pairwise (· < ·) ∧
      ∀ known, kept.store.stamp pk = some known →
        ∀ timestamp ∈ timestamps, known < timestamp := by
  induction happenings generalizing kept with
  | nil => exact ⟨.nil, nofun⟩
  | cons happening happenings ih =>
      rw [replay, List.forall_mem_cons] at hStays hKeeps
      rcases stamp_of_found hStays.1 with ⟨now, hNow⟩
      rcases hExact.stamp_step happening hNow hKeeps.1 with
        ⟨hBefore, hApplied⟩
      rcases ih (hExact.step happening) hStays.2 hKeeps.2
        with ⟨hPairwise, hAfter⟩
      have hLater := hAfter now hNow
      dsimp only [replay]
      rw [applied, List.filterMap_cons]
      cases hHere :
          appliedIn pk
            ⟨kept, happening, kept.step happening⟩ with
      | none =>
          refine ⟨hPairwise, ?_⟩
          intro known hKnown timestamp hMem
          exact UInt32.lt_of_le_of_lt (hBefore known hKnown)
            (hLater timestamp hMem)
      | some first =>
          rcases hApplied first hHere with ⟨rfl, hNewer⟩
          refine ⟨List.pairwise_cons.mpr
            ⟨hLater, hPairwise⟩, ?_⟩
          intro known hKnown timestamp hMem
          rcases List.mem_cons.mp hMem with rfl | hMem
          · exact hNewer known hKnown
          · exact UInt32.lt_of_le_of_lt
              (hBefore known hKnown)
              (hLater timestamp hMem)

/- What a store that began empty has come to. -/
def since
    (selfPk : PublicKey)
    (selfSk : PrivateKey)
    (happenings : List Happening) :
    Kept :=
  happenings.foldl step (start selfPk selfSk)

theorem exact_since
    (selfPk : PublicKey) (selfSk : PrivateKey)
    (happenings : List Happening) :
    (since selfPk selfSk happenings).Exact :=
  (exact_start selfPk selfSk).run happenings

end Kept

------------------------------------------------------------
-- The Index Over A Life
------------------------------------------------------------

theorem Exact.find_eq_some_iff
    {store : Store}
    (hExact : store.Exact)
    (pk : PublicKey) (row : Nat) :
    store.find pk = some row ↔
      ∃ c, store.contacts[row]? = some c ∧ c.pk = pk := by
  constructor
  · exact find_eq_some
  · rintro ⟨c, hRow, rfl⟩
    exact hExact.indexed.found row c hRow

/- An advert that is not taken changes nothing. -/
theorem remember_of_refused
    {store : Store} {advert : Advert}
    (hRefused :
      (store.remember advert).1 = .stale ∨
        (store.remember advert).1 = .rejected) :
    (store.remember advert).2 = store := by
  have hCases := remember_cases store advert
  generalize (store.remember advert).1 = update at *
  generalize (store.remember advert).2 = store' at *
  cases hCases with
  | rejected => rfl
  | stale => rfl
  | updated => simp at hRefused
  | added => simp at hRefused
  | evicted => simp at hRefused

/-
  Whatever a store has been through, every bucket has the
  rows of its hash, each once, no key is there twice, and
  the row of a key is what is found. What is not taken
  changes nothing; what is added to a full table takes the
  place of one contact, no other being older. And from there
  on the adverts applied to a key that stays are newer and
  newer, as long as no file is loaded that is behind.
-/
theorem index_is_always_exact
    (selfPk : PublicKey) (selfSk : PrivateKey)
    (happenings : List Happening)
    (kept : Kept)
    (hKept : Kept.since selfPk selfSk happenings = kept) :
    (∀ hash,
      (kept.store.buckets hash).Nodup ∧
        ∀ row,
          row ∈ kept.store.buckets hash ↔
            ∃ c, kept.store.contacts[row]? = some c ∧
              PublicKey.hash c.pk = hash) ∧
      (kept.store.contacts.map Contact.pk).Nodup ∧
      (∀ pk row,
        kept.store.find pk = some row ↔
          ∃ c, kept.store.contacts[row]? = some c ∧
            c.pk = pk) ∧
      kept.store.contacts.length ≤ maxContacts ∧
      (∀ advert,
        (kept.store.remember advert).1 = .stale ∨
            (kept.store.remember advert).1 = .rejected →
          (kept.store.remember advert).2 = kept.store) ∧
      (∀ advert,
        (kept.store.remember advert).1 = .added →
          kept.store.contacts.length = maxContacts →
            ∃ row victim fresh,
              kept.store.contacts[row]? = some victim ∧
                (∀ c ∈ kept.store.contacts,
                  victim.timestamp ≤ c.timestamp) ∧
                fresh.pk = author advert ∧
                (kept.store.remember advert).2.contacts =
                  kept.store.contacts.set row fresh) ∧
      ∀ pk later,
        (∀ t ∈ replay Kept.step kept later,
          (t.after.store.find pk).isSome = true) →
        (∀ t ∈ replay Kept.step kept later,
          ¬ Kept.TakesBack pk t) →
        (Kept.applied pk
          (replay Kept.step kept later)).Pairwise
            (· < ·) := by
  have hExact := Kept.exact_since selfPk selfSk happenings
  rw [hKept] at hExact
  refine ⟨hExact.store.mem_buckets_iff, hExact.store.keys,
    hExact.store.find_eq_some_iff, hExact.store.bounded,
    fun _ => remember_of_refused, ?_, ?_⟩
  · intro advert hAdded hFull
    have hCases := remember_cases kept.store advert
    rw [hAdded] at hCases
    rcases hCases.evicts hFull with
      ⟨row, victim, hRow, hOldest, hContacts⟩
    exact ⟨row, victim, _, hRow, hOldest, by simp,
      hContacts⟩
  · intro pk later hStays hKeeps
    exact (hExact.applied_after hStays hKeeps).1

section Example

/- Adverts of one key at this time. -/
def advertAt (timestamp : UInt32) : Advert :=
  { publicKey := List.replicate packetPublicKeySize 7
    timestamp := timestamp
    signature := []
    appdata := [] }

def begun : Kept :=
  Kept.since (Vector.replicate _ 1) (Vector.replicate _ 1) []

/- Saved after the first advert, lost after the second. -/
def lostAdvert : List Happening :=
  [.use (.remember (advertAt 10)), .flush true,
    .use (.remember (advertAt 20)), .restart,
    .use (.remember (advertAt 15))]

theorem restart_takes_an_advert_back :
    (∀ t ∈ replay Kept.step begun lostAdvert,
      (t.after.store.find (Vector.replicate _ 7)).isSome =
        true) ∧
      ¬ (Kept.applied (Vector.replicate _ 7)
          (replay Kept.step begun lostAdvert)).Pairwise
            (· < ·) := by
  decide +kernel

/- The same adverts, each one saved. -/
def savedAdverts : List Happening :=
  [.use (.remember (advertAt 10)), .flush true,
    .use (.remember (advertAt 20)), .flush true, .restart,
    .use (.remember (advertAt 15)),
    .use (.remember (advertAt 25))]

theorem saved_adverts_increase :
    (Kept.applied (Vector.replicate _ 7)
      (replay Kept.step begun savedAdverts)).Pairwise
        (· < ·) := by
  apply (index_is_always_exact _ _ [] begun rfl).2.2.2.2.2.2
  · decide +kernel
  · decide +kernel

end Example

end Store

end MeshCore
