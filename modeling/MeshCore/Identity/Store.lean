import MeshCore.Crypto.Core
import MeshCore.Packet.Payload
import Mathlib.Data.List.Sort

/-
  The identity store: our own keys, the contacts learned
  from adverts with an index by their one-byte hash, and a
  cache of shared secrets.

  A pointer into the contact table is the index of its row.

  Key definitions include:
    * `Contact`
    * `Store`
    * `Store.remember`
    * `Store.noteHeard`
    * `Store.findByHash`
    * `Store.secretFor`

  Key facts include:
    * `Store.CachesSecrets.secretFor_eq`
-/

namespace MeshCore

------------------------------------------------------------
-- Contacts
------------------------------------------------------------

structure Contact where
  pk : PublicKey
  timestamp : UInt32 := 0
  type : UInt8 := 0
  hasLocation : Bool := false
  latitude : Int32 := 0
  longitude : Int32 := 0
  name : Bytes := []
  lastHeard : UInt32 := 0
  snr : Int16 := 0
  hops : UInt8 := 0
deriving DecidableEq

namespace Contact

def hash (c : Contact) : UInt8 :=
  PublicKey.hash c.pk

/- A contact whose own transmitter we hear. -/
def isNeighbour (c : Contact) : Bool :=
  c.lastHeard ≠ 0 ∧ c.hops = 0

/- The bare key of somebody who never advertised. -/
def bare (pk : PublicKey) : Contact :=
  { pk := pk }

end Contact

/-
  Fill in what the appdata describes. Anything truncated
  stops the walk and leaves the rest blank.
-/
def applyAppdata
    (contact : Contact)
    (appdata : Bytes) :
    Contact :=
  let blank : Contact :=
    { contact with
      type := 0
      hasLocation := false
      latitude := 0
      longitude := 0
      name := [] }
  match appdata with
  | [] => blank
  | flags :: _ =>
      let typed :=
        { blank with type := flags &&& advertTypeMask }
      let located :=
        if flags &&& advertHasLocation = 0 then
          some (typed, 1)
        else if appdata.length < 1 + advertLocationSize then
          none
        else
          some
            ({ typed with
                latitude := (readUint32 appdata 1).toInt32
                longitude := (readUint32 appdata 5).toInt32
                hasLocation := true },
              1 + advertLocationSize)
      match located with
      | none => typed
      | some (located, offset) =>
          let skip (flag : UInt8) (offset : Nat) :=
            if flags &&& flag = 0 then some offset
            else if appdata.length <
                offset + advertFeatureSize then
              none
            else some (offset + advertFeatureSize)
          match
            (skip advertHasFeature1 offset).bind
              (skip advertHasFeature2)
          with
          | none => located
          | some offset =>
              if flags &&& advertHasName = 0 then located
              else
                { located with
                  name :=
                    (appdata.drop offset).take
                      maxContactName }

------------------------------------------------------------
-- The Store
------------------------------------------------------------

structure CachedSecret where
  pk : PublicKey
  secret : SharedSecret
  usedAt : UInt64
deriving DecidableEq

structure Store where
  selfPk : PublicKey
  selfSk : PrivateKey
  contacts : List Contact := []
  buckets : UInt8 → List Nat := fun _ => []
  secrets : List CachedSecret := []
  clock : UInt64 := 0

/- A new store whose key is the byte `n` throughout. -/
def Store.ofByte (n : UInt8) : Store :=
  { selfPk := Vector.replicate packetPublicKeySize n
    selfSk := Vector.replicate packetPrivateKeySize n }

/- What `remember` made of an advert. -/
inductive Update where
| added
| updated
| stale
| rejected
deriving DecidableEq, Repr

namespace Store

def selfHash (store : Store) : UInt8 :=
  PublicKey.hash store.selfPk

/- Every contact that goes by one hash. -/
def findByHash (store : Store) (hash : UInt8) : List Contact :=
  (store.buckets hash).filterMap (store.contacts[·]?)

/- The row of a key, found through its bucket. -/
def find (store : Store) (pk : PublicKey) : Option Nat :=
  (store.buckets (PublicKey.hash pk)).find? fun row =>
    (store.contacts[row]?).any (·.pk == pk)

/- Enter a row in the bucket of its hash. -/
def indexContact
    (buckets : UInt8 → List Nat)
    (row : Nat)
    (contact : Contact) :
    UInt8 → List Nat :=
  fun hash =>
    if hash = contact.hash then buckets hash ++ [row]
    else buckets hash

/- Rebuild the index from the table. -/
def reindex (contacts : List Contact) : UInt8 → List Nat :=
  contacts.zipIdx.foldl
    (fun buckets entry =>
      indexContact buckets entry.2 entry.1)
    fun _ => []

/- The row with the oldest advert, the first of equals. -/
def oldestRow (contacts : List Contact) : Nat :=
  (List.range contacts.length).foldl
    (fun oldest row =>
      if (contacts.getD row (.bare (copyInto _ []))).timestamp <
          (contacts.getD oldest
            (.bare (copyInto _ []))).timestamp then
        row
      else oldest)
    0

/- Take an advert whose signature has been verified. -/
def remember
    (store : Store)
    (advert : Advert) :
    Update × Store :=
  if advert.publicKey.length ≠ packetPublicKeySize then
    (.rejected, store)
  else
    let pk : PublicKey := copyInto _ advert.publicKey
    match store.find pk with
    | some row =>
        match store.contacts[row]? with
        | none => (.rejected, store)
        | some known =>
            -- equal counts as stale: a replayed advert
            -- carries a genuine signature
            if advert.timestamp ≤ known.timestamp then
              (.stale, store)
            else
              (.updated,
                { store with
                  contacts :=
                    store.contacts.set row
                      (applyAppdata
                        { known with
                          timestamp := advert.timestamp }
                        advert.appdata) })
    | none =>
        let fresh :=
          applyAppdata
            { Contact.bare pk with
              timestamp := advert.timestamp }
            advert.appdata
        if store.contacts.length < maxContacts then
          (.added,
            { store with
              contacts := store.contacts ++ [fresh]
              buckets :=
                indexContact store.buckets
                  store.contacts.length fresh })
        else
          -- the slot that is reused is still in the bucket
          -- of the contact it held
          let contacts :=
            store.contacts.set
              (oldestRow store.contacts) fresh
          (.added,
            { store with
              contacts := contacts
              buckets := reindex contacts })

/- Note how a contact was heard; a stranger is not noted. -/
def noteHeard
    (store : Store)
    (pk : PublicKey)
    (wall : UInt32)
    (snr : Int16)
    (hops : UInt8) :
    Store :=
  match store.find pk with
  | none => store
  | some row =>
      { store with
        contacts :=
          store.contacts.modify row fun c =>
            { c with lastHeard := wall, snr := snr,
                     hops := hops } }

/- Contacts heard directly, most recently heard first. -/
def neighbours (store : Store) (limit : Nat) : List Contact :=
  ((store.contacts.filter Contact.isNeighbour).insertionSort
    fun a b => b.lastHeard ≤ a.lastHeard).take limit

/- The cached secret that was used longest ago. -/
def leastRecent (secrets : List CachedSecret) : Nat :=
  (List.range secrets.length).foldl
    (fun slot row =>
      match secrets[row]?, secrets[slot]? with
      | some entry, some best =>
          if entry.usedAt < best.usedAt then row else slot
      | _, _ => slot)
    0

/- The shared secret with a peer, through the cache. -/
def secretFor
    [CryptoCore]
    (store : Store)
    (pk : PublicKey) :
    Option SharedSecret × Store :=
  let clock := store.clock + 1
  match store.secrets.findIdx? (·.pk == pk) with
  | some row =>
      ((store.secrets[row]?).map (·.secret),
        { store with
          clock := clock
          secrets :=
            store.secrets.modify row fun entry =>
              { entry with usedAt := clock } })
  | none =>
      match CryptoCore.deriveShared store.selfSk pk with
      | none => (none, { store with clock := clock })
      | some secret =>
          let entry : CachedSecret :=
            { pk := pk, secret := secret, usedAt := clock }
          (some secret,
            { store with
              clock := clock
              secrets :=
                if store.secrets.length < maxSecretCache then
                  store.secrets ++ [entry]
                else
                  store.secrets.set
                    (leastRecent store.secrets) entry })

------------------------------------------------------------
-- What The Cache Holds
------------------------------------------------------------

section Secrets

variable [CryptoCore]

/- Every cached secret is the one that would be derived. -/
def CachesSecrets (store : Store) : Prop :=
  ∀ entry ∈ store.secrets,
    CryptoCore.deriveShared store.selfSk entry.pk =
      some entry.secret

/- Cached or not, the secret is the one that is derived. -/
theorem CachesSecrets.secretFor_eq
    {store : Store}
    (hSecrets : store.CachesSecrets)
    (pk : PublicKey) :
    (store.secretFor pk).1 =
      CryptoCore.deriveShared store.selfSk pk := by
  unfold secretFor
  cases hRow : store.secrets.findIdx? (·.pk == pk) with
  | some row =>
      rcases List.findIdx?_eq_some_iff_getElem.mp hRow with
        ⟨hBound, hPk, _⟩
      have hEntry := hSecrets _ (List.getElem_mem hBound)
      rw [beq_iff_eq.mp hPk] at hEntry
      simp [List.getElem?_eq_getElem hBound, hEntry]
  | none =>
      cases CryptoCore.deriveShared store.selfSk pk <;> rfl

theorem CachesSecrets.secretFor
    {store : Store}
    (hSecrets : store.CachesSecrets)
    (pk : PublicKey) :
    (store.secretFor pk).2.CachesSecrets := by
  unfold Store.secretFor
  cases store.secrets.findIdx? (·.pk == pk) with
  | some row =>
      intro entry hEntry
      rcases List.mem_iff_getElem?.mp hEntry with ⟨i, hAt⟩
      simp only [List.getElem?_modify] at hAt
      rcases Option.map_eq_some_iff.mp hAt with
        ⟨old, hOld, rfl⟩
      simp only [apply_ite CachedSecret.pk,
        apply_ite CachedSecret.secret, ite_self]
      exact hSecrets old (List.mem_of_getElem? hOld)
  | none =>
      cases hDerived :
          CryptoCore.deriveShared store.selfSk pk with
      | none => exact hSecrets
      | some secret =>
          intro entry hEntry
          simp only at hEntry
          split at hEntry
          · rcases List.mem_append.mp hEntry with hOld | hNew
            · exact hSecrets entry hOld
            · rw [List.mem_singleton.mp hNew]
              exact hDerived
          · rcases List.mem_or_eq_of_mem_set hEntry with
              hOld | rfl
            · exact hSecrets entry hOld
            · exact hDerived

end Secrets

end Store

end MeshCore
