import MeshCore.Identity.File
import MeshCore.Platform.Files

/-
  The identity of a node in its file. It is created once and
  where it is kept, never over another; and a node does not
  come up where there is a file that it cannot read.

  The signing scheme is not looked into: it unfolds a seed
  to a pair of keys, the private one beginning with it.

  Key definitions include:
    * `saveKeypair`, `loadKeypair`
    * `Store.loadOrCreate`
    * `Booted`

  Key facts include:
    * `saveKeypair_guards`
    * `Store.loadOrCreate_guards`
-/

namespace MeshCore

def packetSeedSize : Nat := 32

abbrev Seed := Vector UInt8 packetSeedSize

/- The first half of a private key. -/
def seedOf (sk : PrivateKey) : Seed :=
  copyInto packetSeedSize sk.toList

------------------------------------------------------------
-- The Functions
------------------------------------------------------------

abbrev DataM := FileM DataFile

abbrev DataCall := FileCall DataFile

abbrev DataDisk := Disk (FileName DataFile) UInt8

abbrev DataFolder := Folder DataFile UInt8

/- What was begun is taken away again. -/
def discardKey (fd : Nat) : DataM (Option Bool) := do
  let _ ← (.perform (DiskOp.close fd) : DataM Bool)
  let _ ← (.perform (DiskOp.unlink (.lone .key)) : DataM Bool)
  return some false

/- An existing key is never overwritten. -/
def saveKeypair
    (n : Nat)
    (sk : PrivateKey) :
    DataM (Option Bool) := do
  let made ← (.perform DiskOp.makeDir : DataM Bool)
  if !made then
    return some false
  let created ←
    (.perform (DiskOp.create (.lone .key)) :
      DataM (Option Nat))
  match created with
  | none => return some false
  | some fd =>
      let limited ← (.perform (DiskOp.chmod fd) : DataM Bool)
      if !limited then
        discardKey fd
      else
        let wrote ← writeLoop fd n sk.toList
        match wrote with
        | none => return none
        | some false => discardKey fd
        | some true =>
            let synced ←
              (.perform (DiskOp.fsync fd) : DataM Bool)
            if !synced then
              discardKey fd
            else
              let closed ←
                (.perform (DiskOp.close fd) : DataM Bool)
              return some closed

section Keys

-- from a seed to the pair of its keys
variable (unfold : Seed → PublicKey × PrivateKey)

/- The pair is built again from its own seed half. -/
def loadKeypair :
    DataM (Option (PublicKey × PrivateKey)) := do
  let found ←
    (.perform (DiskOp.read (.lone .key)) :
      DataM (Option Bytes))
  match found with
  | none => return none
  | some blob =>
      if blob.length ≠ packetPrivateKeySize then
        return none
      let sk : PrivateKey :=
        copyInto packetPrivateKeySize blob
      let derived := unfold (seedOf sk)
      if derived.2 ≠ sk then
        return none
      return some (derived.1, sk)

/- The contacts of a store that has its keys. -/
def loadStore
    (pair : PublicKey × PrivateKey) :
    DataM (Option Store) := do
  let store : Store :=
    { selfPk := pair.1, selfSk := pair.2 }
  let there ←
    (.perform (DiskOp.access (.file .contacts)) :
      DataM Bool)
  if !there then
    return some store
  let found ←
    (.perform (DiskOp.read (.file .contacts)) :
      DataM (Option Bytes))
  let loaded := store.loadContacts found
  if !loaded.1 then
    return none
  return some loaded.2

/-
  A key that is there but cannot be read is not replaced: it
  refuses to start rather than come up as somebody else. It
  is none while a new key is being written.
-/
def Store.loadOrCreate
    (n : Nat)
    (seed : Seed) :
    DataM (Option (Option Store)) := do
  let made ← (.perform DiskOp.makeDir : DataM Bool)
  if !made then
    return some none
  let there ←
    (.perform (DiskOp.access (.lone .key)) : DataM Bool)
  if there then
    let loaded ← loadKeypair unfold
    match loaded with
    | none => return some none
    | some pair =>
        let store ← loadStore pair
        return some store
  else
    let saved ← saveKeypair n (unfold seed).2
    match saved with
    | none => return none
    | some false => return some none
    | some true =>
        let store ← loadStore (unfold seed)
        return some store

end Keys

------------------------------------------------------------
-- Guarantees
------------------------------------------------------------

section Guarantees

open Program

variable {d : DataDisk} {s : DataFolder}

/- What a node that comes up may have done to its key. -/
def Booted (s s' : DataFolder) : Prop :=
  s' = s ∨
    s.alone .key = none ∧
      ((∃ left, s' = s.scribble .key left) ∨
        ∃ sk, s' = (s.scribble .key (some sk)).keep .key)

/- So much of the new key is in its file. -/
def Writing
    (s : DataFolder)
    (fd : Nat)
    (d : DataDisk)
    (written : Bytes) :
    Prop :=
  d.Holds (s.scribble .key (some written)) ∧
    d.entries (.lone .key) = some fd ∧
      (d.inodes fd).content = written

theorem Writing.append
    {fd : Nat}
    (hLoose : s.kept .key = false)
    (d : DataDisk)
    (written more : Bytes)
    (hWriting : Writing s fd d written) :
    Writing s fd (d.append fd more) (written ++ more) := by
  rcases hWriting with ⟨hHolds, hThere, rfl⟩
  refine ⟨?_, hThere, ?_⟩
  · have hMore : (d.append fd more).Holds _ :=
      hHolds.scribble hThere hLoose rfl
    rwa [Folder.scribble_scribble] at hMore
  · rw [Disk.append, Disk.inodes_setInode_self]

/- The disk holds what may be there after a start. -/
def HoldsBooted (s : DataFolder) (d : DataDisk) : Prop :=
  ∃ s', d.Holds s' ∧ Booted s s'

theorem HoldsBooted.scribbled
    {left : Option Bytes}
    (hNone : s.alone .key = none)
    (hHolds : d.Holds (s.scribble .key left)) :
    HoldsBooted s d :=
  ⟨_, hHolds, .inr ⟨hNone, .inl ⟨left, rfl⟩⟩⟩

/- What is promised of the end of `saveKeypair`. -/
def Saved
    (s : DataFolder)
    (sk : PrivateKey)
    (ok : Option Bool)
    (d : DataDisk) :
    Prop :=
  ∃ s', d.Holds s' ∧ Booted s s' ∧
    (ok = some true →
      s' = (s.scribble .key (some sk.toList)).keep .key)

theorem Saved.failed
    {sk : PrivateKey} {ok : Option Bool}
    (hBooted : HoldsBooted s d)
    (hFailed : ok ≠ some true) :
    Saved s sk ok d := by
  rcases hBooted with ⟨s', hHolds, hBooted⟩
  exact ⟨s', hHolds, hBooted, fun h => absurd h hFailed⟩

theorem discardKey_guards
    {left : Option Bytes}
    (hNone : s.alone .key = none)
    (hLoose : s.kept .key = false)
    (hHolds : d.Holds (s.scribble .key left))
    (fd : Nat) (sk : PrivateKey) :
    (discardKey fd).Guards Disk.Does (HoldsBooted s)
      (fun calls ok d' =>
        settled calls = false ∧ Saved s sk ok d')
      d := by
  have hHere := HoldsBooted.scribbled hNone hHolds
  refine ⟨hHere, ?_⟩
  rintro closed _ rfl
  refine ⟨hHere, ?_⟩
  intro gone d' hDoes
  cases gone with
  | false =>
      cases hDoes
      exact ⟨hHere, rfl, .failed hHere (by simp)⟩
  | true =>
      cases hDoes
      have hErased := hHolds.erase hLoose
      rw [Folder.scribble_scribble] at hErased
      have hAfter := HoldsBooted.scribbled hNone hErased
      exact ⟨hAfter, rfl, .failed hAfter (by simp)⟩

/-
  Where there is no key, one is made: it is whole, and on
  the disk as far as the directory is.
-/
theorem saveKeypair_guards
    (hHolds : d.Holds s)
    (hNone : s.alone .key = none)
    (n : Nat) (sk : PrivateKey) :
    (saveKeypair n sk).Guards Disk.Does (HoldsBooted s)
      (fun calls ok d' =>
        settled calls = false ∧ Saved s sk ok d')
      d := by
  have hHere : HoldsBooted s d := ⟨s, hHolds, .inl rfl⟩
  refine ⟨hHere, ?_⟩
  rintro made d rfl
  cases made with
  | false => exact ⟨hHere, rfl, .failed hHere (by simp)⟩
  | true =>
      refine ⟨hHere, ?_⟩
      intro created d₁ hCreated
      cases created with
      | none =>
          cases hCreated
          exact ⟨hHere, rfl, .failed hHere (by simp)⟩
      | some fd =>
          rcases hCreated with ⟨hAbsent, rfl, rfl⟩
          rcases hHolds.create hAbsent with
            ⟨hLoose, hCreated⟩
          have hThere₁ := HoldsBooted.scribbled hNone hCreated
          refine ⟨hThere₁, ?_⟩
          rintro limited _ rfl
          cases limited with
          | false =>
              exact discardKey_guards hNone hLoose hCreated
                _ sk
          | true =>
              have hEmpty :
                  Writing s d.next (d.link (.lone .key))
                    [] :=
                ⟨hCreated, d.entries_link _,
                  d.content_link _⟩
              change
                (writeLoop d.next n sk.toList >>= _).Guards
                  _ _ _ (d.link (.lone .key))
              rw [guards_bind]
              apply
                (writeLoop_guards (Writing.append hLoose) n
                  sk.toList hEmpty).mono
                  (fun _ h =>
                    .scribbled hNone h.choose_spec.1)
              rintro calls ok d₂
                ⟨hQuiet, so,
                  ⟨hHolds₂, hStill, hSo⟩, hAll⟩
              have hThere₂ :=
                HoldsBooted.scribbled hNone hHolds₂
              have hSettled : ∀ more,
                  settled more = false →
                    settled
                        (⟨.makeDir, true⟩ ::
                          ⟨.create (.lone .key),
                              some d.next⟩ ::
                            ⟨.chmod d.next, true⟩ ::
                              (calls ++ more)) =
                      false := by
                intro more hMore
                change settled (calls ++ more) = false
                rw [settled_append, hQuiet, hMore]
                rfl
              have hDiscard :
                  ∀ told : List DataCall → List DataCall,
                  (∀ more, settled more = false →
                    settled (told more) = false) →
                  (discardKey d.next).Guards Disk.Does
                    (HoldsBooted s)
                    (fun more ok d' =>
                      settled (told more) = false ∧
                        Saved s sk ok d')
                    d₂ := by
                intro told hTold
                apply
                  (discardKey_guards hNone hLoose hHolds₂
                    d.next sk).mono (fun _ h => h)
                exact fun more _ _ h =>
                  ⟨hTold more h.1, h.2⟩
              rcases ok with _ | (_ | _)
              · exact ⟨hThere₂, hSettled [] rfl,
                  .failed hThere₂ (by simp)⟩
              · exact hDiscard _ hSettled
              · refine ⟨hThere₂, ?_⟩
                intro synced d₃ hSynced
                cases synced with
                | false =>
                    cases hSynced
                    exact hDiscard _ fun more =>
                      hSettled (⟨.fsync _, false⟩ :: more)
                | true =>
                    cases hSynced
                    have hAgain : (d₂.sync d.next).Holds _ :=
                      hHolds₂.scribble hStill hLoose rfl
                    rw [Folder.scribble_scribble, hSo,
                      hAll rfl, List.nil_append] at hAgain
                    have hOnDisk :
                        ((d₂.sync d.next).inodes
                          d.next).synced = true := by
                      rw [Disk.sync,
                        Disk.inodes_setInode_self]
                    have hKept := hAgain.keep hStill hOnDisk
                    have hThere₃ :
                        HoldsBooted s (d₂.sync d.next) :=
                      ⟨_, hKept, .inr ⟨hNone,
                        .inr ⟨_, rfl⟩⟩⟩
                    refine ⟨hThere₃, ?_⟩
                    rintro closed _ rfl
                    exact ⟨hThere₃,
                      hSettled [⟨.fsync _, true⟩,
                        ⟨.close _, closed⟩] rfl,
                      _, hKept,
                      .inr ⟨hNone, .inr ⟨_, rfl⟩⟩,
                      fun _ => rfl⟩

/- To read changes nothing, and tells what is there. -/
theorem loadKeypair_guards
    {unfold : Seed → PublicKey × PrivateKey}
    (hHere : HoldsBooted s d) :
    (loadKeypair unfold).Guards Disk.Does (HoldsBooted s)
      (fun _ loaded d' =>
        d' = d ∧
          ∀ pair, loaded = some pair →
            d.reads (.lone .key) = some pair.2.toList ∧
              pair = unfold (seedOf pair.2))
      d := by
  refine ⟨hHere, ?_⟩
  rintro found d' ⟨hFound, rfl⟩
  cases found with
  | none => exact ⟨hHere, rfl, fun _ h => by cases h⟩
  | some blob =>
      rcases hFound with hFound | hFound
      · cases hFound
      · change
          (if blob.length ≠ packetPrivateKeySize then _
            else _ : DataM _).Guards _ _ _ d'
        apply guards_ite
        · intro _
          exact ⟨hHere, rfl, fun _ h => by cases h⟩
        · intro hLength
          apply guards_ite
          · intro _
            exact ⟨hHere, rfl, fun _ h => by cases h⟩
          · intro hSame
            refine ⟨hHere, rfl, ?_⟩
            rintro _ ⟨rfl⟩
            dsimp only
            rw [toList_copyInto_of_length
              (not_not.mp hLength)]
            exact ⟨hFound.symm,
              Prod.ext rfl (not_not.mp hSame).symm⟩

theorem keys_loadContacts
    (store : Store) (blob : Option Bytes) :
    ((store.loadContacts blob).2.selfPk,
        (store.loadContacts blob).2.selfSk) =
      (store.selfPk, store.selfSk) := by
  rw [Store.loadContacts]
  split <;> rfl

theorem loadStore_guards
    (hHere : HoldsBooted s d)
    (pair : PublicKey × PrivateKey) :
    (loadStore pair).Guards Disk.Does (HoldsBooted s)
      (fun _ loaded d' =>
        d' = d ∧
          ∀ store, loaded = some store →
            (store.selfPk, store.selfSk) = pair)
      d := by
  refine ⟨hHere, ?_⟩
  rintro there d' ⟨-, rfl⟩
  cases there with
  | false =>
      refine ⟨hHere, rfl, ?_⟩
      rintro _ ⟨rfl⟩
      rfl
  | true =>
      refine ⟨hHere, ?_⟩
      rintro found d ⟨-, rfl⟩
      apply guards_ite
      · intro _
        exact ⟨hHere, rfl, fun _ h => by cases h⟩
      · intro _
        refine ⟨hHere, rfl, ?_⟩
        rintro _ ⟨rfl⟩
        exact keys_loadContacts _ found

/- What a node that came up knows of itself. -/
def CameUp
    (unfold : Seed → PublicKey × PrivateKey)
    (s s' : DataFolder)
    (store : Store) :
    Prop :=
  s'.alone .key = some store.selfSk.toList ∧
    (store.selfPk, store.selfSk) =
        unfold (seedOf store.selfSk) ∧
      (s.alone .key = none → s'.kept .key = true)

/-
  Whatever a start does, it does not touch a key that is
  there. A node comes up with what its file holds; and where
  there was none, it made one.
-/
theorem Store.loadOrCreate_guards
    {unfold : Seed → PublicKey × PrivateKey}
    (hUnfold : ∀ seed, seedOf (unfold seed).2 = seed)
    (n : Nat) (seed : Seed)
    (hHolds : d.Holds s) :
    (Store.loadOrCreate unfold n seed).Guards Disk.Does
      (HoldsBooted s)
      (fun _ came d' =>
        ∃ s', d'.Holds s' ∧ Booted s s' ∧
          ∀ store, came = some (some store) →
            CameUp unfold s s' store)
      d := by
  have hHere : HoldsBooted s d := ⟨s, hHolds, .inl rfl⟩
  refine ⟨hHere, ?_⟩
  rintro made d rfl
  cases made with
  | false =>
      exact ⟨hHere, s, hHolds, .inl rfl,
        fun _ h => by cases h⟩
  | true =>
      refine ⟨hHere, ?_⟩
      rintro there d ⟨hThere, rfl⟩
      cases there with
      | true =>
          change
            (loadKeypair unfold >>= _).Guards _ _ _ d
          rw [guards_bind]
          apply
            (loadKeypair_guards hHere).mono (fun _ h => h)
          rintro calls loaded d ⟨rfl, hLoaded⟩
          cases loaded with
          | none =>
              exact ⟨hHere, s, hHolds, .inl rfl,
                fun _ h => by cases h⟩
          | some pair =>
              rcases hLoaded pair rfl with ⟨hReads, hPair⟩
              rw [hHolds.lone.alone] at hReads
              change (loadStore pair >>= _).Guards _ _ _ d
              rw [guards_bind]
              apply
                (loadStore_guards hHere pair).mono
                  (fun _ h => h)
              rintro more store d ⟨rfl, hStore⟩
              refine ⟨hHere, s, hHolds, .inl rfl, ?_⟩
              rintro store' ⟨rfl⟩
              rcases Prod.mk.inj (hStore store' rfl) with
                ⟨hPk, hSk⟩
              refine ⟨?_, ?_, ?_⟩
              · rw [hReads, hSk]
              · rw [hPk, hSk]
                exact hPair
              · intro hNone
                rw [hNone] at hReads
                cases hReads
      | false =>
          have hNone : s.alone .key = none := by
            rw [← hHolds.lone.alone]
            have hAbsent : d.entries (.lone .key) = none :=
              Option.isNone_iff_eq_none.mp
                (Option.isSome_eq_false_iff.mp hThere.symm)
            rw [Disk.reads, hAbsent]
            rfl
          change
            (saveKeypair n (unfold seed).2 >>= _).Guards
              _ _ _ d
          rw [guards_bind]
          apply
            (saveKeypair_guards hHolds hNone n _).mono
              (fun _ h => h)
          rintro calls ok d₁
            ⟨-, s', hHolds', hBooted, hSaved⟩
          have hHere' : HoldsBooted s d₁ :=
            ⟨s', hHolds', hBooted⟩
          rcases ok with _ | (_ | _)
          · exact ⟨hHere', s', hHolds', hBooted,
              fun _ h => by cases h⟩
          · exact ⟨hHere', s', hHolds', hBooted,
              fun _ h => by cases h⟩
          · change
              (loadStore (unfold seed) >>= _).Guards _ _ _
                d₁
            rw [guards_bind]
            apply
              (loadStore_guards hHere' _).mono (fun _ h => h)
            rintro more store d₁ ⟨rfl, hStore⟩
            refine ⟨hHere', s', hHolds', hBooted, ?_⟩
            rintro store' ⟨rfl⟩
            rcases Prod.mk.inj (hStore store' rfl) with
              ⟨hPk, hSk⟩
            rw [hSaved rfl]
            refine ⟨?_, ?_, ?_⟩
            · rw [hSk, Folder.alone_keep,
                Folder.alone_scribble_self]
            · rw [hPk, hSk, hUnfold]
            · exact fun _ => Folder.kept_keep_self _ _

end Guarantees

end MeshCore
