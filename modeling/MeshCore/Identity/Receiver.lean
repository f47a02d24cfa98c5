import MeshCore.Crypto.Protocol
import MeshCore.Identity.Index

/-
  What a received advert does to the contacts. It is noted
  before deduplication looks at the frame, so every copy of
  an advert is noted: the last one decides what is said of
  the link, whoever sent it on.

  Telemetry and the log are left out, and so is the router
  behind, which only ever asks the store for secrets.

  Key definitions include:
    * `Receiver.rememberIfAdvert`
    * `Receiver.Copy`, `Receiver.Straight`

  Key facts include:
    * `Receiver.rememberIfAdvert_eq`
    * `Receiver.rememberIfAdvert_copy`
    * `Receiver.neighbour_iff_last`
    * `Receiver.neighbour_whatever_the_order_iff`
-/

namespace MeshCore

------------------------------------------------------------
-- Receiving
------------------------------------------------------------

/- A frame, and when and how well it was heard. -/
structure Reception where
  frame : Bytes
  wall : UInt32
  snr : Int16
deriving DecidableEq

namespace Receiver

/- A copy that came straight from its author. -/
def Straight (r : Reception) : Prop :=
  match parse r.frame with
  | some p => p.path = []
  | none => False

instance (r : Reception) : Decidable (Straight r) := by
  unfold Straight
  split <;> infer_instance

/- An empty path has no hops. -/
theorem straight_iff
    {r : Reception} {p : Packet}
    (hParse : parse r.frame = some p) :
    Straight r ↔ p.hopCount = 0 := by
  have hValid := parse_valid hParse
  have hLength := hValid.path_length
  have hSize := hValid.hashSize_pos
  rw [← UInt8.toNat_inj]
  simp only [Straight, hParse, Packet.pathSize] at hLength ⊢
  rw [← List.length_eq_zero_iff, hLength, Nat.mul_eq_zero]
  change _ ↔ p.hopCount.toNat = 0
  omega

/- Noting how a contact was heard is about contacts only. -/
theorem noteHeard_eq
    (store : Store) (pk : PublicKey)
    (wall : UInt32) (snr : Int16) (hops : UInt8) :
    ∃ contacts,
      store.noteHeard pk wall snr hops =
        { store with contacts := contacts } := by
  unfold Store.noteHeard
  split
  · exact ⟨store.contacts, rfl⟩
  · exact ⟨_, rfl⟩

/- An advert is about the contacts and their index only. -/
theorem remember_eq
    (store : Store) (advert : Advert) :
    ∃ contacts buckets,
      (store.remember advert).2 =
        { store with
          contacts := contacts
          buckets := buckets } := by
  have hCases := Store.remember_cases store advert
  generalize (store.remember advert).1 = update at hCases
  generalize (store.remember advert).2 = store' at hCases ⊢
  cases hCases with
  | rejected => exact ⟨store.contacts, store.buckets, rfl⟩
  | stale => exact ⟨store.contacts, store.buckets, rfl⟩
  | updated => exact ⟨_, store.buckets, rfl⟩
  | added => exact ⟨_, _, rfl⟩
  | evicted => exact ⟨_, _, rfl⟩

@[simp] theorem selfPk_noteHeard
    (store : Store) (pk : PublicKey)
    (wall : UInt32) (snr : Int16) (hops : UInt8) :
    (store.noteHeard pk wall snr hops).selfPk =
      store.selfPk := by
  rcases noteHeard_eq store pk wall snr hops with
    ⟨contacts, hEq⟩
  rw [hEq]

@[simp] theorem selfPk_remember
    (store : Store) (advert : Advert) :
    (store.remember advert).2.selfPk = store.selfPk := by
  rcases remember_eq store advert with
    ⟨contacts, buckets, hEq⟩
  rw [hEq]

theorem length_publicKey
    {payload : Bytes} {advert : Advert}
    (hDecode : decodeAdvert payload = some advert) :
    advert.publicKey.length = packetPublicKeySize := by
  simp only [decodeAdvert] at hDecode
  split_ifs at hDecode with hShort
  rw [← Option.some.inj hDecode]
  simp only [subspan, List.length_take, List.drop_zero]
  simp only [advertPayloadSize] at hShort
  omega

section Adverts

variable [CryptoCore]

/-
  Signature first. Our own advert, handed back, is not
  recorded; any other is noted whatever `remember` made of
  the claim inside.
-/
def rememberIfAdvert
    (store : Store)
    (r : Reception) :
    Store :=
  match parse r.frame with
  | none => store
  | some p =>
      if p.payloadType ≠ .advert then store
      else if !packetVerify r.frame then store
      else
        match decodeAdvert p.payload with
        | none => store
        | some advert =>
            if advert.publicKey = store.selfPk.toList then
              store
            else
              (store.remember advert).2.noteHeard
                (copyInto _ advert.publicKey)
                r.wall r.snr p.hopCount

/- Whatever is heard, only the contacts are changed. -/
theorem rememberIfAdvert_eq
    (store : Store)
    (r : Reception) :
    ∃ contacts buckets,
      rememberIfAdvert store r =
        { store with
          contacts := contacts
          buckets := buckets } := by
  have hSame :
      ∃ contacts buckets,
        store =
          { store with
            contacts := contacts
            buckets := buckets } :=
    ⟨store.contacts, store.buckets, rfl⟩
  unfold rememberIfAdvert
  cases parse r.frame with
  | none => exact hSame
  | some p =>
      simp only
      split
      · exact hSame
      · split
        · exact hSame
        · cases decodeAdvert p.payload with
          | none => exact hSame
          | some advert =>
              simp only
              split
              · exact hSame
              · rcases remember_eq store advert with
                  ⟨contacts, buckets, hTaken⟩
                rcases noteHeard_eq
                    (store.remember advert).2
                    (copyInto _ advert.publicKey)
                    r.wall r.snr p.hopCount with
                  ⟨noted, hNoted⟩
                rw [hNoted, hTaken]
                exact ⟨noted, buckets, rfl⟩

/- A verified copy of the advert in this payload. -/
def Copy (payload : Bytes) (r : Reception) : Prop :=
  packetVerify r.frame = true ∧
    ∃ p,
      parse r.frame = some p ∧
        p.payloadType = .advert ∧
        p.payload = payload

/- The contacts after frames, one by one. -/
def hear (store : Store) (rs : List Reception) : Store :=
  rs.foldl rememberIfAdvert store

section Copies

variable {store : Store}
variable {payload : Bytes} {advert : Advert}

/- One copy: it alone says whether this is a neighbour. -/
theorem rememberIfAdvert_copy
    {r : Reception}
    (hIndexed : store.Indexed)
    (hDecode : decodeAdvert payload = some advert)
    (hOther : advert.publicKey ≠ store.selfPk.toList)
    (hCopy : Copy payload r) :
    (rememberIfAdvert store r).Indexed ∧
      (rememberIfAdvert store r).selfPk = store.selfPk ∧
      ((rememberIfAdvert store r).HasNeighbour
          (copyInto _ advert.publicKey) ↔
        Straight r ∧ r.wall ≠ 0) := by
  rcases hCopy with ⟨hVerify, p, hParse, hType, rfl⟩
  have hStraight := straight_iff hParse
  rcases hIndexed.remember (length_publicKey hDecode) with
    ⟨hNext, hFound⟩
  simp only [rememberIfAdvert, hParse, hType, hVerify,
    hDecode, hOther, ne_eq, not_true_eq_false,
    Bool.not_true, Bool.false_eq_true, if_false,
    selfPk_noteHeard, selfPk_remember]
  refine ⟨hNext.noteHeard _ _ _ _, True.intro, ?_⟩
  rcases Store.contactOf_noteHeard hFound r.wall r.snr
      p.hopCount with ⟨c, hContact, hPk, hHeard, hHops⟩
  constructor
  · rintro ⟨d, hOther', hNeighbour⟩
    rw [hContact] at hOther'
    rw [← Option.some.inj hOther'] at hNeighbour
    have hBoth := of_decide_eq_true hNeighbour
    rw [hHeard, hHops] at hBoth
    exact ⟨hStraight.mpr hBoth.2, hBoth.1⟩
  · rintro ⟨hPath, hWall⟩
    refine ⟨c, hContact, decide_eq_true ?_⟩
    rw [hHeard, hHops]
    exact ⟨hWall, hStraight.mp hPath⟩

/- Of several copies the last one decides. -/
theorem neighbour_iff_last
    {copies : List Reception} {last : Reception}
    (hIndexed : store.Indexed)
    (hDecode : decodeAdvert payload = some advert)
    (hOther : advert.publicKey ≠ store.selfPk.toList)
    (hCopies : ∀ r ∈ copies ++ [last], Copy payload r) :
    (hear store (copies ++ [last])).Indexed ∧
      ((hear store (copies ++ [last])).HasNeighbour
          (copyInto _ advert.publicKey) ↔
        Straight last ∧ last.wall ≠ 0) := by
  have hBefore :
      (hear store copies).Indexed ∧
        (hear store copies).selfPk = store.selfPk := by
    have hEach : ∀ r ∈ copies, Copy payload r := by
      intro r hr
      exact hCopies r (List.mem_append_left _ hr)
    clear hCopies
    induction copies using List.reverseRecOn with
    | nil => exact ⟨hIndexed, rfl⟩
    | append_singleton copies r ih =>
        rcases ih fun q hq => hEach q (by simp [hq]) with
          ⟨hThis, hSelf⟩
        have hOther' :
            advert.publicKey ≠
              (hear store copies).selfPk.toList := by
          rw [hSelf]
          exact hOther
        rcases rememberIfAdvert_copy hThis hDecode hOther'
            (hEach r (by simp)) with ⟨hNext, hSame, _⟩
        simp only [hear, List.foldl_append,
          List.foldl_cons, List.foldl_nil] at hNext hSame ⊢
        simp only [hear] at hSelf
        exact ⟨hNext, hSame.trans hSelf⟩
  have hOther' :
      advert.publicKey ≠
        (hear store copies).selfPk.toList := by
    rw [hBefore.2]
    exact hOther
  rcases rememberIfAdvert_copy hBefore.1 hDecode hOther'
      (hCopies last (by simp)) with ⟨hNext, _, hIff⟩
  simp only [hear, List.foldl_append, List.foldl_cons,
    List.foldl_nil] at hNext hIff ⊢
  exact ⟨hNext, hIff⟩

/-
  A contact is a neighbour because of the last copy of its
  advert and of no other. So that is what the copies
  together say when the last one came straight, or none did;
  and it is what they say in any order when all of them came
  straight, or none did.
-/
theorem neighbour_by_all_copies_iff
    {copies : List Reception}
    (hIndexed : store.Indexed)
    (hDecode : decodeAdvert payload = some advert)
    (hOther : advert.publicKey ≠ store.selfPk.toList)
    (hCopies : ∀ r ∈ copies, Copy payload r)
    (hSome : copies ≠ []) :
    (∀ limit,
      (hear store copies).contacts.length ≤ limit →
        ((∃ c ∈ (hear store copies).neighbours limit,
            c.pk = copyInto _ advert.publicKey) ↔
          (hear store copies).HasNeighbour
            (copyInto _ advert.publicKey))) ∧
    (((hear store copies).HasNeighbour
          (copyInto _ advert.publicKey) ↔
        ∃ r ∈ copies, Straight r) ↔
      ((∃ r ∈ copies, Straight r) →
        ∃ last,
          copies.getLast? = some last ∧
            Straight last ∧ last.wall ≠ 0)) ∧
    ((∀ copies',
        copies'.Perm copies →
          ((hear store copies').HasNeighbour
              (copyInto _ advert.publicKey) ↔
            ∃ r ∈ copies, Straight r)) ↔
      (∀ r ∈ copies, ¬ Straight r) ∨
        ∀ r ∈ copies, Straight r ∧ r.wall ≠ 0) := by
  -- what every order of the copies comes to
  have hOrder :
      ∀ others last,
        (others ++ [last]).Perm copies →
          (hear store (others ++ [last])).Indexed ∧
            ((hear store (others ++ [last])).HasNeighbour
                (copyInto _ advert.publicKey) ↔
              Straight last ∧ last.wall ≠ 0) := by
    intro others last hPerm
    apply neighbour_iff_last hIndexed hDecode hOther
    intro r hr
    exact hCopies r (hPerm.mem_iff.mp hr)
  rcases List.eq_nil_or_concat copies with
    hNil | ⟨others, last, hSplit⟩
  · exact absurd hNil hSome
  rw [List.concat_eq_append] at hSplit
  subst hSplit
  rcases hOrder others last (List.Perm.refl _) with
    ⟨hAfter, hLast⟩
  refine ⟨?_, ?_, ?_⟩
  · intro limit hLimit
    exact hAfter.mem_neighbours_iff hLimit _
  · rw [hLast]
    simp only [List.getLast?_concat, Option.some.injEq,
      exists_eq_left']
    constructor
    · intro hIff hAny
      exact hIff.mpr hAny
    · intro hAny
      refine ⟨?_, hAny⟩
      intro hHere
      exact ⟨last, by simp, hHere.1⟩
  · constructor
    · intro hAll
      by_cases hAny : ∃ r ∈ others ++ [last], Straight r
      · right
        intro r hr
        -- any copy may be the one that comes last
        rcases List.append_of_mem hr with ⟨as, bs, hCut⟩
        have hPerm :
            (as ++ bs ++ [r]).Perm (others ++ [last]) := by
          rw [hCut, List.append_assoc]
          exact (List.perm_append_comm).append_left as
        have hThis := hAll _ hPerm
        rw [(hOrder _ _ hPerm).2] at hThis
        exact hThis.mpr hAny
      · left
        intro r hr hStraight
        exact hAny ⟨r, hr, hStraight⟩
    · intro hCase copies' hPerm
      rcases List.eq_nil_or_concat copies' with
        hNil | ⟨others', last', hSplit⟩
      · rw [hNil] at hPerm
        exact absurd hPerm.symm.eq_nil hSome
      rw [List.concat_eq_append] at hSplit
      subst hSplit
      rw [(hOrder _ _ hPerm).2]
      have hMem : last' ∈ others ++ [last] :=
        hPerm.mem_iff.mp (by simp)
      rcases hCase with hNone | hEvery
      · constructor
        · rintro ⟨hStraight, _⟩
          exact absurd hStraight (hNone _ hMem)
        · rintro ⟨r, hr, hStraight⟩
          exact absurd hStraight (hNone r hr)
      · exact iff_of_true (hEvery _ hMem)
          ⟨last', hMem, (hEvery _ hMem).1⟩

end Copies

end Adverts

------------------------------------------------------------
-- Two Copies
------------------------------------------------------------

section Example

open Sample

/- An advert of a node whose key is all twos. -/
def someAdvert : Bytes :=
  List.replicate advertPayloadSize 2

def ourselves : Store :=
  .ofByte 1

/- As its author sent it, and as the node 9 sent it on. -/
def straightCopy (wall : UInt32) : Reception :=
  { frame := [0x11, 0x00] ++ someAdvert
    wall := wall
    snr := 40 }

def echoedCopy (wall : UInt32) : Reception :=
  { frame := [0x11, 0x01, 0x09] ++ someAdvert
    wall := wall
    snr := 12 }

theorem straight_copy_makes_a_neighbour :
    (hear ourselves [echoedCopy 100,
        straightCopy 101]).HasNeighbour
      (Vector.replicate packetPublicKeySize 2) ↔
    ∃ r ∈ [echoedCopy 100, straightCopy 101],
      Straight r :=
  (neighbour_by_all_copies_iff
    (Store.indexed_new _ _)
    (rfl : decodeAdvert someAdvert = some _)
    (by decide +kernel)
    (by
      intro r hr
      refine ⟨by revert r; decide +kernel, ?_⟩
      rcases List.mem_cons.mp hr with rfl | hr
      · exact ⟨_, rfl, rfl, rfl⟩
      · rcases List.mem_cons.mp hr with rfl | hr
        · exact ⟨_, rfl, rfl, rfl⟩
        · exact absurd hr List.not_mem_nil)
    (by simp)).2.1.mpr
      (by
        intro _
        exact ⟨straightCopy 101, rfl, by decide +kernel⟩)

theorem echo_ends_the_neighbourhood :
    ¬ ∀ (store : Store) (payload : Bytes)
        (advert : Advert) (copies : List Reception),
      store.Indexed →
      decodeAdvert payload = some advert →
      advert.publicKey ≠ store.selfPk.toList →
      (∀ r ∈ copies, Copy payload r) →
        ((hear store copies).HasNeighbour
            (copyInto _ advert.publicKey) ↔
          ∃ r ∈ copies, Straight r) := by
  intro hAll
  have hThis :=
    hAll ourselves someAdvert _
      [straightCopy 100, echoedCopy 101]
      (Store.indexed_new _ _) rfl (by decide +kernel)
      (by
        intro r hr
        refine ⟨by revert r; decide +kernel, ?_⟩
        rcases List.mem_cons.mp hr with rfl | hr
        · exact ⟨_, rfl, rfl, rfl⟩
        · rcases List.mem_cons.mp hr with rfl | hr
          · exact ⟨_, rfl, rfl, rfl⟩
          · exact absurd hr List.not_mem_nil)
  exact absurd hThis (by decide +kernel)

end Example

end Receiver

end MeshCore
