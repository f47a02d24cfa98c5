import MeshCore.Node.Loop
import MeshCore.Routing.Peers

/-
  Who is heard. An envelope names its sender with one byte;
  who could have stamped it are the contacts of that byte,
  and the first few of those who are logged in under it.

  Key definitions include:
    * `Node.Listed`
    * `Node.SealedFor`, `Node.TheirsAlone`

  Key facts include:
    * `Node.secrets_of_run`
    * `Node.listed_of_few`
    * `Node.logged_in_is_heard_iff`
-/

namespace MeshCore

namespace Node

variable {η : Type}

section Steps

variable [CryptoCore]

------------------------------------------------------------
-- Cached Secrets
------------------------------------------------------------

/- Every turn keeps the cache of secrets honest. -/
theorem secrets_apply
    {s : Node η}
    (hSecrets : s.2.store.CachesSecrets)
    (e : Event η) :
    (apply s e).2.store.CachesSecrets := by
  cases e with
  | frame frame rx wall =>
      have hHeard :
          (hear s frame rx wall).2.store.CachesSecrets := by
        rcases Receiver.rememberIfAdvert_eq s.2.store
            { frame := frame, wall := wall, snr := rx.snr }
          with ⟨contacts, buckets, hEq⟩
        simp only [hear, hEq]
        exact hSecrets
      exact Router.onFrame_secrets frame rx hHeard
  | routing now =>
      rw [apply, Router.tick_store]
      exact hSecrets
  | board now => exact Router.run_secrets _ hSecrets
  | _ => exact hSecrets

theorem secrets_of_run
    {s₀ s : Node η} {ts : List (Turn η)}
    (hRun : Run Step s₀ ts s)
    (hSecrets : s₀.2.store.CachesSecrets) :
    s.2.store.CachesSecrets := by
  apply hRun.invariant
    (I := fun s => s.2.store.CachesSecrets) hSecrets
  rintro s e s' hHere rfl
  exact secrets_apply hHere e

------------------------------------------------------------
-- Who Is Asked
------------------------------------------------------------

/-
  A key that its hash is resolved to: it advertised, or it
  is one of the first that are logged in under its hash.
-/
def Listed (s : Node η) (pk : PublicKey) : Prop :=
  (∃ contact ∈ s.2.store.findByHash (PublicKey.hash pk),
      contact.pk = pk) ∨
    pk ∈
      s.1.keysMatching (PublicKey.hash pk)
        maxLoggedInCandidates

/- What is addressed to us, stamped and sealed by a key. -/
def SealedFor
    (s : Node η)
    (p : Packet)
    (pk : PublicKey)
    (plain : Bytes) :
    Prop :=
  p.payloadType.isAddressed = true ∧
    ∃ envelope ∈ decodeEnvelope p.payload,
      envelope.destinationHash = s.2.store.selfHash ∧
        envelope.sourceHash = PublicKey.hash pk ∧
        ∃ secret ∈
            CryptoCore.deriveShared s.2.store.selfSk pk,
          openCiphertext secret
              (copyInto _ envelope.cipherMac)
              envelope.ciphertext
              envelope.ciphertext.length =
            some plain

instance
    (s : Node η)
    (p : Packet)
    (pk : PublicKey)
    (plain : Bytes) :
    Decidable (SealedFor s p pk plain) := by
  unfold SealedFor
  infer_instance

/- The code verifies under no secret with another key. -/
def TheirsAlone
    (s : Node η)
    (p : Packet)
    (pk : PublicKey) :
    Prop :=
  ∀ contact ∈
      Router.candidatesFor Room.delegate s
        (PublicKey.hash pk),
    contact.pk ≠ pk →
      ∀ envelope ∈ decodeEnvelope p.payload,
        ∀ secret ∈
            CryptoCore.deriveShared s.2.store.selfSk
              contact.pk,
          openCiphertext secret
              (copyInto _ envelope.cipherMac)
              envelope.ciphertext
              envelope.ciphertext.length =
            none

instance (s : Node η) (p : Packet) (pk : PublicKey) :
    Decidable (TheirsAlone s p pk) := by
  unfold TheirsAlone
  infer_instance

theorem listed_iff (s : Node η) (pk : PublicKey) :
    Listed s pk ↔
      ∃ contact ∈
          Router.candidatesFor Room.delegate s
            (PublicKey.hash pk),
        contact.pk = pk := by
  have hKeys :
      (Room.delegate.keysMatching s.1 (PublicKey.hash pk)
            maxLoggedInCandidates).take
          maxLoggedInCandidates =
        s.1.keysMatching (PublicKey.hash pk)
          maxLoggedInCandidates := by
    change (Room.keysMatching _ _ _).take _ = _
    rw [Room.keysMatching, List.take_take, Nat.min_self]
  unfold Listed Router.candidatesFor
  rw [hKeys]
  constructor
  · rintro (⟨contact, hContact, hKey⟩ | hKey)
    · exact ⟨contact, List.mem_append_left _ hContact, hKey⟩
    · exact ⟨.bare pk, List.mem_append_right _
        (List.mem_map_of_mem hKey), rfl⟩
  · rintro ⟨contact, hContact, hKey⟩
    rcases List.mem_append.mp hContact with hStored | hBare
    · exact .inl ⟨contact, hStored, hKey⟩
    · rcases List.mem_map.mp hBare with ⟨key, hIn, rfl⟩
      have hSame : key = pk := hKey
      rw [hSame] at hIn
      exact .inr hIn

omit [CryptoCore] in
/- Where few share a byte, all of them are listed. -/
theorem listed_of_few
    {s : Node η} {client : Client}
    (hClient : client ∈ s.1.clients)
    (hFew :
      s.1.clients.countP
          (PublicKey.hash ·.pk == PublicKey.hash client.pk) ≤
        maxLoggedInCandidates) :
    Listed s client.pk := by
  right
  have hAll :
      ((s.1.clients.map (·.pk)).filter
          (PublicKey.hash · ==
            PublicKey.hash client.pk)).length ≤
        maxLoggedInCandidates := by
    rw [List.filter_map, List.length_map,
      ← List.countP_eq_length_filter]
    exact hFew
  rw [Room.keysMatching, List.take_of_length_le hAll,
    List.mem_filter]
  exact ⟨List.mem_map_of_mem hClient, beq_self_eq_true _⟩

------------------------------------------------------------
-- Who Is Heard
------------------------------------------------------------

/- What is no advert is routed as it is. -/
theorem hear_of_other
    {s : Node η} {frame : Bytes} {p : Packet}
    (hParse : parse frame = some p)
    (hOther : p.payloadType ≠ .advert)
    (rx : RxMeta)
    (wall : UInt32) :
    hear s frame rx wall = s := by
  simp only [hear, Receiver.rememberIfAdvert, hParse]
  rw [if_pos hOther]

/-
  In every run of a node: what somebody who is logged in
  sealed for us reaches the room under its key, if the key
  is listed, and reaches nobody if it is not; and where no
  more than eight share its first byte, it is listed.
-/
theorem logged_in_is_heard_iff
    {room : Room η} {store : Store} {entropy : Entropy}
    {config : RouterConfig}
    {ts : List (Turn η)} {s : Node η}
    (hCold : store.secrets = [])
    (hRun :
      Run Step (room, Router.create store entropy config)
        ts s)
    {client : Client}
    (hClient : client ∈ s.1.clients)
    {frame : Bytes} {p : Packet} {plain : Bytes}
    (hTakes : Takes s frame p)
    (hSealed : SealedFor s p client.pk plain)
    (hOther : p.payloadType ≠ .path)
    (hAlone : TheirsAlone s p client.pk)
    (rx : RxMeta)
    (wall : UInt32) :
    (Listed s client.pk →
        ∃ contact r,
          contact.pk = client.pk ∧
            apply s (.frame frame rx wall) =
              Router.considerForwarding Room.delegate p rx
                (Router.answer Room.delegate (s.1, r)
                  (.payload contact p.payloadType plain))) ∧
      (¬ Listed s client.pk →
        ∃ r,
          apply s (.frame frame rx wall) =
            Router.considerForwarding Room.delegate p rx
              (s.1, r)) ∧
      (s.1.clients.countP
            (PublicKey.hash ·.pk ==
              PublicKey.hash client.pk) ≤
          maxLoggedInCandidates →
        Listed s client.pk) := by
  rcases hSealed with
    ⟨hType, envelope, hDecoded, hDest, hSource, secret,
      hShared, hOpens⟩
  rw [Option.mem_def] at hDecoded hShared
  have hNoAdvert : p.payloadType ≠ .advert := by
    intro hAdvert
    rw [hAdvert] at hType
    contradiction
  have hSecrets : s.2.store.CachesSecrets := by
    apply secrets_of_run hRun
    intro entry hEntry
    change entry ∈ store.secrets at hEntry
    rw [hCold] at hEntry
    contradiction
  have hStep :
      apply s (.frame frame rx wall) =
        Router.considerForwarding Room.delegate p rx
          (delivered s frame p) := by
    rw [apply, hear_of_other hTakes.1 hNoAdvert]
    exact onFrame_of_taken hTakes rx
  have hDelivered :
      delivered s frame p =
        Router.told Room.delegate s.1
          (Router.identified p
            (Router.identify envelope
              (Router.candidatesFor Room.delegate s
                (PublicKey.hash client.pk))
              (s.2.takeIn frame)).1
            (Router.identify envelope
              (Router.candidatesFor Room.delegate s
                (PublicKey.hash client.pk))
              (s.2.takeIn frame)).2) := by
    rw [delivered, Router.dispatch_eq,
      Router.upcall_of_addressed hType, Router.openForSelf]
    have hHere :
        envelope.destinationHash =
          (s.2.takeIn frame).store.selfHash :=
      hDest
    simp only [hDecoded]
    rw [if_neg (not_not.mpr hHere), hSource]
    rfl
  refine ⟨?_, ?_, listed_of_few hClient⟩
  · intro hListed
    rcases Router.identify_of_alone
        (r := s.2.takeIn frame) hSecrets hShared hOpens
        ((listed_iff s client.pk).mp hListed)
        fun contact hMem hNot =>
          hAlone contact hMem hNot envelope hDecoded with
      ⟨contact, hKey, hFound⟩
    rw [hStep, hDelivered, hFound]
    simp only [Router.identified, if_neg hOther]
    exact ⟨contact, _, hKey, rfl⟩
  · intro hNot
    have hNone :
        (Router.identify envelope
          (Router.candidatesFor Room.delegate s
            (PublicKey.hash client.pk))
          (s.2.takeIn frame)).1 = none :=
      Router.identify_of_none
        hSecrets fun contact hMem =>
          hAlone contact hMem
            (fun hKey =>
              hNot ((listed_iff s client.pk).mpr
                ⟨contact, hMem, hKey⟩))
            envelope hDecoded
    rw [hStep, hDelivered, hNone]
    exact ⟨_, rfl⟩

end Steps

------------------------------------------------------------
-- A Crowd Under One Byte
------------------------------------------------------------

section Example

open Sample

/- A room whose key is all twos, that anybody may read. -/
def freshRoom : Node Unit :=
  (.create { allowAnonymousRead := true } (),
    .ofByte 2 { seenSlots := 1 })

/- The keys of a crowd; they all begin with a seven. -/
def crowdKey (i : UInt8) : PublicKey :=
  copyInto _ [7, i]

/- What one of the crowd sends the room, who is near. -/
def crowdPacket
    (i : UInt8)
    (type : PayloadType)
    (front plain : Bytes) :
    Packet :=
  let sealing :=
    (CryptoCore.deriveShared freshRoom.2.store.selfSk
      (crowdKey i)).bind
        (sealPlaintext · plain maxPacketPayload)
  { header := headerOf type .direct
    hashSize := 1
    hopCount := 0
    path := []
    payload :=
      match sealing with
      | none => []
      | some sealing =>
          front ++ sealing.mac.toList ++
            sealing.ciphertext }

def frameOf (p : Packet) : Bytes :=
  (serialize p maxPacketFrame).getD []

/- Logins without a password, one of each key. -/
def crowdLogins (n : Nat) : List (Event Unit) :=
  (List.range n).map fun i =>
    let key := crowdKey (UInt8.ofNat i)
    .frame
      (frameOf
        (crowdPacket (UInt8.ofNat i) .anonReq
          (2 :: key.toList) (writeUint32 1 ++ writeUint32 0)))
      {} 0

def crowdedRoom (n : Nat) : Node Unit :=
  (crowdLogins n).foldl apply freshRoom

/- A packet of this key's, in an envelope for the room. -/
def crowdEnvelope
    (i : UInt8)
    (type : PayloadType)
    (plain : Bytes) :
    Packet :=
  crowdPacket i type [2, 7] plain

def crowdText (i : UInt8) : Packet :=
  crowdEnvelope i .txtMsg [1, 0, 0, 0, 0, 72]

/- Who is alone under a byte is heard. -/
theorem first_of_a_byte_is_heard :
    ∃ contact r,
      contact.pk = ((crowdedRoom 1).1.client 0).pk ∧
        apply (crowdedRoom 1)
            (.frame (frameOf (crowdText 0)) {} 0) =
          Router.considerForwarding Room.delegate
            (crowdText 0) {}
            (Router.answer Room.delegate
              ((crowdedRoom 1).1, r)
              (.payload contact (crowdText 0).payloadType
                [1, 0, 0, 0, 0, 72])) := by
  have hRun :
      Run Step freshRoom
        (replay apply freshRoom (crowdLogins 1))
        (crowdedRoom 1) :=
    run_replay apply freshRoom (crowdLogins 1)
  have hThere :
      (crowdedRoom 1).1.client 0 ∈
        (crowdedRoom 1).1.clients := by
    decide +kernel
  have hTakes :
      Takes (crowdedRoom 1) (frameOf (crowdText 0))
        (crowdText 0) := by
    decide +kernel
  have hSealed :
      SealedFor (crowdedRoom 1) (crowdText 0)
        ((crowdedRoom 1).1.client 0).pk
        [1, 0, 0, 0, 0, 72] := by
    decide +kernel
  have hAlone :
      TheirsAlone (crowdedRoom 1) (crowdText 0)
        ((crowdedRoom 1).1.client 0).pk := by
    decide +kernel
  have hHeard :=
    logged_in_is_heard_iff rfl hRun hThere hTakes hSealed
      (by decide +kernel) hAlone {} 0
  exact hHeard.1 (hHeard.2.2 (by decide +kernel))

/-
  The ninth is logged in like the others, and what it says
  reaches nobody; nor does a path that one of them returns.
-/
theorem ninth_of_a_byte_is_not_heard :
    (Run Step freshRoom
          (replay apply freshRoom (crowdLogins 9))
          (crowdedRoom 9) ∧
        let s := crowdedRoom 9
        let p := crowdText 8
        crowdKey 8 ∈ s.1.clients.map (·.pk) ∧
          Takes s (frameOf p) p ∧
          SealedFor s p (crowdKey 8) [1, 0, 0, 0, 0, 72] ∧
          TheirsAlone s p (crowdKey 8) ∧
          Router.opened Room.delegate (frameOf p) s =
            none) ∧
      Run Step freshRoom
          (replay apply freshRoom (crowdLogins 1))
          (crowdedRoom 1) ∧
        let s := crowdedRoom 1
        let p := crowdEnvelope 0 .path [0, 0]
        crowdKey 0 ∈ s.1.clients.map (·.pk) ∧
          Takes s (frameOf p) p ∧
          SealedFor s p (crowdKey 0) [0, 0] ∧
          TheirsAlone s p (crowdKey 0) ∧
          Router.opened Room.delegate (frameOf p) s =
            none :=
  ⟨⟨run_replay apply freshRoom (crowdLogins 9),
      by decide +kernel⟩,
    run_replay apply freshRoom (crowdLogins 1),
    by decide +kernel⟩

end Example

end Node

end MeshCore
