import MeshCore.Crypto.Sealing
import MeshCore.Routing.Routes

/-
  Two nodes that share a secret: what one of them seals is
  opened by the other as the first one's, and a flood that
  is opened is answered with the path it came by.

  Key definitions include:
    * `PayloadType.isAddressed`
    * `Router.Recognises`
    * `Router.returnedWire`

  Key facts include:
    * `Router.secrets_apply`
    * `Router.identify_eq`
    * `Router.authenticated_of_sealed`
    * `Router.upcall_of_sealed`
    * `Router.findRoute_of_told`
    * `Router.findRoute_of_returned`
    * `Router.pathErrand_mem_frameErrands`
-/

namespace MeshCore

/- What travels in an envelope, to one node. -/
def PayloadType.isAddressed : PayloadType → Bool
| .ack => false
| .anonReq => false
| .advert => false
| .trace => false
| .grpTxt => false
| .grpData => false
| _ => true

namespace Router

variable [CryptoCore]
variable {δ : Type} {D : Delegate δ}

------------------------------------------------------------
-- Cached Secrets
------------------------------------------------------------

theorem sender_secrets
    (op : SenderOp)
    {r : Router}
    (hSecrets : r.store.CachesSecrets) :
    (sender op r).2.store.CachesSecrets := by
  cases op with
  | sendDirect dest type payload wantAck =>
      simp only [sender, sendDirect]
      split
      · exact hSecrets.secretFor dest
      · unfold keepPending
        split <;> exact hSecrets.secretFor dest
  | sendAck dest value extra => exact hSecrets
  | sendFlood type payload => exact hSecrets
  | randomBytes n => exact hSecrets
  | store => exact hSecrets

theorem run_secrets
    {α : Type}
    (task : SenderM α)
    {r : Router}
    (hSecrets : r.store.CachesSecrets) :
    (task.run sender r).2.store.CachesSecrets := by
  apply Program.run_invariant
    (I := fun r : Router => r.store.CachesSecrets)
  · intro op r hSecrets
    exact sender_secrets op hSecrets
  · exact hSecrets

theorem told_secrets
    (d : δ)
    {t : Option Upcall × Router}
    (hSecrets : t.2.store.CachesSecrets) :
    (told D d t).2.store.CachesSecrets := by
  rcases t with ⟨none | u, r⟩
  · exact hSecrets
  · cases u with
    | payload contact type plain =>
        have hRan := run_secrets
          (D.onPayload d contact type plain) hSecrets
        simp only [told, answer, acknowledge]
        split
        · exact hRan
        · exact hRan
    | anon peer plain => exact run_secrets _ hSecrets
    | group type payload => exact run_secrets _ hSecrets
    | trace trace path => exact run_secrets _ hSecrets
    | acked entry => exact hSecrets

theorem onFrame_secrets
    (frame : Bytes)
    (rx : RxMeta)
    {s : δ × Router}
    (hSecrets : s.2.store.CachesSecrets) :
    (onFrame D frame rx s).2.store.CachesSecrets := by
  rcases onFrame_cases (D := D) frame rx s with
    ⟨hIgnored, -⟩ | ⟨-, ⟨hEcho, -⟩ | ⟨p, r, -, hUpcall, hEq⟩⟩
  · rw [hIgnored]
    exact hSecrets
  · rw [hEcho]
    exact hSecrets
  · have hTold := (upcall_calm (D := D) p
      (s.1, s.2.takeIn frame)).secrets hSecrets
    rw [hUpcall] at hTold
    rw [hEq]
    exact (considerForwarding_calm p rx _).secrets
      (told_secrets s.1 hTold)

omit [CryptoCore] in
/- Time leaves the store alone. -/
theorem tick_store
    (now : Millis)
    (s : δ × Router) :
    (tick D now s).2.store = s.2.store := by
  have hDrained :
      (drainQueue { s.2 with now := now }).store =
        s.2.store := by
    rw [drainQueue_eq]
  rw [← hDrained]
  apply retryPending_keeps
    (I := fun r =>
      r.store =
        (drainQueue { s.2 with now := now }).store)
  · exact fun r entry hHere => hHere
  · exact fun r frame hHere => hHere
  · rfl

/- Every event keeps the cache of secrets honest. -/
theorem secrets_apply
    {s : δ × Router}
    (hSecrets : s.2.store.CachesSecrets)
    (e : Event δ) :
    (apply D s e).2.store.CachesSecrets := by
  cases e with
  | frame frame rx => exact onFrame_secrets frame rx hSecrets
  | tick now =>
      rw [apply, tick_store]
      exact hSecrets
  | above task => exact run_secrets _ hSecrets

------------------------------------------------------------
-- Recognising A Peer
------------------------------------------------------------

/-
  The peer is among those who could have stamped its hash,
  and of all of these only its secret opens the envelope.
-/
structure Recognises
    (D : Delegate δ)
    (peer : PublicKey)
    (wire : Bytes)
    (s : δ × Router) :
    Prop where
  known :
    ∃ contact ∈ candidatesFor D s (PublicKey.hash peer),
      contact.pk = peer
  alone :
    ∀ contact ∈ candidatesFor D s (PublicKey.hash peer),
      contact.pk ≠ peer →
        ∀ envelope ∈ decodeEnvelope wire,
          ∀ secret ∈
              CryptoCore.deriveShared s.2.store.selfSk
                contact.pk,
            openCiphertext secret
                (copyInto _ envelope.cipherMac)
                envelope.ciphertext
                envelope.ciphertext.length =
              none

instance
    (D : Delegate δ)
    (peer : PublicKey)
    (wire : Bytes)
    (s : δ × Router) :
    Decidable (Recognises D peer wire s) :=
  decidable_of_iff (_ ∧ _)
    ⟨fun h => ⟨h.1, h.2⟩, fun h => ⟨h.known, h.alone⟩⟩

/- What the envelope of a peer's plaintext says. -/
theorem envelopeFor_eq_some
    {selfHash : UInt8} {secret : SharedSecret}
    {dest : PublicKey} {plaintext wire : Bytes}
    (hCipher : Deciphers)
    (hWire :
      envelopeFor selfHash secret dest plaintext =
        some wire) :
    ∃ envelope,
      decodeEnvelope wire = some envelope ∧
      envelope.destinationHash = PublicKey.hash dest ∧
      envelope.sourceHash = selfHash ∧
      openCiphertext secret (copyInto _ envelope.cipherMac)
          envelope.ciphertext envelope.ciphertext.length =
        some plaintext := by
  unfold envelopeFor at hWire
  cases hSealed :
      sealPlaintext secret plaintext maxPacketPayload with
  | none => simp [hSealed] at hWire
  | some sealing =>
      simp only [hSealed] at hWire
      refine ⟨_, decodeEnvelope_encodeEnvelope hWire, rfl,
        rfl, ?_⟩
      simp only [copyInto_toList]
      exact openCiphertext_sealPlaintext hCipher hSealed

/- An envelope fits a packet. -/
theorem length_envelopeFor
    {selfHash : UInt8} {secret : SharedSecret}
    {dest : PublicKey} {plaintext wire : Bytes}
    (hWire :
      envelopeFor selfHash secret dest plaintext =
        some wire) :
    wire.length ≤ maxPacketPayload := by
  unfold envelopeFor at hWire
  cases hSealed :
      sealPlaintext secret plaintext maxPacketPayload with
  | none => simp [hSealed] at hWire
  | some sealing =>
      simp only [hSealed] at hWire
      exact length_encodeEnvelope hWire

/- What a candidate's secret makes of an envelope. -/
def openedBy
    (sk : PrivateKey)
    (envelope : Envelope)
    (candidate : Contact) :
    Option (Contact × Bytes) :=
  ((CryptoCore.deriveShared sk candidate.pk).bind
    fun secret =>
      openCiphertext secret (copyInto _ envelope.cipherMac)
        envelope.ciphertext envelope.ciphertext.length).map
    (candidate, ·)

/- Whoever opens it first is the one. -/
theorem identify_eq
    {envelope : Envelope} {candidates : List Contact}
    {r : Router}
    (hSecrets : r.store.CachesSecrets) :
    (identify envelope candidates r).1 =
      candidates.findSome?
        (openedBy r.store.selfSk envelope) := by
  induction candidates generalizing r with
  | nil => rfl
  | cons candidate rest ih =>
      have hDerived :
          (r.secretFor candidate.pk).1 =
            CryptoCore.deriveShared r.store.selfSk
              candidate.pk :=
        hSecrets.secretFor_eq candidate.pk
      have hSelf :
          (r.secretFor candidate.pk).2.store.selfSk =
            r.store.selfSk :=
        (secretFor_does r candidate.pk).selfSk
      unfold identify
      simp only [hDerived, List.findSome?_cons, openedBy]
      cases (CryptoCore.deriveShared r.store.selfSk
          candidate.pk).bind fun secret =>
            openCiphertext secret
              (copyInto _ envelope.cipherMac)
              envelope.ciphertext
              envelope.ciphertext.length with
      | some plain => rfl
      | none =>
          have hKept :
              (r.secretFor
                candidate.pk).2.store.CachesSecrets :=
            hSecrets.secretFor candidate.pk
          have hRest := ih hKept
          rw [hSelf] at hRest
          exact hRest

/- A secret that opens nothing makes nothing of it. -/
theorem openedBy_of_shut
    {sk : PrivateKey} {envelope : Envelope}
    {candidate : Contact}
    (hShut :
      ∀ secret ∈ CryptoCore.deriveShared sk candidate.pk,
        openCiphertext secret
            (copyInto _ envelope.cipherMac)
            envelope.ciphertext
            envelope.ciphertext.length =
          none) :
    openedBy sk envelope candidate = none := by
  rw [openedBy, Option.bind_eq_none_iff.mpr hShut]
  rfl

/- The first that opens it is the peer. -/
theorem identify_of_alone
    {envelope : Envelope} {peer : PublicKey}
    {secret : SharedSecret} {plain : Bytes}
    {candidates : List Contact} {r : Router}
    (hSecrets : r.store.CachesSecrets)
    (hShared :
      CryptoCore.deriveShared r.store.selfSk peer =
        some secret)
    (hOpens :
      openCiphertext secret (copyInto _ envelope.cipherMac)
          envelope.ciphertext envelope.ciphertext.length =
        some plain)
    (hKnown : ∃ contact ∈ candidates, contact.pk = peer)
    (hAlone :
      ∀ contact ∈ candidates, contact.pk ≠ peer →
        ∀ secret ∈
            CryptoCore.deriveShared r.store.selfSk
              contact.pk,
          openCiphertext secret
              (copyInto _ envelope.cipherMac)
              envelope.ciphertext
              envelope.ciphertext.length =
            none) :
    ∃ contact,
      contact.pk = peer ∧
      (identify envelope candidates r).1 =
        some (contact, plain) := by
  have hPeer :
      ∀ contact : Contact, contact.pk = peer →
        openedBy r.store.selfSk envelope contact =
          some (contact, plain) := by
    rintro contact rfl
    rw [openedBy, hShared, Option.bind_some, hOpens]
    rfl
  rw [identify_eq hSecrets]
  cases hFound :
      candidates.findSome?
        (openedBy r.store.selfSk envelope) with
  | none =>
      rcases hKnown with ⟨contact, hMem, hContact⟩
      rw [List.findSome?_eq_none_iff] at hFound
      have hNone := hFound contact hMem
      rw [hPeer contact hContact] at hNone
      contradiction
  | some found =>
      rcases List.exists_of_findSome?_eq_some hFound with
        ⟨contact, hMem, hOpened⟩
      by_cases hContact : contact.pk = peer
      · rw [hPeer contact hContact] at hOpened
        exact ⟨contact, hContact, hOpened.symm⟩
      · rw [openedBy_of_shut (hAlone contact hMem hContact)]
          at hOpened
        contradiction

/- Where nobody's secret opens it, nobody is identified. -/
theorem identify_of_none
    {envelope : Envelope} {candidates : List Contact}
    {r : Router}
    (hSecrets : r.store.CachesSecrets)
    (hNone :
      ∀ contact ∈ candidates,
        ∀ secret ∈
            CryptoCore.deriveShared r.store.selfSk
              contact.pk,
          openCiphertext secret
              (copyInto _ envelope.cipherMac)
              envelope.ciphertext
              envelope.ciphertext.length =
            none) :
    (identify envelope candidates r).1 = none := by
  rw [identify_eq hSecrets, List.findSome?_eq_none_iff]
  intro contact hMem
  exact openedBy_of_shut (hNone contact hMem)

theorem upcall_of_addressed
    {p : Packet}
    (hType : p.payloadType.isAddressed = true)
    (s : δ × Router) :
    upcall D p s = openForSelf D p s := by
  unfold upcall
  cases hCase : p.payloadType <;>
    first
      | rfl
      | rw [hCase] at hType
        contradiction

theorem authenticated_of_addressed
    {p : Packet}
    (hType : p.payloadType.isAddressed = true)
    (s : δ × Router) :
    authenticated D p s = authenticatedSelf D p s := by
  unfold authenticated
  cases hCase : p.payloadType <;>
    first
      | rfl
      | rw [hCase] at hType
        contradiction

theorem upcallErrands_of_addressed
    {p : Packet}
    (hType : p.payloadType.isAddressed = true)
    (s : δ × Router) :
    upcallErrands D p s = selfErrands D p s := by
  unfold upcallErrands
  cases hCase : p.payloadType <;>
    first
      | rfl
      | rw [hCase] at hType
        contradiction

/- What a peer sealed for us is opened as the peer's. -/
theorem identify_of_sealed
    {p : Packet} {peer : PublicKey}
    {secret : SharedSecret} {plain : Bytes}
    {s : δ × Router}
    (hCipher : Deciphers)
    (hSecrets : s.2.store.CachesSecrets)
    (hShared :
      CryptoCore.deriveShared s.2.store.selfSk peer =
        some secret)
    (hSealed :
      envelopeFor (PublicKey.hash peer) secret
          s.2.store.selfPk plain =
        some p.payload)
    (hPeer : Recognises D peer p.payload s) :
    ∃ envelope contact,
      contact.pk = peer ∧
      decodeEnvelope p.payload = some envelope ∧
      envelope.destinationHash = s.2.store.selfHash ∧
      (identify envelope
          (candidatesFor D s envelope.sourceHash) s.2).1 =
        some (contact, plain) := by
  rcases envelopeFor_eq_some hCipher hSealed with
    ⟨envelope, hDecoded, hDest, hSource, hOpens⟩
  have hFound :
      ∃ contact,
        contact.pk = peer ∧
        (identify envelope
            (candidatesFor D s envelope.sourceHash) s.2).1 =
          some (contact, plain) := by
    rw [hSource]
    apply identify_of_alone hSecrets hShared hOpens
    · exact hPeer.known
    · intro contact hMem hOther
      exact hPeer.alone contact hMem hOther envelope hDecoded
  rcases hFound with ⟨contact, hContact, hFound⟩
  exact ⟨envelope, contact, hContact, hDecoded, hDest,
    hFound⟩

theorem authenticated_of_sealed
    {p : Packet} {peer : PublicKey}
    {secret : SharedSecret} {plain : Bytes}
    {s : δ × Router}
    (hCipher : Deciphers)
    (hSecrets : s.2.store.CachesSecrets)
    (hShared :
      CryptoCore.deriveShared s.2.store.selfSk peer =
        some secret)
    (hType : p.payloadType.isAddressed = true)
    (hSealed :
      envelopeFor (PublicKey.hash peer) secret
          s.2.store.selfPk plain =
        some p.payload)
    (hPeer : Recognises D peer p.payload s) :
    authenticated D p s = some (peer, plain) := by
  rcases identify_of_sealed hCipher hSecrets hShared hSealed
      hPeer with
    ⟨envelope, contact, hContact, hDecoded, hDest, hFound⟩
  rw [authenticated_of_addressed hType, authenticatedSelf]
  simp only [hDecoded]
  rw [if_neg (not_not.mpr hDest), hFound, Option.map_some,
    hContact]

/- The layer above is told what it says. -/
theorem upcall_of_sealed
    {p : Packet} {peer : PublicKey}
    {secret : SharedSecret} {plain : Bytes}
    {s : δ × Router}
    (hCipher : Deciphers)
    (hSecrets : s.2.store.CachesSecrets)
    (hShared :
      CryptoCore.deriveShared s.2.store.selfSk peer =
        some secret)
    (hType : p.payloadType.isAddressed = true)
    (hOther : p.payloadType ≠ .path)
    (hSealed :
      envelopeFor (PublicKey.hash peer) secret
          s.2.store.selfPk plain =
        some p.payload)
    (hPeer : Recognises D peer p.payload s) :
    ∃ contact,
      contact.pk = peer ∧
      (upcall D p s).1 =
        some (.payload contact p.payloadType plain) := by
  rcases identify_of_sealed hCipher hSecrets hShared hSealed
      hPeer with
    ⟨envelope, contact, hContact, hDecoded, hDest, hFound⟩
  refine ⟨contact, hContact, ?_⟩
  rw [upcall_of_addressed hType, openForSelf]
  simp only [hDecoded]
  rw [if_neg (not_not.mpr hDest)]
  simp only [hFound, identified, if_neg hOther]

/- A frame that is taken in changes no candidates. -/
theorem Recognises.takeIn
    {peer : PublicKey} {wire : Bytes} {s : δ × Router}
    (hPeer : Recognises D peer wire s)
    (frame : Bytes) :
    Recognises D peer wire (s.1, s.2.takeIn frame) :=
  ⟨hPeer.known, hPeer.alone⟩

/- What a frame that is no flood holds from a peer. -/
theorem opened_of_sealed
    {frame : Bytes} {p : Packet} {peer : PublicKey}
    {secret : SharedSecret} {plain : Bytes}
    {s : δ × Router}
    (hCipher : Deciphers)
    (hSecrets : s.2.store.CachesSecrets)
    (hShared :
      CryptoCore.deriveShared s.2.store.selfSk peer =
        some secret)
    (hParse : parse frame = some p)
    (hDirect : p.routeType.isFlood = false)
    (hType : p.payloadType.isAddressed = true)
    (hOther : p.payloadType ≠ .path)
    (hSealed :
      envelopeFor (PublicKey.hash peer) secret
          s.2.store.selfPk plain =
        some p.payload)
    (hPeer : Recognises D peer p.payload s) :
    ∃ contact,
      contact.pk = peer ∧
      opened D frame s =
        some (.payload contact p.payloadType plain) := by
  have hTold :
      ∃ contact,
        contact.pk = peer ∧
        (upcall D p (s.1, s.2.takeIn frame)).1 =
          some (.payload contact p.payloadType plain) :=
    upcall_of_sealed hCipher hSecrets hShared hType hOther
      hSealed (hPeer.takeIn frame)
  rcases hTold with ⟨contact, hContact, hTold⟩
  refine ⟨contact, hContact, ?_⟩
  simp only [opened, hParse, Option.bind_some]
  rw [if_neg (by simp [isOwnEcho, hDirect]), hTold]

------------------------------------------------------------
-- The Path That Is Returned
------------------------------------------------------------

/- Only an envelope that was opened is told as a payload. -/
theorem openForSelf_of_told
    {p : Packet} {s : δ × Router}
    {contact : Contact} {type : PayloadType} {plain : Bytes}
    (hTold :
      (upcall D p s).1 =
        some (.payload contact type plain)) :
    p.payloadType.isAddressed = true ∧
      (openForSelf D p s).1 =
        some (.payload contact type plain) := by
  unfold upcall at hTold
  cases hType : p.payloadType with
  | ack =>
      simp only [hType] at hTold
      cases hDone : s.2.completedBy p.payload <;>
        simp [hDone] at hTold
  | anonReq =>
      simp only [hType] at hTold
      unfold openAnon at hTold
      grind
  | advert => simp [hType] at hTold
  | trace =>
      simp only [hType] at hTold
      cases hTrace : decodeTrace p.payload <;>
        simp [hTrace] at hTold
  | grpTxt => simp [hType] at hTold
  | grpData => simp [hType] at hTold
  | _ =>
      simp only [hType] at hTold
      exact ⟨rfl, hTold⟩

/- Whose envelope it was, and that it returned no path. -/
theorem identify_of_told
    {p : Packet} {s : δ × Router}
    {contact : Contact} {type : PayloadType} {plain : Bytes}
    (hTold :
      (upcall D p s).1 =
        some (.payload contact type plain)) :
    p.payloadType.isAddressed = true ∧
      p.payloadType ≠ .path ∧
      ∃ envelope,
        decodeEnvelope p.payload = some envelope ∧
        envelope.destinationHash = s.2.store.selfHash ∧
        (identify envelope
            (candidatesFor D s envelope.sourceHash) s.2).1 =
          some (contact, plain) := by
  rcases openForSelf_of_told hTold with ⟨hType, hOpen⟩
  refine ⟨hType, ?_, ?_⟩
  · intro hPath
    rw [openForSelf_path hPath] at hOpen
    contradiction
  · unfold openForSelf at hOpen
    cases hDecoded : decodeEnvelope p.payload with
    | none => simp [hDecoded] at hOpen
    | some envelope =>
        simp only [hDecoded] at hOpen
        by_cases hSelf :
            envelope.destinationHash ≠ s.2.store.selfHash
        · simp [if_pos hSelf] at hOpen
        · rw [if_neg hSelf] at hOpen
          refine ⟨envelope, rfl, not_not.mp hSelf, ?_⟩
          unfold identified at hOpen
          generalize identify envelope
            (candidatesFor D s envelope.sourceHash) s.2 =
              tried at hOpen ⊢
          rcases tried with ⟨none | ⟨found, text⟩, r⟩
          · simp at hOpen
          · by_cases hPath : p.payloadType = .path
            · simp only [if_pos hPath] at hOpen
              cases hReturned : decodePath text <;>
                simp [hReturned] at hOpen
            · simp only [if_neg hPath, Option.some.injEq,
                Upcall.payload.injEq] at hOpen
              rw [hOpen.1, hOpen.2.2]

/- What is new and no echo is heard from who sealed it. -/
theorem heardFrom_of_new
    {frame : Bytes} {p : Packet} {s : δ × Router}
    (hParse : parse frame = some p)
    (hNew : s.2.alreadySeen frame = false)
    (hOther : isOwnEcho p s.2.store.selfHash = false) :
    heardFrom D frame s =
      (authenticated D p (s.1, s.2.takeIn frame)).map
        fun heard => (p, heard) := by
  simp only [heardFrom, hParse]
  rw [if_neg (by simp [hNew]), if_neg (by simp [hOther])]

theorem heardFrom_of_told
    {frame : Bytes} {p : Packet} {s : δ × Router}
    {contact : Contact} {type : PayloadType} {plain : Bytes}
    (hParse : parse frame = some p)
    (hNew : s.2.alreadySeen frame = false)
    (hTold :
      opened D frame s =
        some (.payload contact type plain)) :
    heardFrom D frame s = some (p, contact.pk, plain) := by
  simp only [opened, hParse, Option.bind_some] at hTold
  split_ifs at hTold with hEcho
  rcases identify_of_told hTold with
    ⟨hType, -, envelope, hDecoded, hDest, hFound⟩
  rw [heardFrom_of_new hParse hNew
    (Bool.not_eq_true _ ▸ hEcho),
    authenticated_of_addressed hType, authenticatedSelf]
  simp only [hDecoded]
  rw [if_neg (not_not.mpr hDest), hFound]
  rfl

/- Whoever told us the flood is routed the way it came. -/
theorem findRoute_of_told
    {frame : Bytes} {p : Packet} {s : δ × Router}
    {contact : Contact} {type : PayloadType} {plain : Bytes}
    (hParse : parse frame = some p)
    (hNew : s.2.alreadySeen frame = false)
    (hTold :
      opened D frame s =
        some (.payload contact type plain))
    (hFlood : p.routeType = .flood)
    (hKeyed : s.2.RoutesKeyed)
    (rx : RxMeta) :
    (onFrame D frame rx s).2.findRoute contact.pk =
      some
        { dest := contact.pk, path := p.path.reverse } := by
  have hHeard := heardFrom_of_told hParse hNew hTold
  have hOther : p.payloadType ≠ .path := by
    simp only [opened, hParse, Option.bind_some] at hTold
    split_ifs at hTold
    exact (identify_of_told hTold).2.1
  rw [findRoute_onFrame hKeyed hHeard hFlood rx, lastRoute,
    returnedRoute, if_neg hOther]
  rfl

/- A path that a peer returned is installed for it. -/
theorem findRoute_of_returned
    {frame : Bytes} {p : Packet} {s : δ × Router}
    {peer : PublicKey} {plain : Bytes}
    {returned : PathReturn}
    (hParse : parse frame = some p)
    (hNew : s.2.alreadySeen frame = false)
    (hDirect : p.routeType.isFlood = false)
    (hPath : p.payloadType = .path)
    (hPeer :
      authenticated D p (s.1, s.2.takeIn frame) =
        some (peer, plain))
    (hReturned : decodePath plain = some returned)
    (hKeyed : s.2.RoutesKeyed)
    (rx : RxMeta) :
    (onFrame D frame rx s).2.findRoute peer =
      some { dest := peer, path := returned.path } := by
  have hOther :
      isOwnEcho p s.2.store.selfHash = false := by
    simp [isOwnEcho, hDirect]
  have hLearnt : learntRoute p = [] := by
    rw [learntRoute, if_neg]
    intro hFlood
    rw [hFlood] at hDirect
    contradiction
  rw [(onFrame_routes frame rx s).findRoute_eq, installsAt,
    heardFrom_of_new hParse hNew hOther, hPeer]
  simp only [Option.map_some, installHeard, installsOf,
    hLearnt, returnedRoute, if_pos hPath, hReturned,
    Option.toList_some]
  exact findRoute_installAll hKeyed peer [] returned.path

/- The envelope that a path is returned in. -/
def returnedWire
    (selfHash : UInt8)
    (secret : SharedSecret)
    (peer : PublicKey)
    (path : Bytes) :
    Option Bytes :=
  (encodePath
      { path := path, extraType := 0, extra := [] }
      maxPacketPayload).bind
    (envelopeFor selfHash secret peer)

/- Whatever leaves room for its padding is sealed. -/
theorem exists_envelopeFor
    (selfHash : UInt8)
    (secret : SharedSecret)
    (dest : PublicKey)
    {plaintext : Bytes}
    (hRoom :
      envelopePrefixSize + paddedLength plaintext.length ≤
        maxPacketPayload) :
    ∃ wire,
      envelopeFor selfHash secret dest plaintext =
        some wire := by
  cases hSealed :
      sealPlaintext secret plaintext maxPacketPayload with
  | none =>
      rw [sealPlaintext_eq, if_neg (by omega)] at hSealed
      contradiction
  | some sealing =>
      have hCiphertext := length_ciphertext hSealed
      have hFits :
          ¬ maxPacketPayload <
            envelopePrefixSize +
              sealing.ciphertext.length := by
        rw [hCiphertext]
        omega
      simp only [envelopeFor, hSealed, encodeEnvelope]
      rw [if_neg (by simp),
        if_neg (not_or.mpr ⟨hFits, hFits⟩)]
      exact ⟨_, rfl⟩

/- Any path a packet can have fits an envelope. -/
theorem exists_returnedWire
    (selfHash : UInt8)
    (secret : SharedSecret)
    (peer : PublicKey)
    {path : Bytes}
    (hPath : path.length ≤ maxPathSize) :
    ∃ plain wire,
      encodePath
          { path := path, extraType := 0, extra := [] }
          maxPacketPayload =
        some plain ∧
      envelopeFor selfHash secret peer plain = some wire := by
  have hFits :
      ¬ maxPacketPayload <
        packetPathLengthSize + path.length +
          pathExtraTypeSize + 0 := by
    unfold maxPathSize at hPath
    unfold maxPacketPayload packetPathLengthSize
      pathExtraTypeSize
    omega
  have hEncoded :
      encodePath
          { path := path, extraType := 0, extra := [] }
          maxPacketPayload =
        some (UInt8.ofNat path.length :: path ++ [0]) := by
    simp only [encodePath, List.length_nil]
    rw [if_neg (Nat.not_lt.mpr hPath),
      if_neg (not_or.mpr ⟨hFits, hFits⟩)]
  have hBounds :=
    paddedLength_bounds
      (UInt8.ofNat path.length :: path ++ [0]).length
  have hRoom :
      envelopePrefixSize +
          paddedLength
            (UInt8.ofNat path.length :: path ++ [0]).length ≤
        maxPacketPayload := by
    unfold maxPathSize at hPath
    unfold packetCipherBlockSize at hBounds
    simp only [envelopePrefixSize, nodeHashSize,
      packetMacSize, maxPacketPayload, List.cons_append,
      List.length_cons, List.length_append, List.length_nil]
      at hBounds ⊢
    omega
  rcases exists_envelopeFor selfHash secret peer hRoom with
    ⟨wire, hWire⟩
  exact ⟨_, wire, hEncoded, hWire⟩

theorem pathErrand_eq
    {r : Router} {peer : PublicKey} {secret : SharedSecret}
    (hSecrets : r.store.CachesSecrets)
    (hShared :
      CryptoCore.deriveShared r.store.selfSk peer =
        some secret)
    (path : Bytes) :
    r.pathErrand peer path =
      (returnedWire r.store.selfHash secret peer path).map
        fun wire =>
          { type := .path
            payload := wire
            route := r.findRoute peer } := by
  have hSeal :
      r.sealFor peer =
        envelopeFor r.store.selfHash secret peer := by
    funext plain
    have hSecret :
        (r.secretFor peer).1 = some secret :=
      (hSecrets.secretFor_eq peer).trans hShared
    rw [sealFor, hSecret, Option.bind_some]
  rw [pathErrand, hSeal, returnedWire]

/- The path goes back by the way the flood showed. -/
theorem pathErrand_mem_frameErrands
    {frame : Bytes} {p : Packet} {s : δ × Router}
    {contact : Contact} {type : PayloadType} {plain : Bytes}
    {secret : SharedSecret}
    (hParse : parse frame = some p)
    (hNew : s.2.alreadySeen frame = false)
    (hTold :
      opened D frame s = some (.payload contact type plain))
    (hFlood : p.routeType = .flood)
    (hKeyed : s.2.RoutesKeyed)
    (hSecrets : s.2.store.CachesSecrets)
    (hShared :
      CryptoCore.deriveShared s.2.store.selfSk contact.pk =
        some secret) :
    ∃ wire,
      returnedWire s.2.store.selfHash secret contact.pk
          p.path =
        some wire ∧
      ({ type := .path
         payload := wire
         route :=
           some
             { dest := contact.pk
               path := p.path.reverse } } : Errand) ∈
        frameErrands D frame s := by
  have hValid := parse_valid hParse
  have hReverse := reversePath_of_valid hValid
  simp only [opened, hParse, Option.bind_some] at hTold
  split_ifs at hTold with hEcho
  rcases identify_of_told hTold with
    ⟨hType, -, envelope, hDecoded, hDest, hFound⟩
  -- the router that the envelope was opened by
  have hCalm := identify_calm envelope
    (candidatesFor D (s.1, s.2.takeIn frame)
      envelope.sourceHash)
    (s.2.takeIn frame)
  have hRoutes := identify_routes envelope
    (candidatesFor D (s.1, s.2.takeIn frame)
      envelope.sourceHash)
    (s.2.takeIn frame)
  generalize hTried :
      identify envelope
          (candidatesFor D (s.1, s.2.takeIn frame)
            envelope.sourceHash)
          (s.2.takeIn frame) =
        tried at hFound hCalm hRoutes
  rcases tried with ⟨found, r⟩
  simp only at hFound
  subst hFound
  have hErrands :
      frameErrands D frame s =
        ((r.installRoute contact.pk
            p.path.reverse).pathErrand
          contact.pk p.path).toList ++
          toldErrands D s.1
            (upcall D p (s.1, s.2.takeIn frame)) := by
    simp only [frameErrands, hParse]
    have hHere :
        ¬ isOwnEcho p (s.2.takeIn frame).store.selfHash =
          true :=
      hEcho
    rw [if_neg (by simp [hNew]), if_neg hHere,
      upcallErrands_of_addressed hType, selfErrands]
    simp only [hDecoded]
    rw [if_neg (not_not.mpr hDest), hTried]
    simp only [identifiedErrands, if_pos hFlood, hReverse]
  have hInstalled :=
    hCalm.trans
      (installRoute_calm r contact.pk p.path.reverse)
  have hFoundRoute :
      (r.installRoute contact.pk p.path.reverse).findRoute
          contact.pk =
        some
          { dest := contact.pk, path := p.path.reverse } := by
    apply findRoute_installRoute
    rw [RoutesKeyed, hRoutes.routes]
    exact hKeyed
  have hSelf :
      (r.installRoute contact.pk
          p.path.reverse).store.selfHash =
        s.2.store.selfHash := by
    rw [Store.selfHash, hInstalled.selfPk]
    rfl
  have hPath : p.path.length ≤ maxPathSize := by
    rw [hValid.path_length]
    exact hValid.pathSize_le
  rcases exists_returnedWire s.2.store.selfHash secret
      contact.pk hPath with
    ⟨plain', wire, hEncoded, hSealed⟩
  have hWire :
      returnedWire s.2.store.selfHash secret contact.pk
          p.path =
        some wire := by
    rw [returnedWire, hEncoded]
    exact hSealed
  refine ⟨wire, hWire, ?_⟩
  rw [hErrands,
    pathErrand_eq (hInstalled.secrets hSecrets)
      (hInstalled.selfSk ▸ hShared),
    hSelf, hWire, hFoundRoute]
  simp

end Router

end MeshCore
