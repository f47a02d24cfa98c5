import MeshCore.Routing.History

/-
  Delivery in two parts: what a packet makes routing tell
  the layer above, and what the two do about it.

  Key definitions include:
    * `Upcall`
    * `Router.upcall`
    * `Router.answer`
    * `Router.opened`
    * `Router.Calm`

  Key facts include:
    * `Router.dispatch_eq`
    * `Router.onFrame_cases`
    * `Router.upcall_keeps`, `Router.upcall_calm`
-/

namespace MeshCore

/- What routing tells the layer above. -/
inductive Upcall where
| payload
    (contact : Contact)
    (type : PayloadType)
    (plain : Bytes)
| anon (peer : PublicKey) (plain : Bytes)
| group (type : PayloadType) (payload : Bytes)
| trace (trace : Trace) (path : Bytes)
| acked (entry : Pending)
deriving DecidableEq

namespace Router

variable [CryptoCore]
variable {δ : Type}

------------------------------------------------------------
-- The Two Parts
------------------------------------------------------------

/- The candidate whose secret opens an envelope. -/
def identify
    (envelope : Envelope) :
    List Contact → Router → Option (Contact × Bytes) × Router
| [], r => (none, r)
| candidate :: rest, r =>
    let (secret, r) := r.secretFor candidate.pk
    match
      secret.bind fun secret =>
        openCiphertext secret
          (copyInto _ envelope.cipherMac)
          envelope.ciphertext envelope.ciphertext.length
    with
    | none => identify envelope rest r
    | some plain => (some (candidate, plain), r)

/- What an opened envelope is told as; routes come first. -/
def identified
    (p : Packet)
    (found : Option (Contact × Bytes))
    (r : Router) :
    Option Upcall × Router :=
  match found with
  | none => (none, r)
  | some (candidate, plain) =>
      let r :=
        if p.routeType = .flood then
          r.learnRouteFrom p candidate.pk
        else r
      if p.payloadType = .path then
        match decodePath plain with
        | none => (none, r)
        | some returned =>
            (none, r.installRoute candidate.pk returned.path)
      else
        (some (.payload candidate p.payloadType plain), r)

/- The part of `deliverToSelf` before the callback. -/
def openForSelf
    (D : Delegate δ)
    (p : Packet)
    (s : δ × Router) :
    Option Upcall × Router :=
  match decodeEnvelope p.payload with
  | none => (none, s.2)
  | some envelope =>
      if envelope.destinationHash ≠ s.2.store.selfHash then
        (none, s.2)
      else
        let (found, r) :=
          identify envelope
            (candidatesFor D s envelope.sourceHash) s.2
        identified p found r

/- The part of `deliverAnon` before the callback. -/
def openAnon
    (p : Packet)
    (r : Router) :
    Option Upcall × Router :=
  match decodeAnonReq p.payload with
  | none => (none, r)
  | some request =>
      if request.destinationHash ≠ r.store.selfHash then
        (none, r)
      else
        let peer : PublicKey :=
          copyInto _ request.publicKey
        let (secret, r) := r.secretFor peer
        match
          secret.bind fun secret =>
            openCiphertext secret
              (copyInto _ request.cipherMac)
              request.ciphertext request.ciphertext.length
        with
        | none => (none, r)
        | some plain =>
            (some (.anon peer plain),
              if p.routeType = .flood then
                r.installRoute peer
                  (reversePath p.path maxPathSize)
              else r)

/- The entry that an acknowledgement completes. -/
def completedBy
    (r : Router)
    (payload : Bytes) :
    Option Pending :=
  if payload.length < 4 then none
  else
    r.pending.find?
      (·.expectedAck == readUint32 payload 0)

/- What a packet is told as, and the router by then. -/
def upcall
    (D : Delegate δ)
    (p : Packet)
    (s : δ × Router) :
    Option Upcall × Router :=
  match p.payloadType with
  | .ack => ((s.2.completedBy p.payload).map .acked, s.2)
  | .anonReq => openAnon p s.2
  | .advert => (none, s.2)
  | .trace =>
      ((decodeTrace p.payload).map fun trace =>
        .trace trace p.path, s.2)
  | .grpTxt => (some (.group p.payloadType p.payload), s.2)
  | .grpData => (some (.group p.payloadType p.payload), s.2)
  | _ => openForSelf D p s

/- What the layer above does, and routing behind it. -/
def answer
    (D : Delegate δ)
    (s : δ × Router) :
    Upcall → δ × Router
| .payload contact type plain =>
    acknowledge D type contact.pk plain
      ((D.onPayload s.1 contact type plain).run sender s.2)
| .anon peer plain =>
    (D.onAnon s.1 peer plain).run sender s.2
| .group type payload =>
    (D.onGroup s.1 type payload).run sender s.2
| .trace trace path =>
    (D.onTrace s.1 trace path).run sender s.2
| .acked entry =>
    (D.onAck s.1 entry.id,
      note
        { s.2 with
          pending :=
            s.2.pending.eraseP
              (·.expectedAck == entry.expectedAck) }
        (.acked entry.id))

/- Where nothing is told, the layer above stays as it is. -/
def told
    (D : Delegate δ)
    (d : δ) :
    Option Upcall × Router → δ × Router
| (none, r) => (d, r)
| (some u, r) => answer D (d, r) u

------------------------------------------------------------
-- Delivery Is The Two Parts
------------------------------------------------------------

variable {D : Delegate δ}

theorem tryCandidates_eq
    (p : Packet)
    (envelope : Envelope)
    (candidates : List Contact)
    (d : δ)
    (r : Router) :
    tryCandidates D p envelope candidates (d, r) =
      told D d
        (identified p (identify envelope candidates r).1
          (identify envelope candidates r).2) := by
  induction candidates generalizing r with
  | nil => rfl
  | cons candidate rest ih =>
      unfold tryCandidates identify
      simp only
      cases hOpened :
          (r.secretFor candidate.pk).1.bind fun secret =>
            openCiphertext secret
              (copyInto _ envelope.cipherMac)
              envelope.ciphertext
              envelope.ciphertext.length with
      | none => exact ih _
      | some plain =>
          simp only [received, identified]
          split
          · cases decodePath plain <;> rfl
          · rfl

theorem deliverToSelf_eq
    (p : Packet)
    (s : δ × Router) :
    deliverToSelf D p s = told D s.1 (openForSelf D p s) := by
  unfold deliverToSelf openForSelf
  cases decodeEnvelope p.payload with
  | none => rfl
  | some envelope =>
      simp only
      split
      · rfl
      · exact tryCandidates_eq p _ _ s.1 s.2

theorem deliverAnon_eq
    (p : Packet)
    (s : δ × Router) :
    deliverAnon D p s = told D s.1 (openAnon p s.2) := by
  unfold deliverAnon openAnon
  cases decodeAnonReq p.payload with
  | none => rfl
  | some request =>
      simp only
      split
      · rfl
      · cases hOpened :
            (s.2.secretFor
              (copyInto packetPublicKeySize
                request.publicKey)).1.bind fun secret =>
              openCiphertext secret
                (copyInto _ request.cipherMac)
                request.ciphertext
                request.ciphertext.length with
        | none => rfl
        | some plain => rfl

theorem handleAck_eq
    (payload : Bytes)
    (s : δ × Router) :
    handleAck D payload s =
      told D s.1
        ((s.2.completedBy payload).map .acked, s.2) := by
  unfold handleAck completedBy
  simp only
  by_cases hShort : payload.length < 4
  · rw [if_pos hShort, if_pos hShort]
    rfl
  · rw [if_neg hShort, if_neg hShort]
    cases hFound :
        s.2.pending.find?
          (·.expectedAck == readUint32 payload 0) with
    | none => rfl
    | some entry =>
        have hNumber :
            entry.expectedAck = readUint32 payload 0 := by
          simpa using List.find?_some hFound
        simp only [Option.map_some, told, answer, hNumber]

theorem dispatch_eq
    (p : Packet)
    (s : δ × Router) :
    dispatch D p s = told D s.1 (upcall D p s) := by
  unfold dispatch upcall
  cases p.payloadType with
  | ack => exact handleAck_eq p.payload s
  | anonReq => exact deliverAnon_eq p s
  | trace => cases decodeTrace p.payload <;> rfl
  | advert => rfl
  | grpTxt => rfl
  | grpData => rfl
  | _ => exact deliverToSelf_eq p s

/- What a frame holds for us, were it new. -/
def opened
    (D : Delegate δ)
    (frame : Bytes)
    (s : δ × Router) :
    Option Upcall :=
  (parse frame).bind fun p =>
    if isOwnEcho p s.2.store.selfHash then none
    else (upcall D p (s.1, s.2.takeIn frame)).1

/-
  A frame is ignored, or taken in, told to the layer above,
  and then considered for forwarding.
-/
theorem onFrame_cases
    (frame : Bytes)
    (rx : RxMeta)
    (s : δ × Router) :
    (onFrame D frame rx s = s ∧
        (parse frame = none ∨
          s.2.alreadySeen frame = true)) ∨
      s.2.alreadySeen frame = false ∧
        ((onFrame D frame rx s = (s.1, s.2.takeIn frame) ∧
            opened D frame s = none) ∨
          ∃ p r,
            parse frame = some p ∧
              upcall D p (s.1, s.2.takeIn frame) =
                (opened D frame s, r) ∧
              onFrame D frame rx s =
                considerForwarding D p rx
                  (told D s.1 (opened D frame s, r))) := by
  unfold onFrame opened
  cases hParse : parse frame with
  | none => exact .inl ⟨rfl, .inl rfl⟩
  | some p =>
      simp only [Option.bind_some]
      split
      next hSeen => exact .inl ⟨rfl, .inr hSeen⟩
      next hNew =>
        refine .inr ⟨Bool.not_eq_true _ ▸ hNew, ?_⟩
        have hSelf :
            (s.2.takeIn frame).store.selfHash =
              s.2.store.selfHash :=
          rfl
        rw [hSelf]
        split
        · exact .inl ⟨rfl, rfl⟩
        · refine .inr ⟨p, (upcall D p
            (s.1, s.2.takeIn frame)).2, rfl, rfl, ?_⟩
          rw [dispatch_eq]

omit [CryptoCore] in
/- A tick tells the layer above of failures alone. -/
theorem tick_told
    {I : δ → Prop}
    (hFailed : ∀ d id, I d → I (D.onDeliveryFailed d id))
    (now : Millis)
    (s : δ × Router)
    (hHere : I s.1) :
    I (tick D now s).1 := by
  have hWalk :
      ∀ (entries : List Pending) (d : δ) (r : Router),
        I d → I (retryPending D entries (d, r)).2.1 := by
    intro entries
    induction entries with
    | nil => exact fun _ _ h => h
    | cons entry rest ih =>
        intro d r hd
        unfold retryPending
        split
        · exact ih d r hd
        · split
          · exact ih _ _ (hFailed d entry.id hd)
          · exact ih _ _ hd
  exact hWalk _ _ _ hHere

------------------------------------------------------------
-- What Comes Before The Callback
------------------------------------------------------------

/- A send as the history records it. -/
structure Sending where
  id : SendId
  dest : PublicKey
  payload : Bytes
  wantAck : Bool

def sendingOf : Act → Option Sending
| .sent id dest _ payload wantAck =>
    some
      { id := id
        dest := dest
        payload := payload
        wantAck := wantAck }
| _ => none

/- The sends that were asked of a router, oldest first. -/
def sendings (r : Router) : List Sending :=
  r.history.filterMap sendingOf

/-
  `r` became `r'` without a send being asked for, and what
  awaits an acknowledgement is as it was.
-/
structure Calm (r r' : Router) : Prop where
  pending : r'.pending = r.pending
  nextId : r'.nextId = r.nextId
  config : r'.config = r.config
  selfPk : r'.store.selfPk = r.store.selfPk
  selfSk : r'.store.selfSk = r.store.selfSk
  sendings : r'.sendings = r.sendings
  secrets :
    r.store.CachesSecrets → r'.store.CachesSecrets

theorem Calm.refl (r : Router) : r.Calm r :=
  ⟨rfl, rfl, rfl, rfl, rfl, rfl, id⟩

theorem Calm.trans
    {r r' r'' : Router}
    (hFirst : r.Calm r')
    (hThen : r'.Calm r'') :
    r.Calm r'' where
  pending := hThen.pending.trans hFirst.pending
  nextId := hThen.nextId.trans hFirst.nextId
  config := hThen.config.trans hFirst.config
  selfPk := hThen.selfPk.trans hFirst.selfPk
  selfSk := hThen.selfSk.trans hFirst.selfSk
  sendings := hThen.sendings.trans hFirst.sendings
  secrets := hThen.secrets ∘ hFirst.secrets

/- An act that is no send. -/
theorem note_calm
    (r : Router)
    {act : Act}
    (hAct : sendingOf act = none) :
    r.Calm (r.note act) :=
  ⟨rfl, rfl, rfl, rfl, rfl, by
    simp [Router.sendings, note, List.filterMap_append, hAct],
    id⟩

theorem secretFor_calm (r : Router) (pk : PublicKey) :
    r.Calm (r.secretFor pk).2 where
  pending := rfl
  nextId := rfl
  config := rfl
  selfPk := (secretFor_does r pk).selfPk
  selfSk := (secretFor_does r pk).selfSk
  sendings := rfl
  secrets := fun hSecrets => hSecrets.secretFor pk

theorem rememberSeen_calm (r : Router) (frame : Bytes) :
    r.Calm (r.rememberSeen frame) :=
  ⟨rfl, rfl, rfl, rfl, rfl, rfl, id⟩

theorem transmitNow_calm
    (r : Router)
    (frame : Bytes)
    (priority : Priority) :
    r.Calm (r.transmitNow frame priority) :=
  ((rememberSeen_calm r frame).trans
    (note_calm _ rfl)).trans (note_calm _ rfl)

theorem installRoute_calm
    (r : Router)
    (dest : PublicKey)
    (path : Bytes) :
    r.Calm (r.installRoute dest path) := by
  unfold installRoute
  split <;> exact ⟨rfl, rfl, rfl, rfl, rfl, rfl, id⟩

/-
  What comes before the callback asks for secrets, installs
  routes and sends: what these keep, it keeps.
-/
section Keeping

variable {I : Router → Prop}
variable
  (hSecret : ∀ (r : Router) pk, I r → I (r.secretFor pk).2)
variable
  (hInstall :
    ∀ (r : Router) dest path,
      I r → I (r.installRoute dest path))
variable
  (hTransmit :
    ∀ (r : Router) frame priority,
      I r → I (r.transmitNow frame priority))

include hSecret

theorem identify_keeps
    (envelope : Envelope)
    (candidates : List Contact)
    {r : Router}
    (hHere : I r) :
    I (identify envelope candidates r).2 := by
  induction candidates generalizing r with
  | nil => exact hHere
  | cons candidate rest ih =>
      have hAsked := hSecret r candidate.pk hHere
      unfold identify
      simp only
      split
      · exact ih hAsked
      · exact hAsked

include hInstall

theorem openAnon_keeps
    (p : Packet)
    {r : Router}
    (hHere : I r) :
    I (openAnon p r).2 := by
  unfold openAnon
  split
  · exact hHere
  · split
    · exact hHere
    · have hAsked := fun pk => hSecret r pk hHere
      simp only
      split
      · exact hAsked _
      · split
        · exact hInstall _ _ _ (hAsked _)
        · exact hAsked _

include hTransmit

theorem learnRouteFrom_keeps
    (p : Packet)
    (peer : PublicKey)
    {r : Router}
    (hHere : I r) :
    I (r.learnRouteFrom p peer) := by
  have hLearnt :=
    hSecret _ peer
      (hInstall r peer (reversePath p.path maxPathSize) hHere)
  unfold learnRouteFrom sendPathReturn
  simp only
  split
  · exact hLearnt
  · exact hTransmit _ _ _ hLearnt

theorem identified_keeps
    (p : Packet)
    (found : Option (Contact × Bytes))
    {r : Router}
    (hHere : I r) :
    I (identified p found r).2 := by
  unfold identified
  split
  · exact hHere
  · next candidate plain =>
      have hLearnt :
          I
            (if p.routeType = .flood then
              r.learnRouteFrom p candidate.pk
            else r) := by
        split
        · exact learnRouteFrom_keeps hSecret hInstall
            hTransmit p candidate.pk hHere
        · exact hHere
      simp only
      split
      · split
        · exact hLearnt
        · exact hInstall _ _ _ hLearnt
      · exact hLearnt

theorem upcall_keeps
    (p : Packet)
    {s : δ × Router}
    (hHere : I s.2) :
    I (upcall D p s).2 := by
  have hSelf : I (openForSelf D p s).2 := by
    unfold openForSelf
    split
    · exact hHere
    · split
      · exact hHere
      · exact identified_keeps hSecret hInstall hTransmit p _
          (identify_keeps hSecret _ _ hHere)
  unfold upcall
  split
  · exact hHere
  · exact openAnon_keeps hSecret hInstall p hHere
  · exact hHere
  · exact hHere
  · exact hHere
  · exact hHere
  · exact hSelf

end Keeping

theorem identify_calm
    (envelope : Envelope)
    (candidates : List Contact)
    (r : Router) :
    r.Calm (identify envelope candidates r).2 :=
  identify_keeps
    (fun _ pk hCalm => hCalm.trans (secretFor_calm _ pk))
    envelope candidates (.refl r)

theorem upcall_calm
    (p : Packet)
    (s : δ × Router) :
    s.2.Calm (upcall D p s).2 :=
  upcall_keeps
    (fun _ pk hCalm => hCalm.trans (secretFor_calm _ pk))
    (fun _ dest path hCalm =>
      hCalm.trans (installRoute_calm _ dest path))
    (fun _ frame priority hCalm =>
      hCalm.trans (transmitNow_calm _ frame priority))
    p (.refl s.2)

theorem considerForwarding_calm
    (p : Packet)
    (rx : RxMeta)
    (s : δ × Router) :
    s.2.Calm (considerForwarding D p rx s).2 := by
  unfold considerForwarding
  simp only
  split
  · split
    · exact .refl _
    · refine Calm.trans ?_ (note_calm _ rfl)
      unfold jitter
      split
      · exact ⟨rfl, rfl, rfl, rfl, rfl, rfl, id⟩
      · exact ⟨rfl, rfl, rfl, rfl, rfl, rfl, id⟩
  · exact .refl _

end Router

end MeshCore
