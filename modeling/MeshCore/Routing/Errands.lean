import MeshCore.Routing.Forwarding
import MeshCore.Routing.Upcall

/-
  What a router is asked to send, and that what it hands to
  the radio is the frames of that and nothing else.

  Key definitions include:
    * `Errand`
    * `Router.errandsAt`
    * `Router.Performs`
    * `Router.Sourced`

  Key facts include:
    * `Router.onFrame_performs`
    * `Router.tick_releases`
    * `Router.Sourced.apply`
    * `Router.originated_apply`
-/

namespace MeshCore

/- Something to send, and the route it goes by. -/
structure Errand where
  type : PayloadType
  payload : Bytes
  route : Option Route

def Errand.frame (errand : Errand) : Bytes :=
  Router.buildFrame errand.type errand.payload errand.route

namespace Router

variable [CryptoCore]

------------------------------------------------------------
-- What Is Asked
------------------------------------------------------------

/- The envelope that a plaintext for a peer goes out in. -/
def sealFor
    (r : Router)
    (dest : PublicKey)
    (payload : Bytes) :
    Option Bytes :=
  (r.secretFor dest).1.bind fun secret =>
    envelopeFor r.store.selfHash secret dest payload

def ackErrand
    (r : Router)
    (dest : PublicKey)
    (value : UInt32)
    (extra : Bytes) :
    Errand :=
  { type := .ack
    payload := writeUint32 value ++ extra
    route := r.findRoute dest }

/- What an operation of the layer above asks to send. -/
def errandOf (op : SenderOp) (r : Router) : Option Errand :=
  match op with
  | .sendDirect dest type payload _ =>
      (r.sealFor dest payload).map fun wire =>
        { type := type
          payload := wire
          route := r.findRoute dest }
  | .sendAck dest value extra =>
      some (r.ackErrand dest value extra)
  | .sendFlood type payload =>
      some { type := type, payload := payload, route := none }
  | .randomBytes _ => none
  | .store => none

/- What a program asks to send, when this router runs it. -/
def errandsOf {α : Type} : SenderM α → Router → List Errand
| .done _, _ => []
| .call op k, r =>
    (errandOf op r).toList ++
      errandsOf (k (sender op r).1) (sender op r).2

/- The path that a peer is given back. -/
def pathErrand
    (r : Router)
    (dest : PublicKey)
    (forward : Bytes) :
    Option Errand :=
  ((encodePath
      { path := forward, extraType := 0, extra := [] }
      maxPacketPayload).bind (r.sealFor dest)).map
    fun payload =>
      { type := .path
        payload := payload
        route := r.findRoute dest }

variable {δ : Type}

/- What is sent before the layer above is told. -/
def identifiedErrands
    (p : Packet)
    (found : Option (Contact × Bytes))
    (r : Router) :
    List Errand :=
  match found with
  | none => []
  | some (candidate, _) =>
      if p.routeType = .flood then
        ((r.installRoute candidate.pk
          (reversePath p.path maxPathSize)).pathErrand
            candidate.pk p.path).toList
      else []

def selfErrands
    (D : Delegate δ)
    (p : Packet)
    (s : δ × Router) :
    List Errand :=
  match decodeEnvelope p.payload with
  | none => []
  | some envelope =>
      if envelope.destinationHash ≠ s.2.store.selfHash then
        []
      else
        let (found, r) :=
          identify envelope
            (candidatesFor D s envelope.sourceHash) s.2
        identifiedErrands p found r

def upcallErrands
    (D : Delegate δ)
    (p : Packet)
    (s : δ × Router) :
    List Errand :=
  match p.payloadType with
  | .ack => []
  | .anonReq => []
  | .advert => []
  | .trace => []
  | .grpTxt => []
  | .grpData => []
  | _ => selfErrands D p s

/- What is sent by the layer above, and on its behalf. -/
def answerErrands
    (D : Delegate δ)
    (s : δ × Router) :
    Upcall → List Errand
| .payload contact type plain =>
    let task := D.onPayload s.1 contact type plain
    let s' := task.run sender s.2
    errandsOf task s.2 ++
      if D.shouldAck s'.1 type plain then
        [s'.2.ackErrand contact.pk
          (expectedAck plain contact.pk) []]
      else []
| .anon peer plain => errandsOf (D.onAnon s.1 peer plain) s.2
| .group type payload =>
    errandsOf (D.onGroup s.1 type payload) s.2
| .trace trace path =>
    errandsOf (D.onTrace s.1 trace path) s.2
| .acked _ => []

def toldErrands
    (D : Delegate δ)
    (d : δ) :
    Option Upcall × Router → List Errand
| (none, _) => []
| (some u, r) => answerErrands D (d, r) u

/- What a frame makes the router send. -/
def frameErrands
    (D : Delegate δ)
    (frame : Bytes)
    (s : δ × Router) :
    List Errand :=
  match parse frame with
  | none => []
  | some p =>
      if s.2.alreadySeen frame then []
      else
        let r := s.2.takeIn frame
        if isOwnEcho p r.store.selfHash then []
        else
          upcallErrands D p (s.1, r) ++
            toldErrands D s.1 (upcall D p (s.1, r))

def errandsAt
    (D : Delegate δ)
    (s : δ × Router) :
    Event δ → List Errand
| .frame frame _ => frameErrands D frame s
| .tick _ => []
| .above task => errandsOf (task s.1) s.2

------------------------------------------------------------
-- Performing It
------------------------------------------------------------

def originatedOf : Act → Option Bytes
| .originated frame _ => some frame
| _ => none

def handedOf : Act → Option Bytes
| .handed frame _ => some frame
| _ => none

/-
  `r` became `r'` by sending exactly the errands: one frame
  for each, originated and handed over, and nothing awaits
  an acknowledgement but what did and what was sent.
-/
structure Performs
    (r : Router)
    (errands : List Errand)
    (r' : Router) :
    Prop where
  acts :
    ∃ acts,
      r.Does acts r' ∧
      (∀ a ∈ acts, IsDelivery a) ∧
      acts.filterMap originatedOf =
        errands.map Errand.frame ∧
      acts.filterMap handedOf = errands.map Errand.frame
  queue : r'.queue = r.queue
  pending :
    ∀ entry ∈ r'.pending,
      entry ∈ r.pending ∨
        ∃ errand ∈ errands, entry.frame = errand.frame

theorem Performs.refl (r : Router) : r.Performs [] r :=
  ⟨⟨[], .refl r, by simp, rfl, rfl⟩, rfl,
    fun _ hEntry => .inl hEntry⟩

theorem Performs.trans
    {r r' r'' : Router}
    {errands more : List Errand}
    (hFirst : r.Performs errands r')
    (hThen : r'.Performs more r'') :
    r.Performs (errands ++ more) r'' := by
  rcases hFirst.acts with
    ⟨acts, hActs, hDelivery, hSent, hHanded⟩
  rcases hThen.acts with
    ⟨moreActs, hMore, hMoreDelivery, hMoreSent, hMoreHanded⟩
  refine
    { acts := ⟨acts ++ moreActs, hActs.trans hMore, ?_, ?_,
        ?_⟩
      queue := hThen.queue.trans hFirst.queue
      pending := ?_ }
  · intro a ha
    rcases List.mem_append.mp ha with ha | ha
    · exact hDelivery a ha
    · exact hMoreDelivery a ha
  · rw [List.filterMap_append, List.map_append, hSent,
      hMoreSent]
  · rw [List.filterMap_append, List.map_append, hHanded,
      hMoreHanded]
  · intro entry hEntry
    rcases hThen.pending entry hEntry with
      hOld | ⟨errand, hErrand, hFrame⟩
    · rcases hFirst.pending entry hOld with
        hOlder | ⟨errand, hErrand, hFrame⟩
      · exact .inl hOlder
      · exact .inr ⟨errand, List.mem_append_left _ hErrand,
          hFrame⟩
    · exact .inr ⟨errand, List.mem_append_right _ hErrand,
        hFrame⟩

/- What nothing is sent by. -/
theorem Does.performs
    {r r' : Router} {acts : List Act}
    (hDoes : r.Does acts r')
    (hActs :
      ∀ a ∈ acts,
        IsDelivery a ∧ originatedOf a = none ∧
          handedOf a = none)
    (hQueue : r'.queue = r.queue)
    (hPending : r'.pending.Sublist r.pending) :
    r.Performs [] r' where
  acts := by
    refine ⟨acts, hDoes, fun a ha => (hActs a ha).1, ?_, ?_⟩
    · rw [List.map_nil, List.filterMap_eq_nil_iff]
      exact fun a ha => (hActs a ha).2.1
    · rw [List.map_nil, List.filterMap_eq_nil_iff]
      exact fun a ha => (hActs a ha).2.2
  queue := hQueue
  pending := fun _ hEntry => .inl (hPending.subset hEntry)

theorem secretFor_performs (r : Router) (pk : PublicKey) :
    r.Performs [] (r.secretFor pk).2 :=
  (secretFor_does r pk).performs (by simp) rfl
    (List.Sublist.refl _)

theorem takeIn_performs (r : Router) (frame : Bytes) :
    r.Performs [] (r.takeIn frame) :=
  (takeIn_does r frame).performs
    (by simp [IsDelivery, originatedOf, handedOf]) rfl
    (List.Sublist.refl _)

theorem installRoute_performs
    (r : Router)
    (dest : PublicKey)
    (path : Bytes) :
    r.Performs [] (r.installRoute dest path) := by
  apply (installRoute_does r dest path).performs (by simp)
  · unfold installRoute
    split <;> rfl
  · unfold installRoute
    split <;> exact List.Sublist.refl _

theorem issueId_performs
    (r : Router)
    (dest : PublicKey)
    (type : PayloadType)
    (payload : Bytes)
    (wantAck : Bool) :
    r.Performs []
      (r.issueId dest type payload wantAck).2 :=
  (issueId_does r dest type payload wantAck).performs
    (by simp [IsDelivery, originatedOf, handedOf]) rfl
    (List.Sublist.refl _)

theorem transmitNow_performs
    (r : Router)
    (errand : Errand)
    (priority : Priority) :
    r.Performs [errand]
      (r.transmitNow errand.frame priority) where
  acts :=
    ⟨_, transmitNow_does r errand.frame priority,
      fun a ha => (transmission_isSend r _ _ a ha).isDelivery,
      rfl, rfl⟩
  queue := rfl
  pending := fun _ hEntry => .inl hEntry

/- A frame that is kept to be sent again is sent as well. -/
theorem keepPending_transmitNow_performs
    (r : Router)
    (errand : Errand)
    (wantAck : Bool)
    (priority : Priority)
    {entry : Pending}
    (hFrame : entry.frame = errand.frame) :
    r.Performs [errand]
      ((r.keepPending wantAck entry).transmitNow
        errand.frame priority) := by
  have hKept := keepPending_does r wantAck entry
  refine
    { acts :=
        ⟨_, hKept.trans (transmitNow_does _ _ _), ?_, rfl,
          rfl⟩
      queue := ?_
      pending := ?_ }
  · rw [List.nil_append]
    exact fun a ha =>
      (transmission_isSend _ _ _ a ha).isDelivery
  · unfold keepPending
    split <;> rfl
  · intro other hOther
    change other ∈ (r.keepPending wantAck entry).pending
      at hOther
    unfold keepPending at hOther
    split at hOther
    · rw [List.mem_append, List.mem_singleton] at hOther
      rcases hOther with hOther | rfl
      · exact .inl hOther
      · exact .inr ⟨errand, by simp, hFrame⟩
    · exact .inl hOther

theorem sendDirect_performs
    (r : Router)
    (dest : PublicKey)
    (type : PayloadType)
    (payload : Bytes)
    (wantAck : Bool) :
    r.Performs
      (errandOf (.sendDirect dest type payload wantAck)
        r).toList
      (r.sendDirect dest type payload wantAck).2 := by
  have hAsked :=
    (issueId_performs r dest type payload wantAck).trans
      (secretFor_performs _ dest)
  have hSelf :
      ((r.issueId dest type payload wantAck).2.secretFor
          dest).2.store.selfHash =
        r.store.selfHash :=
    (secretFor_does r dest).selfHash
  have hSame :
      ((r.issueId dest type payload wantAck).2.secretFor
          dest).1 =
        (r.secretFor dest).1 :=
    rfl
  unfold sendDirect errandOf sealFor
  simp only
  rw [hSelf, hSame]
  cases (r.secretFor dest).1.bind fun secret =>
      envelopeFor r.store.selfHash secret dest payload with
  | none => exact hAsked
  | some wire =>
      exact hAsked.trans
        (keepPending_transmitNow_performs _
          { type := type
            payload := wire
            route := r.findRoute dest }
          wantAck .normal rfl)

theorem sender_performs (op : SenderOp) (r : Router) :
    r.Performs (errandOf op r).toList (sender op r).2 := by
  cases op with
  | sendDirect dest type payload wantAck =>
      exact sendDirect_performs r dest type payload wantAck
  | sendAck dest value extra =>
      exact transmitNow_performs r
        (r.ackErrand dest value extra) .high
  | sendFlood type payload =>
      exact transmitNow_performs r
        { type := type, payload := payload, route := none }
        .normal
  | randomBytes n =>
      have hDoes : r.Does [] (sender (.randomBytes n) r).2 :=
        ⟨rfl, rfl, rfl, rfl, by simp [sender], rfl, by simp⟩
      exact hDoes.performs (by simp) rfl
        (List.Sublist.refl _)
  | store => exact .refl r

/- A program sends what it asks for, in its order. -/
theorem run_performs
    {α : Type}
    (task : SenderM α)
    (r : Router) :
    r.Performs (errandsOf task r) (task.run sender r).2 := by
  induction task generalizing r with
  | done a => exact .refl r
  | call op k ih =>
      exact (sender_performs op r).trans (ih _ _)

theorem sendPathReturn_performs
    (r : Router)
    (dest : PublicKey)
    (forward : Bytes) :
    r.Performs (r.pathErrand dest forward).toList
      (r.sendPathReturn dest forward) := by
  have hAsked := secretFor_performs r dest
  have hSelf :
      (r.secretFor dest).2.store.selfHash =
        r.store.selfHash :=
    (secretFor_does r dest).selfHash
  unfold sendPathReturn pathErrand sealFor
  simp only
  rw [hSelf]
  cases hSecret : (r.secretFor dest).1 with
  | none =>
      simp only [Option.bind_none, Option.bind_fun_none,
        Option.map_none, Option.toList_none]
      exact hAsked
  | some secret =>
      simp only [Option.bind_some]
      cases (encodePath
          { path := forward, extraType := 0, extra := [] }
          maxPacketPayload).bind fun plain =>
            envelopeFor r.store.selfHash secret dest plain
        with
      | none => exact hAsked
      | some payload =>
          exact hAsked.trans
            (transmitNow_performs _
              { type := .path
                payload := payload
                route := r.findRoute dest }
              .high)

------------------------------------------------------------
-- Receiving
------------------------------------------------------------

variable {D : Delegate δ}

theorem identify_performs
    (envelope : Envelope)
    (candidates : List Contact)
    (r : Router) :
    r.Performs [] (identify envelope candidates r).2 :=
  identify_keeps (I := fun r' => r.Performs [] r')
    (fun _ pk hSent => hSent.trans (secretFor_performs _ pk))
    envelope candidates (.refl r)

theorem identified_performs
    (p : Packet)
    (found : Option (Contact × Bytes))
    (r : Router) :
    r.Performs (identifiedErrands p found r)
      (identified p found r).2 := by
  cases found with
  | none => exact .refl r
  | some opened =>
      rcases opened with ⟨candidate, plain⟩
      have hLearnt :
          r.Performs
            (identifiedErrands p (some (candidate, plain)) r)
            (if p.routeType = .flood then
              r.learnRouteFrom p candidate.pk
            else r) := by
        unfold identifiedErrands
        by_cases hFlood : p.routeType = .flood
        · simp only [if_pos hFlood]
          exact (installRoute_performs r candidate.pk _).trans
            (sendPathReturn_performs _ candidate.pk p.path)
        · simp only [if_neg hFlood]
          exact .refl r
      unfold identified
      simp only
      by_cases hPath : p.payloadType = .path
      · rw [if_pos hPath]
        cases decodePath plain with
        | none => exact hLearnt
        | some returned =>
            have hBoth := hLearnt.trans
              (installRoute_performs _ candidate.pk
                returned.path)
            rw [List.append_nil] at hBoth
            exact hBoth
      · rw [if_neg hPath]
        exact hLearnt

theorem openForSelf_performs
    (p : Packet)
    (s : δ × Router) :
    s.2.Performs (selfErrands D p s)
      (openForSelf D p s).2 := by
  unfold openForSelf selfErrands
  cases decodeEnvelope p.payload with
  | none => exact .refl s.2
  | some envelope =>
      simp only
      by_cases hSelf :
          envelope.destinationHash ≠ s.2.store.selfHash
      · rw [if_pos hSelf, if_pos hSelf]
        exact .refl s.2
      · rw [if_neg hSelf, if_neg hSelf]
        exact (identify_performs envelope _ s.2).trans
          (identified_performs p _ _)

theorem openAnon_performs (p : Packet) (r : Router) :
    r.Performs [] (openAnon p r).2 := by
  unfold openAnon
  cases decodeAnonReq p.payload with
  | none => exact .refl r
  | some request =>
      simp only
      split
      · exact .refl r
      · have hAsked := secretFor_performs r
          (copyInto packetPublicKeySize request.publicKey)
        split
        · exact hAsked
        · split
          · exact hAsked.trans (installRoute_performs _ _ _)
          · exact hAsked

/- What comes before the callback sends its errands. -/
theorem upcall_performs
    (p : Packet)
    (s : δ × Router) :
    s.2.Performs (upcallErrands D p s) (upcall D p s).2 := by
  unfold upcall upcallErrands
  cases p.payloadType with
  | ack => exact .refl s.2
  | anonReq => exact openAnon_performs p s.2
  | advert => exact .refl s.2
  | trace => exact .refl s.2
  | grpTxt => exact .refl s.2
  | grpData => exact .refl s.2
  | _ => exact openForSelf_performs p s

theorem answer_performs
    (u : Upcall)
    (s : δ × Router) :
    s.2.Performs (answerErrands D s u) (answer D s u).2 := by
  cases u with
  | payload contact type plain =>
      apply (run_performs
        (D.onPayload s.1 contact type plain) s.2).trans
      simp only [answer, acknowledge]
      split
      · exact transmitNow_performs _
          (ackErrand _ contact.pk
            (expectedAck plain contact.pk) [])
          .high
      · exact .refl _
  | anon peer plain => exact run_performs _ s.2
  | group type payload => exact run_performs _ s.2
  | trace trace path => exact run_performs _ s.2
  | acked entry =>
      have hDoes :
          s.2.Does [.acked entry.id]
            (answer D s (.acked entry)).2 :=
        ⟨rfl, rfl, rfl, rfl, rfl, rfl, by simp [rememberOf]⟩
      exact hDoes.performs
        (by simp [IsDelivery, originatedOf, handedOf]) rfl
        List.eraseP_sublist

theorem told_performs
    (d : δ)
    (t : Option Upcall × Router) :
    t.2.Performs (toldErrands D d t) (told D d t).2 := by
  rcases t with ⟨none | u, r⟩
  · exact .refl r
  · exact answer_performs u (d, r)

/-
  A frame makes the router send its errands; behind them the
  packet may be queued to travel on.
-/
theorem onFrame_performs
    (frame : Bytes)
    (rx : RxMeta)
    (s : δ × Router) :
    ∃ s',
      s.2.Performs (frameErrands D frame s) s'.2 ∧
        (onFrame D frame rx s = s' ∨
          ∃ p,
            parse frame = some p ∧
              isOwnEcho p s.2.store.selfHash = false ∧
              onFrame D frame rx s =
                considerForwarding D p rx s') := by
  unfold onFrame frameErrands
  cases hParse : parse frame with
  | none => exact ⟨s, .refl s.2, .inl rfl⟩
  | some p =>
      simp only
      by_cases hSeen : s.2.alreadySeen frame = true
      · rw [if_pos hSeen, if_pos hSeen]
        exact ⟨s, .refl s.2, .inl rfl⟩
      · rw [if_neg hSeen, if_neg hSeen]
        have hTaken := takeIn_performs s.2 frame
        by_cases hEcho :
            isOwnEcho p (s.2.takeIn frame).store.selfHash =
              true
        · rw [if_pos hEcho, if_pos hEcho]
          exact ⟨(s.1, s.2.takeIn frame), hTaken, .inl rfl⟩
        · rw [if_neg hEcho, if_neg hEcho, dispatch_eq]
          refine ⟨_, ?_, .inr ⟨p, rfl, ?_, rfl⟩⟩
          · exact hTaken.trans
              ((upcall_performs p
                (s.1, s.2.takeIn frame)).trans
                (told_performs s.1 _))
          · exact Bool.not_eq_true _ ▸ hEcho

------------------------------------------------------------
-- Where Frames Come From
------------------------------------------------------------

/- The frame is one that the router sent or sent on. -/
def From (r : Router) (frame : Bytes) : Prop :=
  frame ∈ r.history.filterMap originatedOf ∨
    .queued frame ∈ r.history

/-
  What waits is what was queued, what awaits an answer is
  what was sent, and nothing else is given to the radio.
-/
structure Sourced (r : Router) : Prop where
  queue : ∀ entry ∈ r.queue, .queued entry.frame ∈ r.history
  pending :
    ∀ entry ∈ r.pending,
      entry.frame ∈ r.history.filterMap originatedOf
  handed :
    ∀ frame ∈ r.history.filterMap handedOf, r.From frame

omit [CryptoCore] in
theorem sourced_create
    (store : Store)
    (entropy : Entropy)
    (config : RouterConfig) :
    (create store entropy config).Sourced :=
  ⟨by simp [create], by simp [create], by simp [create]⟩

theorem Does.filterMap_history
    {r r' : Router} {acts : List Act} {α : Type}
    (hDoes : r.Does acts r')
    (f : Act → Option α) :
    r'.history.filterMap f =
      r.history.filterMap f ++ acts.filterMap f := by
  rw [hDoes.history, List.filterMap_append]

theorem Does.from_mono
    {r r' : Router} {acts : List Act} {frame : Bytes}
    (hDoes : r.Does acts r')
    (hFrom : r.From frame) :
    r'.From frame := by
  unfold From
  rw [hDoes.filterMap_history, hDoes.history]
  rcases hFrom with hSent | hQueued
  · exact .inl (List.mem_append_left _ hSent)
  · exact .inr (List.mem_append_left _ hQueued)

/- Errands keep to it. -/
theorem Performs.sourced
    {r r' : Router} {errands : List Errand}
    (hPerforms : r.Performs errands r')
    (hSourced : r.Sourced) :
    r'.Sourced := by
  rcases hPerforms.acts with
    ⟨acts, hDoes, -, hSent, hHanded⟩
  refine
    { queue := ?_
      pending := ?_
      handed := ?_ }
  · intro entry hEntry
    rw [hPerforms.queue] at hEntry
    rw [hDoes.history]
    exact List.mem_append_left _ (hSourced.queue _ hEntry)
  · intro entry hEntry
    rw [hDoes.filterMap_history, hSent, List.mem_append]
    rcases hPerforms.pending entry hEntry with
      hOld | ⟨errand, hErrand, hFrame⟩
    · exact .inl (hSourced.pending entry hOld)
    · rw [hFrame]
      exact .inr (List.mem_map_of_mem hErrand)
  · intro frame hFrame
    rw [hDoes.filterMap_history, List.mem_append] at hFrame
    rcases hFrame with hOld | hNew
    · exact hDoes.from_mono (hSourced.handed frame hOld)
    · rw [hHanded, ← hSent] at hNew
      left
      rw [hDoes.filterMap_history]
      exact List.mem_append_right _ hNew

/- Forwarding queues what it enters in the history. -/
theorem considerForwarding_queue
    (p : Packet)
    (rx : RxMeta)
    (s : δ × Router) :
    ∃ added : List Delayed,
      s.2.Does (added.map fun entry => .queued entry.frame)
        (considerForwarding D p rx s).2 ∧
      (considerForwarding D p rx s).2.queue =
        s.2.queue ++ added ∧
      (considerForwarding D p rx s).2.pending =
        s.2.pending := by
  have hJitter :
      s.2.jitter.2.queue = s.2.queue ∧
        s.2.jitter.2.pending = s.2.pending := by
    unfold jitter
    split <;> exact ⟨rfl, rfl⟩
  unfold considerForwarding
  simp only
  split
  · cases (transitCopy p s.2.store.selfHash rx.snr).bind
        (serialize · maxPacketFrame) with
    | none => exact ⟨[], .refl s.2, by simp, rfl⟩
    | some out =>
        have hQueued := (jitter_does s.2).trans
          (queueFrame_does s.2.jitter.2 out
            (s.2.jitter.2.now +
              (rx.airtime *
                  s.2.jitter.2.config.forwardAirtimeFactor.toUInt64 +
                s.2.jitter.1))
            .low)
        refine
          ⟨[{ notBefore :=
                s.2.jitter.2.now +
                  (rx.airtime *
                      s.2.jitter.2.config.forwardAirtimeFactor.toUInt64 +
                    s.2.jitter.1)
              priority := .low
              frame := out }],
            hQueued, ?_, hJitter.2⟩
        rw [← hJitter.1]
        rfl
  · exact ⟨[], .refl s.2, by simp, rfl⟩

/- A frame keeps to it. -/
theorem onFrame_sourced
    {s : δ × Router}
    (hSourced : s.2.Sourced)
    (frame : Bytes)
    (rx : RxMeta) :
    (onFrame D frame rx s).2.Sourced := by
  rcases onFrame_performs (D := D) frame rx s with
    ⟨s', hPerforms, hEnd⟩
  have hHere := hPerforms.sourced hSourced
  rcases hEnd with hEnd | ⟨p, -, -, hEnd⟩
  · rw [hEnd]
    exact hHere
  · rw [hEnd]
    rcases considerForwarding_queue (D := D) p rx s' with
      ⟨added, hDoes, hQueue, hPending⟩
    have hNone :
        ∀ f : Act → Option Bytes,
          (∀ out, f (.queued out) = none) →
            (added.map fun entry =>
              Act.queued entry.frame).filterMap f =
              [] := by
      intro f hf
      rw [List.filterMap_map, List.filterMap_eq_nil_iff]
      exact fun entry _ => hf entry.frame
    refine
      { queue := ?_
        pending := ?_
        handed := ?_ }
    · intro entry hEntry
      rw [hQueue, List.mem_append] at hEntry
      rw [hDoes.history, List.mem_append]
      rcases hEntry with hOld | hNew
      · exact .inl (hHere.queue entry hOld)
      · exact .inr (List.mem_map_of_mem hNew)
    · intro entry hEntry
      rw [hPending] at hEntry
      rw [hDoes.filterMap_history]
      exact List.mem_append_left _
        (hHere.pending entry hEntry)
    · intro out hOut
      rw [hDoes.filterMap_history, hNone _ fun _ => rfl,
        List.append_nil] at hOut
      exact hDoes.from_mono (hHere.handed out hOut)

------------------------------------------------------------
-- Time
------------------------------------------------------------

/-
  A tick gives the radio frames that were waiting, keeps the
  others waiting, and sends nothing of its own.
-/
structure Releases (r r' : Router) : Prop where
  acts :
    ∃ acts,
      r.Does acts r' ∧
      (∀ a ∈ acts, IsRelease a) ∧
      ∀ frame ∈ acts.filterMap handedOf,
        (∃ entry ∈ r.queue, entry.frame = frame) ∨
          ∃ entry ∈ r.pending, entry.frame = frame
  queue : ∀ entry ∈ r'.queue, entry ∈ r.queue
  pending :
    ∀ entry ∈ r'.pending,
      ∃ old ∈ r.pending, old.frame = entry.frame

omit [CryptoCore] in
/- What waits to be forwarded is no matter of retries. -/
theorem retryPending_queue
    (entries : List Pending)
    (d : δ)
    (r : Router) :
    (retryPending D entries (d, r)).2.2.queue = r.queue := by
  apply retryPending_keeps
    (I := fun r' => r'.queue = r.queue)
  · exact fun r' entry hSame => hSame
  · exact fun r' frame hSame => hSame
  · rfl

theorem retryPending_pending
    (entries : List Pending)
    (d : δ)
    (r : Router) :
    (∃ acts,
      r.Does acts (retryPending D entries (d, r)).2.2 ∧
      (∀ a ∈ acts, IsRelease a) ∧
      ∀ frame ∈ acts.filterMap handedOf,
        ∃ entry ∈ entries, entry.frame = frame) ∧
      ∀ entry ∈ (retryPending D entries (d, r)).1,
        ∃ old ∈ entries, old.frame = entry.frame := by
  induction entries generalizing d r with
  | nil =>
      exact ⟨⟨[], .refl r, by simp, by simp⟩,
        by simp [retryPending]⟩
  | cons entry rest ih =>
      have hMore :
          ∀ frame,
            (∃ old ∈ rest, old.frame = frame) →
              ∃ old ∈ entry :: rest, old.frame = frame := by
        rintro frame ⟨old, hOld, hEq⟩
        exact ⟨old, List.mem_cons_of_mem _ hOld, hEq⟩
      unfold retryPending
      split
      · rcases ih d r with
          ⟨⟨acts, hActs, hRelease, hHanded⟩, hKept⟩
        refine ⟨⟨acts, hActs, hRelease, ?_⟩, ?_⟩
        · intro frame hFrame
          exact hMore frame (hHanded frame hFrame)
        · intro kept hMem
          rcases List.mem_cons.mp hMem with rfl | hMem
          · exact ⟨_, List.mem_cons_self, rfl⟩
          · exact hMore _ (hKept kept hMem)
      · split
        · rcases ih (D.onDeliveryFailed d entry.id)
              ((r.forgetRoute entry.dest).note
                (.failed entry.id)) with
            ⟨⟨acts, hActs, hRelease, hHanded⟩, hKept⟩
          refine
            ⟨⟨_, (giveUp_does r entry).trans hActs, ?_, ?_⟩,
              ?_⟩
          · simpa [IsRelease] using hRelease
          · intro frame hFrame
            simp only [List.singleton_append,
              List.filterMap_cons, handedOf] at hFrame
            exact hMore frame (hHanded frame hFrame)
          · intro kept hMem
            exact hMore _ (hKept kept hMem)
        · rcases ih d (r.handToRadio entry.frame .normal)
            with ⟨⟨acts, hActs, hRelease, hHanded⟩, hKept⟩
          refine ⟨⟨_, (handToRadio_does r _ _).trans hActs,
            ?_, ?_⟩, ?_⟩
          · simpa [IsRelease] using hRelease
          · intro frame hFrame
            simp only [List.singleton_append,
              List.filterMap_cons, handedOf,
              List.mem_cons] at hFrame
            rcases hFrame with rfl | hFrame
            · exact ⟨entry, List.mem_cons_self, rfl⟩
            · exact hMore frame (hHanded frame hFrame)
          · intro kept hMem
            rcases List.mem_cons.mp hMem with rfl | hMem
            · exact ⟨entry, List.mem_cons_self, rfl⟩
            · exact hMore _ (hKept kept hMem)

/- A tick drains the queue, and then walks the table. -/
theorem tick_actsSince
    {now : Millis} {s : δ × Router} {more : List Act}
    (hMore :
      (drainQueue { s.2 with now := now }).Does more
        (retryPending D
          (drainQueue { s.2 with now := now }).pending
          (s.1, drainQueue { s.2 with now := now })).2.2) :
    s.2.actsSince (tick D now s).2 =
      (due { s.2 with now := now }).map handOver ++ more := by
  have hHistory :
      (tick D now s).2.history =
        s.2.history ++
          ((due { s.2 with now := now }).map handOver ++
            more) := by
    rw [← List.append_assoc]
    exact hMore.history.trans (by rw [drainQueue_eq])
  rw [actsSince, hHistory, List.drop_left]

theorem tick_releases
    (now : Millis)
    (s : δ × Router) :
    ({ s.2 with now := now } : Router).Releases
      (tick D now s).2 := by
  have hActs := drainQueue_does { s.2 with now := now }
  have hRelease :=
    handOver_isRelease (due { s.2 with now := now })
  have hEq := drainQueue_eq { s.2 with now := now }
  have hSame :
      (drainQueue { s.2 with now := now }).pending =
        s.2.pending := by
    rw [hEq]
  rcases retryPending_pending (D := D)
      (drainQueue { s.2 with now := now }).pending s.1
      (drainQueue { s.2 with now := now }) with
    ⟨⟨more, hMore, hMoreRelease, hMoreHanded⟩, hKept⟩
  have hDone :
      ∀ (r' : Router) pending,
        r'.Does [] { r' with pending := pending } :=
    fun _ _ => ⟨rfl, rfl, rfl, rfl, by simp, rfl, by simp⟩
  rw [hSame] at hMoreHanded
  refine
    { acts :=
        ⟨_, (hActs.trans hMore).trans (hDone _ _), ?_, ?_⟩
      queue := ?_
      pending := ?_ }
  · intro a ha
    rw [List.append_nil, List.mem_append] at ha
    rcases ha with ha | ha
    · exact hRelease a ha
    · exact hMoreRelease a ha
  · intro frame hFrame
    rw [List.append_nil, List.filterMap_append,
      List.mem_append] at hFrame
    rcases hFrame with hFrame | hFrame
    · rw [List.filterMap_map, List.mem_filterMap] at hFrame
      rcases hFrame with ⟨entry, hEntry, hOf⟩
      refine .inl ⟨entry, mem_queue_iff.mpr (.inl hEntry), ?_⟩
      exact Option.some.inj hOf
    · exact .inr (hMoreHanded frame hFrame)
  · intro entry hEntry
    have hWaiting :
        entry ∈
          (drainQueue { s.2 with now := now }).queue := by
      rw [← retryPending_queue (D := D) _ s.1]
      exact hEntry
    rw [hEq] at hWaiting
    exact mem_queue_iff.mpr (.inr hWaiting)
  · intro entry hEntry
    rcases hKept entry hEntry with ⟨old, hOld, hFrame⟩
    rw [hSame] at hOld
    exact ⟨old, hOld, hFrame⟩

/- A tick hands over every entry that it does not keep. -/
theorem tick_hands
    (now : Millis)
    (s : δ × Router) :
    ∀ entry ∈ s.2.queue,
      entry ∈ (tick D now s).2.queue ∨
        handOver entry ∈ s.2.actsSince (tick D now s).2 := by
  intro entry hEntry
  have hParted :
      entry ∈ due { s.2 with now := now } ∨
        entry ∈ waiting { s.2 with now := now } :=
    mem_queue_iff.mp hEntry
  rcases hParted with hDue | hWaiting
  · right
    rcases retryPending_does (D := D)
        (drainQueue { s.2 with now := now }).pending s.1
        (drainQueue { s.2 with now := now }) with
      ⟨more, hMore, -⟩
    rw [tick_actsSince hMore]
    exact List.mem_append_left _ (List.mem_map_of_mem hDue)
  · left
    have hKept :
        (tick D now s).2.queue =
          (drainQueue { s.2 with now := now }).queue :=
      retryPending_queue _ _ _
    rw [hKept, drainQueue_eq]
    exact hWaiting

theorem tick_sourced
    {s : δ × Router}
    (hSourced : s.2.Sourced)
    (now : Millis) :
    (tick D now s).2.Sourced := by
  have hReleases := tick_releases (D := D) now s
  rcases hReleases.acts with ⟨acts, hDoes, -, hHanded⟩
  refine
    { queue := ?_
      pending := ?_
      handed := ?_ }
  · intro entry hEntry
    rw [hDoes.history]
    exact List.mem_append_left _
      (hSourced.queue entry (hReleases.queue entry hEntry))
  · intro entry hEntry
    rcases hReleases.pending entry hEntry with
      ⟨old, hOld, hFrame⟩
    rw [hDoes.filterMap_history, ← hFrame]
    exact List.mem_append_left _ (hSourced.pending old hOld)
  · intro frame hFrame
    rw [hDoes.filterMap_history, List.mem_append] at hFrame
    rcases hFrame with hOld | hNew
    · exact hDoes.from_mono (hSourced.handed frame hOld)
    · apply hDoes.from_mono
      rcases hHanded frame hNew with
        ⟨entry, hEntry, rfl⟩ | ⟨entry, hEntry, rfl⟩
      · exact .inr (hSourced.queue entry hEntry)
      · exact .inl (hSourced.pending entry hEntry)

------------------------------------------------------------
-- Events
------------------------------------------------------------

/- Every event keeps to it. -/
theorem Sourced.apply
    {s : δ × Router}
    (hSourced : s.2.Sourced)
    (e : Event δ) :
    (apply D s e).2.Sourced := by
  cases e with
  | frame frame rx => exact onFrame_sourced hSourced frame rx
  | tick now => exact tick_sourced hSourced now
  | above task => exact (run_performs _ s.2).sourced hSourced

/- What an event originates is its errands, in their order. -/
theorem originated_apply
    (e : Event δ)
    (s : δ × Router) :
    (s.2.actsSince (apply D s e).2).filterMap originatedOf =
      (errandsAt D s e).map Errand.frame := by
  cases e with
  | above task =>
      rcases (run_performs (task s.1) s.2).acts with
        ⟨acts, hDoes, -, hSent, -⟩
      rw [apply, hDoes.actsSince]
      exact hSent
  | tick now =>
      rcases (tick_releases (D := D) now s).acts with
        ⟨acts, hDoes, hRelease, -⟩
      have hActs : s.2.actsSince (tick D now s).2 = acts :=
        hDoes.actsSince
      rw [apply, hActs, errandsAt, List.map_nil,
        List.filterMap_eq_nil_iff]
      intro a ha
      have hThis := hRelease a ha
      cases a with
      | originated frame time => exact absurd hThis id
      | _ => rfl
  | frame frame rx =>
      rcases onFrame_performs (D := D) frame rx s with
        ⟨s', hPerforms, hEnd⟩
      rcases hPerforms.acts with ⟨acts, hDoes, -, hSent, -⟩
      rw [apply, errandsAt]
      rcases hEnd with hEnd | ⟨p, -, -, hEnd⟩
      · rw [hEnd, hDoes.actsSince]
        exact hSent
      · rcases considerForwarding_queue (D := D) p rx s' with
          ⟨added, hMore, -, -⟩
        have hNone :
            (added.map fun entry =>
                Act.queued entry.frame).filterMap
                originatedOf =
              [] := by
          rw [List.filterMap_map, List.filterMap_eq_nil_iff]
          exact fun entry _ => rfl
        rw [hEnd, (hDoes.trans hMore).actsSince,
          List.filterMap_append, hSent, hNone,
          List.append_nil]

/- Our own echo is not queued again. -/
theorem not_ownEcho_of_queued
    {frame out : Bytes} {rx : RxMeta} {s : δ × Router}
    {p : Packet}
    (hParse : parse frame = some p)
    (hQueued :
      .queued out ∈
        s.2.actsSince (onFrame D frame rx s).2) :
    isOwnEcho p s.2.store.selfHash = false := by
  rcases onFrame_performs (D := D) frame rx s with
    ⟨s', hPerforms, hEnd⟩
  rcases hEnd with hEnd | ⟨q, hParsed, hEcho, -⟩
  · rcases hPerforms.acts with ⟨acts, hDoes, hDelivery, -, -⟩
    rw [hEnd, hDoes.actsSince] at hQueued
    exact absurd (hDelivery _ hQueued) id
  · rw [hParse, Option.some.injEq] at hParsed
    rw [hParsed]
    exact hEcho

end Router

end MeshCore
