import MeshCore.Routing.Dedup

/-
  What each operation of a router adds to its history, and
  that the duplicate cache holds what the history remembers.

  Key definitions include:
    * `Router.Does`
    * `Router.CacheTracks`
    * `Router.Event`
    * `Router.apply`

  Key facts include:
    * `Router.run_does`
    * `Router.onFrame_does`
    * `Router.tick_does`
    * `Router.CacheTracks.apply`
-/

namespace MeshCore

namespace Router

variable [CryptoCore]

------------------------------------------------------------
-- Doing
------------------------------------------------------------

/- What an act enters in the cache, if it enters any. -/
def rememberOf : Act → Option Remember
| .originated frame time =>
    some { time := time, frame := frame }
| .received frame time =>
    some { time := time, frame := frame }
| _ => none

/- The slot an act fills. -/
def entryOf (a : Act) : Option Seen :=
  (rememberOf a).map Remember.entry

/-
  `r.Does acts r'` holds when `r` became `r'` by doing
  `acts`: they are in the history, the cache has what they
  remember, and the identity, the settings and the clock are
  as they were.
-/
structure Does
    (r : Router)
    (acts : List Act)
    (r' : Router) :
    Prop where
  config : r'.config = r.config
  now : r'.now = r.now
  selfPk : r'.store.selfPk = r.store.selfPk
  selfSk : r'.store.selfSk = r.store.selfSk
  history : r'.history = r.history ++ acts
  seen :
    r'.seen =
      (acts.filterMap entryOf).foldl RingBuffer.write r.seen
  times :
    ∀ a ∈ acts, ∀ call,
      rememberOf a = some call → call.time = r.now

theorem Does.refl (r : Router) : r.Does [] r :=
  ⟨rfl, rfl, rfl, rfl, by simp, rfl, by simp⟩

theorem Does.trans
    {r r' r'' : Router}
    {acts more : List Act}
    (hFirst : r.Does acts r')
    (hThen : r'.Does more r'') :
    r.Does (acts ++ more) r'' where
  config := hThen.config.trans hFirst.config
  now := hThen.now.trans hFirst.now
  selfPk := hThen.selfPk.trans hFirst.selfPk
  selfSk := hThen.selfSk.trans hFirst.selfSk
  history := by
    rw [hThen.history, hFirst.history, List.append_assoc]
  seen := by
    rw [hThen.seen, hFirst.seen, List.filterMap_append,
      List.foldl_append]
  times := by
    intro a ha
    rcases List.mem_append.mp ha with ha | ha
    · exact hFirst.times a ha
    · rw [← hFirst.now]
      exact hThen.times a ha

theorem Does.selfHash
    {r r' : Router}
    {acts : List Act}
    (hDoes : r.Does acts r') :
    r'.store.selfHash = r.store.selfHash := by
  simp [Store.selfHash, hDoes.selfPk]

------------------------------------------------------------
-- The Parts
------------------------------------------------------------

theorem secretFor_does (r : Router) (pk : PublicKey) :
    r.Does [] (r.secretFor pk).2 := by
  have hSelf :
      (r.store.secretFor pk).2.selfPk = r.store.selfPk ∧
        (r.store.secretFor pk).2.selfSk =
          r.store.selfSk := by
    unfold Store.secretFor
    split
    · exact ⟨rfl, rfl⟩
    · split <;> exact ⟨rfl, rfl⟩
  exact ⟨rfl, rfl, hSelf.1, hSelf.2, by simp [secretFor],
    rfl, by simp⟩

theorem takeIn_does (r : Router) (frame : Bytes) :
    r.Does [.received frame r.now] (r.takeIn frame) :=
  ⟨rfl, rfl, rfl, rfl, rfl, rfl, by simp [rememberOf]⟩

theorem handToRadio_does
    (r : Router)
    (frame : Bytes)
    (priority : Priority) :
    r.Does [.handed frame priority]
      (r.handToRadio frame priority) :=
  ⟨rfl, rfl, rfl, rfl, rfl, rfl, by simp [rememberOf]⟩

theorem queueFrame_does
    (r : Router)
    (frame : Bytes)
    (notBefore : Millis)
    (priority : Priority) :
    r.Does [.queued frame]
      (r.queueFrame frame notBefore priority) :=
  ⟨rfl, rfl, rfl, rfl, rfl, rfl, by simp [rememberOf]⟩

/- What sending a frame of our own amounts to. -/
def transmission
    (r : Router)
    (frame : Bytes)
    (priority : Priority) :
    List Act :=
  [.originated frame r.now, .handed frame priority]

theorem Does.transmission_eq
    {r r' : Router}
    {acts : List Act}
    (hDoes : r.Does acts r')
    (frame : Bytes)
    (priority : Priority) :
    r'.transmission frame priority =
      r.transmission frame priority := by
  simp only [transmission, hDoes.now]

theorem transmitNow_does
    (r : Router)
    (frame : Bytes)
    (priority : Priority) :
    r.Does (r.transmission frame priority)
      (r.transmitNow frame priority) :=
  ⟨rfl, rfl, rfl, rfl, by
    simp [transmitNow, handToRadio, rememberSeen, note,
      transmission], rfl, by
    simp [transmission, rememberOf]⟩

theorem jitter_does (r : Router) :
    r.Does [] r.jitter.2 := by
  unfold jitter
  split
  · exact .refl r
  · exact ⟨rfl, rfl, rfl, rfl, by simp, rfl, by simp⟩

theorem forgetRoute_does (r : Router) (dest : PublicKey) :
    r.Does [] (r.forgetRoute dest) :=
  ⟨rfl, rfl, rfl, rfl, by simp [forgetRoute], rfl, by simp⟩

theorem installRoute_does
    (r : Router)
    (dest : PublicKey)
    (path : Bytes) :
    r.Does [] (r.installRoute dest path) := by
  unfold installRoute
  split <;> exact ⟨rfl, rfl, rfl, rfl, by simp, rfl, by simp⟩

------------------------------------------------------------
-- Sending
------------------------------------------------------------

/- The acts of one that sends: it forwards nothing. -/
def IsSend : Act → Prop
| .sent _ _ _ _ _ => True
| .originated _ _ => True
| .handed _ _ => True
| _ => False

omit [CryptoCore] in
theorem transmission_isSend
    (r : Router)
    (frame : Bytes)
    (priority : Priority) :
    ∀ a ∈ r.transmission frame priority, IsSend a := by
  simp [transmission, IsSend]

theorem issueId_does
    (r : Router)
    (dest : PublicKey)
    (type : PayloadType)
    (payload : Bytes)
    (wantAck : Bool) :
    r.Does [.sent r.nextId dest type payload wantAck]
      (r.issueId dest type payload wantAck).2 :=
  ⟨rfl, rfl, rfl, rfl, rfl, rfl, by simp [rememberOf]⟩

theorem keepPending_does
    (r : Router)
    (wantAck : Bool)
    (entry : Pending) :
    r.Does [] (r.keepPending wantAck entry) := by
  unfold keepPending
  split
  · exact ⟨rfl, rfl, rfl, rfl, by simp, rfl, by simp⟩
  · exact .refl r

theorem sendDirect_does
    (r : Router)
    (dest : PublicKey)
    (type : PayloadType)
    (payload : Bytes)
    (wantAck : Bool) :
    ∃ acts,
      r.Does
          (.sent r.nextId dest type payload wantAck :: acts)
          (r.sendDirect dest type payload wantAck).2 ∧
        (acts = [] ∨
          ∃ frame, acts = r.transmission frame .normal) := by
  have hAsked :=
    (issueId_does r dest type payload wantAck).trans
      (secretFor_does _ dest)
  unfold sendDirect
  simp only
  split
  · exact ⟨[], hAsked, .inl rfl⟩
  · have hKept := fun entry =>
      hAsked.trans (keepPending_does _ wantAck entry)
    refine ⟨_, (hKept _).trans (transmitNow_does _ _ _),
      .inr ?_⟩
    exact ⟨_, (hKept _).transmission_eq _ _⟩

theorem sendFlood_does
    (r : Router)
    (type : PayloadType)
    (payload : Bytes) :
    r.Does
      (r.transmission (buildFrame type payload none) .normal)
      (r.sendFlood type payload) :=
  transmitNow_does r _ _

theorem sendAck_does
    (r : Router)
    (dest : PublicKey)
    (value : UInt32)
    (extra : Bytes) :
    r.Does
      (r.transmission
        (buildFrame .ack (writeUint32 value ++ extra)
          (r.findRoute dest))
        .high)
      (r.sendAck dest value extra) :=
  transmitNow_does r _ _

theorem sender_does (op : SenderOp) (r : Router) :
    ∃ acts, r.Does acts (sender op r).2 ∧
      ∀ a ∈ acts, IsSend a := by
  cases op with
  | sendDirect dest type payload wantAck =>
      rcases sendDirect_does r dest type payload wantAck
        with ⟨acts, hDoes, rfl | ⟨frame, rfl⟩⟩
      · exact ⟨_, hDoes, by simp [IsSend]⟩
      · refine ⟨_, hDoes, ?_⟩
        intro a ha
        rcases List.mem_cons.mp ha with rfl | ha
        · trivial
        · exact transmission_isSend r _ _ a ha
  | sendAck dest value extra =>
      exact ⟨_, sendAck_does r dest value extra,
        transmission_isSend r _ _⟩
  | sendFlood type payload =>
      exact ⟨_, sendFlood_does r type payload,
        transmission_isSend r _ _⟩
  | randomBytes n =>
      exact ⟨[], ⟨rfl, rfl, rfl, rfl, by simp [sender], rfl, by simp⟩,
        by simp⟩
  | store => exact ⟨[], .refl r, by simp⟩

/- Whatever the layer above does, it forwards nothing. -/
theorem run_does
    {α : Type}
    (p : SenderM α)
    (r : Router) :
    ∃ acts, r.Does acts (p.run sender r).2 ∧
      ∀ a ∈ acts, IsSend a := by
  apply Program.run_invariant
    (I := fun r' => ∃ acts, r.Does acts r' ∧
      ∀ a ∈ acts, IsSend a)
  · rintro op r' ⟨acts, hDoes, hSend⟩
    rcases sender_does op r' with ⟨more, hMore, hMoreSend⟩
    refine ⟨acts ++ more, hDoes.trans hMore, ?_⟩
    intro a ha
    rcases List.mem_append.mp ha with ha | ha
    · exact hSend a ha
    · exact hMoreSend a ha
  · exact ⟨[], .refl r, by simp⟩

------------------------------------------------------------
-- Receiving
------------------------------------------------------------

variable {δ : Type} {D : Delegate δ}

/- What delivering a packet here may do: not queue it. -/
def IsDelivery : Act → Prop
| .queued _ => False
| _ => True

omit [CryptoCore] in
theorem IsSend.isDelivery {a : Act} (hSend : IsSend a) :
    IsDelivery a := by
  cases a <;> trivial

/- `r` delivered something, and became `r'`. -/
def Delivers (r r' : Router) : Prop :=
  ∃ acts, r.Does acts r' ∧ ∀ a ∈ acts, IsDelivery a

theorem Delivers.refl (r : Router) : r.Delivers r :=
  ⟨[], .refl r, by simp⟩

theorem Delivers.trans
    {r r' r'' : Router}
    (hFirst : r.Delivers r')
    (hThen : r'.Delivers r'') :
    r.Delivers r'' := by
  rcases hFirst with ⟨acts, hDoes, hActs⟩
  rcases hThen with ⟨more, hMore, hMoreActs⟩
  refine ⟨acts ++ more, hDoes.trans hMore, ?_⟩
  intro a ha
  rcases List.mem_append.mp ha with ha | ha
  · exact hActs a ha
  · exact hMoreActs a ha

/- What does nothing delivers, and so does what sends. -/
theorem Does.delivers
    {r r' : Router}
    (hDoes : r.Does [] r') :
    r.Delivers r' :=
  ⟨[], hDoes, by simp⟩

theorem run_delivers
    {α : Type}
    (p : SenderM α)
    (r : Router) :
    r.Delivers (p.run sender r).2 := by
  rcases run_does p r with ⟨acts, hDoes, hSend⟩
  exact ⟨acts, hDoes, fun a ha => (hSend a ha).isDelivery⟩

theorem transmitNow_delivers
    (r : Router)
    (frame : Bytes)
    (priority : Priority) :
    r.Delivers (r.transmitNow frame priority) :=
  ⟨_, transmitNow_does r frame priority, fun a ha =>
    (transmission_isSend r _ _ a ha).isDelivery⟩

theorem learnRouteFrom_delivers
    (r : Router)
    (p : Packet)
    (peer : PublicKey) :
    r.Delivers (r.learnRouteFrom p peer) := by
  have hLearnt :=
    (installRoute_does r peer
      (reversePath p.path maxPathSize)).trans
      (secretFor_does _ peer)
  unfold learnRouteFrom sendPathReturn
  simp only
  split
  · exact hLearnt.delivers
  · exact hLearnt.delivers.trans
      (transmitNow_delivers _ _ _)

theorem handleAck_delivers
    (payload : Bytes)
    (d : δ)
    (r : Router) :
    r.Delivers (handleAck D payload (d, r)).2 := by
  unfold handleAck
  simp only
  split
  · exact .refl _
  · split
    · exact .refl _
    · exact ⟨[.acked _], ⟨rfl, rfl, rfl, rfl, rfl, rfl, by simp [rememberOf]⟩,
        by simp [IsDelivery]⟩

theorem acknowledge_delivers
    (type : PayloadType)
    (peer : PublicKey)
    (plain : Bytes)
    (s : δ × Router) :
    s.2.Delivers (acknowledge D type peer plain s).2 := by
  unfold acknowledge
  split
  · exact transmitNow_delivers _ _ _
  · exact .refl _

theorem received_delivers
    (p : Packet)
    (candidate : Contact)
    (plain : Bytes)
    (d : δ)
    (r : Router) :
    r.Delivers (received D p candidate plain (d, r)).2 := by
  have hLearn :
      r.Delivers
        (if p.routeType = .flood then
          r.learnRouteFrom p candidate.pk
        else r) := by
    split
    · exact learnRouteFrom_delivers _ _ _
    · exact .refl _
  unfold received
  simp only
  generalize (if p.routeType = .flood then
      r.learnRouteFrom p candidate.pk
    else r) = learnt at hLearn ⊢
  split
  · split
    · exact hLearn
    · exact hLearn.trans
        (installRoute_does _ _ _).delivers
  · exact (hLearn.trans (run_delivers _ _)).trans
      (acknowledge_delivers _ _ _ _)

theorem tryCandidates_delivers
    (p : Packet)
    (envelope : Envelope)
    (candidates : List Contact)
    (d : δ)
    (r : Router) :
    r.Delivers
      (tryCandidates D p envelope candidates (d, r)).2 := by
  induction candidates generalizing d r with
  | nil => exact .refl _
  | cons candidate rest ih =>
      have hAsked :=
        (secretFor_does r candidate.pk).delivers
      unfold tryCandidates
      simp only
      split
      · exact hAsked.trans (ih _ _)
      · exact hAsked.trans (received_delivers _ _ _ _ _)

theorem deliverToSelf_delivers
    (p : Packet)
    (d : δ)
    (r : Router) :
    r.Delivers (deliverToSelf D p (d, r)).2 := by
  unfold deliverToSelf
  split
  · exact .refl _
  · split
    · exact .refl _
    · exact tryCandidates_delivers _ _ _ _ _

theorem deliverAnon_delivers
    (p : Packet)
    (d : δ)
    (r : Router) :
    r.Delivers (deliverAnon D p (d, r)).2 := by
  unfold deliverAnon
  split
  · exact .refl _
  · split
    · exact .refl _
    · simp only
      split
      · exact (secretFor_does _ _).delivers
      · refine .trans ?_ (run_delivers _ _)
        split
        · exact ((secretFor_does _ _).trans
            (installRoute_does _ _ _)).delivers
        · exact (secretFor_does _ _).delivers

theorem dispatch_delivers
    (p : Packet)
    (d : δ)
    (r : Router) :
    r.Delivers (dispatch D p (d, r)).2 := by
  unfold dispatch
  split
  · exact handleAck_delivers _ _ _
  · exact deliverAnon_delivers _ _ _
  · exact .refl _
  · split
    · exact .refl _
    · exact run_delivers _ _
  · exact run_delivers _ _
  · exact run_delivers _ _
  · exact deliverToSelf_delivers _ _ _

------------------------------------------------------------
-- Forwarding
------------------------------------------------------------

/- The frame that carries a packet on from here. -/
def onwardFrame
    (p : Packet)
    (selfHash : UInt8)
    (snr : Int16) :
    Option Bytes :=
  (transitCopy p selfHash snr).bind
    (serialize · maxPacketFrame)

/- Forwarding queues the onward frame or does nothing. -/
theorem considerForwarding_does
    (p : Packet)
    (rx : RxMeta)
    (d : δ)
    (r : Router) :
    ∃ acts,
      r.Does acts (considerForwarding D p rx (d, r)).2 ∧
        (acts = [] ∨
          ∃ out,
            onwardFrame p r.store.selfHash rx.snr =
                some out ∧
              acts = [.queued out]) := by
  unfold considerForwarding
  simp only
  split
  · split
    · exact ⟨[], .refl r, .inl rfl⟩
    · next out hOut =>
        exact ⟨[.queued out],
          (jitter_does r).trans (queueFrame_does _ _ _ _),
          .inr ⟨out, hOut, rfl⟩⟩
  · exact ⟨[], .refl r, .inl rfl⟩

/-
  A frame is ignored, or it is remembered first, delivered
  next, and queued again last.
-/
theorem onFrame_does
    (frame : Bytes)
    (rx : RxMeta)
    (d : δ)
    (r : Router) :
    ∃ acts, r.Does acts (onFrame D frame rx (d, r)).2 ∧
      (acts = [] ∨
        ∃ p here ahead,
          parse frame = some p ∧
          r.alreadySeen frame = false ∧
          acts =
            .received frame r.now :: (here ++ ahead) ∧
          (∀ a ∈ here, IsDelivery a) ∧
          (ahead = [] ∨
            ∃ out,
              onwardFrame p r.store.selfHash rx.snr =
                  some out ∧
                ahead = [.queued out])) := by
  unfold onFrame
  split
  · exact ⟨[], .refl r, .inl rfl⟩
  next p hParse =>
    simp only
    split
    · exact ⟨[], .refl r, .inl rfl⟩
    next hNew =>
      have hRemember := takeIn_does r frame
      rw [Bool.not_eq_true] at hNew
      split
      · exact ⟨_, hRemember, .inr ⟨p, [], [], hParse, hNew,
          rfl, by simp, .inl rfl⟩⟩
      · rcases dispatch_delivers (D := D) p d
            (r.takeIn frame) with
          ⟨here, hHere, hDelivery⟩
        rcases considerForwarding_does (D := D) p rx
            (dispatch D p (d, r.takeIn frame)).1
            (dispatch D p (d, r.takeIn frame)).2 with
          ⟨ahead, hAhead, hOut⟩
        have hSoFar := hRemember.trans hHere
        refine ⟨_, hSoFar.trans hAhead, .inr ⟨p, here,
          ahead, hParse, hNew, ?_, hDelivery, ?_⟩⟩
        · simp
        · rwa [hSoFar.selfHash] at hOut

------------------------------------------------------------
-- Time
------------------------------------------------------------

/- What a tick does: hand frames over, give sends up. -/
def IsRelease : Act → Prop
| .handed _ _ => True
| .failed _ => True
| _ => False

/- What a router hands over now, and what it keeps. -/
def due (r : Router) : List Delayed :=
  (r.queue.insertionSort Delayed.before).filter
    (·.notBefore ≤ r.now)

def waiting (r : Router) : List Delayed :=
  (r.queue.insertionSort Delayed.before).filter
    (r.now < ·.notBefore)

omit [CryptoCore] in
theorem mem_queue_iff
    {r : Router} {entry : Delayed} :
    entry ∈ r.queue ↔ entry ∈ r.due ∨ entry ∈ r.waiting := by
  have hSorted :
      entry ∈ r.queue.insertionSort Delayed.before ↔
        entry ∈ r.queue :=
    (List.perm_insertionSort _ _).mem_iff
  simp only [due, waiting, List.mem_filter, hSorted,
    decide_eq_true_eq]
  rw [← and_or_left, ← UInt64.not_le]
  exact ⟨fun h => ⟨h, Classical.em _⟩, fun h => h.1⟩

/- An entry that is handed over, as the history has it. -/
def handOver (entry : Delayed) : Act :=
  .handed entry.frame entry.priority

omit [CryptoCore] in
/- Handing frames over changes the history alone. -/
theorem drainQueue_eq (r : Router) :
    r.drainQueue =
      { r with
        queue := r.waiting
        history := r.history ++ r.due.map handOver } := by
  have hHand :
      ∀ (entries : List Delayed) (r : Router),
        entries.foldl
            (fun r entry =>
              r.handToRadio entry.frame entry.priority)
            r =
          { r with
            history :=
              r.history ++ entries.map handOver } := by
    intro entries
    induction entries with
    | nil => simp
    | cons entry entries ih =>
        intro r
        rw [List.foldl_cons, ih]
        simp [handToRadio, note, handOver]
  exact hHand _ _

theorem drainQueue_does (r : Router) :
    r.Does (r.due.map handOver) r.drainQueue := by
  rw [drainQueue_eq]
  refine ⟨rfl, rfl, rfl, rfl, rfl, ?_, ?_⟩
  · have hNone :
        (r.due.map handOver).filterMap entryOf = [] := by
      simp [List.filterMap_map, handOver, entryOf,
        rememberOf]
    rw [hNone]
    rfl
  · simp [handOver, rememberOf]

omit [CryptoCore] in
theorem handOver_isRelease (entries : List Delayed) :
    ∀ a ∈ entries.map handOver, IsRelease a := by
  simp [handOver, IsRelease]

omit [CryptoCore] in
/-
  What giving a send up keeps, and sending it again, the
  walk over the pending table keeps.
-/
theorem retryPending_keeps
    {I : Router → Prop}
    (hGiveUp :
      ∀ (r : Router) (entry : Pending), I r →
        I ((r.forgetRoute entry.dest).note
          (.failed entry.id)))
    (hAgain :
      ∀ (r : Router) (frame : Bytes), I r →
        I (r.handToRadio frame .normal))
    (entries : List Pending)
    (d : δ)
    {r : Router}
    (hHere : I r) :
    I (retryPending D entries (d, r)).2.2 := by
  induction entries generalizing d r with
  | nil => exact hHere
  | cons entry rest ih =>
      unfold retryPending
      split
      · exact ih d hHere
      · split
        · apply ih
          exact hGiveUp r entry hHere
        · apply ih
          exact hAgain r entry.frame hHere

/- To give a send up is to forget the route and say so. -/
theorem giveUp_does (r : Router) (entry : Pending) :
    r.Does [.failed entry.id]
      ((r.forgetRoute entry.dest).note
        (.failed entry.id)) := by
  have hFailed :
      (r.forgetRoute entry.dest).Does [.failed entry.id]
        ((r.forgetRoute entry.dest).note
          (.failed entry.id)) :=
    ⟨rfl, rfl, rfl, rfl, rfl, rfl, by simp [rememberOf]⟩
  exact (forgetRoute_does r entry.dest).trans hFailed

theorem retryPending_does
    (entries : List Pending)
    (d : δ)
    (r : Router) :
    ∃ acts,
      r.Does acts (retryPending D entries (d, r)).2.2 ∧
        ∀ a ∈ acts, IsRelease a := by
  apply retryPending_keeps
    (I := fun r' =>
      ∃ acts, r.Does acts r' ∧ ∀ a ∈ acts, IsRelease a)
  · rintro r' entry ⟨acts, hActs, hRelease⟩
    refine ⟨_, hActs.trans (giveUp_does r' entry), ?_⟩
    exact List.forall_mem_append.mpr
      ⟨hRelease, by simp [IsRelease]⟩
  · rintro r' frame ⟨acts, hActs, hRelease⟩
    refine ⟨_, hActs.trans (handToRadio_does r' _ _), ?_⟩
    exact List.forall_mem_append.mpr
      ⟨hRelease, by simp [IsRelease]⟩
  · exact ⟨[], .refl r, by simp⟩

theorem tick_does
    (now : Millis)
    (d : δ)
    (r : Router) :
    ∃ acts,
      ({ r with now := now } : Router).Does acts
          (tick D now (d, r)).2 ∧
        ∀ a ∈ acts, IsRelease a := by
  have hActs := drainQueue_does { r with now := now }
  have hRelease :=
    handOver_isRelease (due { r with now := now })
  rcases retryPending_does (D := D)
      (drainQueue { r with now := now }).pending d
      (drainQueue { r with now := now }) with
    ⟨more, hMore, hMoreRelease⟩
  have hKept :
      ∀ (r' : Router) pending,
        r'.Does [] { r' with pending := pending } :=
    fun _ _ => ⟨rfl, rfl, rfl, rfl, by simp, rfl, by simp⟩
  refine ⟨_, (hActs.trans hMore).trans (hKept _ _), ?_⟩
  intro a ha
  rw [List.append_nil, List.mem_append] at ha
  rcases ha with ha | ha
  · exact hRelease a ha
  · exact hMoreRelease a ha

------------------------------------------------------------
-- Events
------------------------------------------------------------

/- What can happen to a router and the layer above it. -/
inductive Event (δ : Type) where
| frame (frame : Bytes) (rx : RxMeta)
| tick (now : Millis)
| above (task : δ → SenderM δ)

def apply
    (D : Delegate δ)
    (s : δ × Router) :
    Event δ → δ × Router
| .frame frame rx => onFrame D frame rx s
| .tick now => tick D now s
| .above task => (task s.1).run sender s.2

/- The clock an event is seen at. -/
def clockOf (r : Router) : Event δ → Millis
| .tick now => now
| _ => r.now

/- Every event adds to the history, at its clock. -/
theorem apply_does
    (e : Event δ)
    (s : δ × Router) :
    ∃ acts,
      ({ s.2 with now := s.2.clockOf e } : Router).Does acts
        (apply D s e).2 := by
  cases e with
  | frame frame rx =>
      rcases onFrame_does (D := D) frame rx s.1 s.2 with
        ⟨acts, hActs, -⟩
      exact ⟨acts, hActs⟩
  | tick now =>
      rcases tick_does (D := D) now s.1 s.2 with
        ⟨acts, hActs, -⟩
      exact ⟨acts, hActs⟩
  | above task =>
      rcases run_does (task s.1) s.2 with ⟨acts, hActs, -⟩
      exact ⟨acts, hActs⟩

/- The cache is what the history remembers. -/
def CacheTracks (r : Router) : Prop :=
  r.seen =
    .ofWrites (slotCount r.config) {}
      (r.history.filterMap entryOf)

theorem cacheTracks_create
    (store : Store)
    (entropy : Entropy)
    (config : RouterConfig) :
    (create store entropy config).CacheTracks :=
  rfl

theorem Does.cacheTracks
    {r r' : Router}
    {acts : List Act}
    (hDoes : r.Does acts r')
    (hTracks : r.CacheTracks) :
    r'.CacheTracks := by
  unfold CacheTracks at hTracks ⊢
  rw [hDoes.seen, hDoes.config, hDoes.history, hTracks,
    List.filterMap_append, RingBuffer.ofWrites, RingBuffer.ofWrites,
    List.foldl_append]

theorem CacheTracks.apply
    {s : δ × Router}
    (hTracks : s.2.CacheTracks)
    (e : Event δ) :
    (apply D s e).2.CacheTracks := by
  rcases apply_does (D := D) e s with ⟨acts, hActs⟩
  exact hActs.cacheTracks hTracks

end Router

end MeshCore
