import MeshCore.Library.Vec
import MeshCore.Routing.Routes

/-
  The router with every access to its tables checked: an
  index outside a table, or an element erased from an empty
  one, and there is no result. Everything else is as in the
  router, which is what it does where nothing is outside.

  Key definitions include:
    * `Router.installRouteChecked`
    * `Router.onFrameChecked`, `Router.tickChecked`
    * `Router.applyChecked`
    * `Router.InBounds`
    * `Router.Quiet`

  Key facts include:
    * `Router.installRouteChecked_eq`
    * `Router.onFrameChecked_eq`, `Router.tickChecked_eq`
    * `Router.tables_stay_in_bounds_iff`
-/

namespace MeshCore

namespace Router

section Bounds

variable [CryptoCore]

------------------------------------------------------------
-- Checked Accesses
------------------------------------------------------------

def rememberSeenChecked
    (r : Router)
    (frame : Bytes) :
    Option Router := do
  let slots ←
    Vec.setAt r.seen.slots r.seen.cursor
      { shortHash := shortHashOf frame
        stamp := r.now + 1 }
  some
    { r with
      seen :=
        { slots := slots
          cursor := (r.seen.cursor + 1) % slots.length } }

def transmitNowChecked
    (r : Router)
    (frame : Bytes)
    (priority : Priority) :
    Option Router := do
  let remembered ← r.rememberSeenChecked frame
  some
    ((remembered.note (.originated frame r.now)).handToRadio
      frame priority)

omit [CryptoCore] in
def forgetRouteChecked
    (r : Router)
    (dest : PublicKey) :
    Option Router := do
  let (_, routes) ←
    Vec.eraseFirstFrom (·.dest == dest) r.routes.length 0
      r.routes
  some { r with routes := routes }

/- Both installers make room by erasing the first route. -/
def installRouteChecked
    (r : Router)
    (dest : PublicKey)
    (path : Bytes) :
    Option Router :=
  match r.routes.findIdx? (·.dest == dest) with
  | some row =>
      some
        { r with
          routes :=
            r.routes.modify row fun route =>
              { route with path := path } }
  | none => do
      let kept ←
        if r.config.maxRoutes ≤ r.routes.length then
          Vec.eraseAt r.routes 0
        else some r.routes
      some
        { r with
          routes := kept ++ [{ dest := dest, path := path }] }

------------------------------------------------------------
-- Checked Sending
------------------------------------------------------------

def sendDirectChecked
    (r : Router)
    (dest : PublicKey)
    (type : PayloadType)
    (payload : Bytes)
    (wantAck : Bool) :
    Option (SendId × Router) :=
  let (id, r) := r.issueId dest type payload wantAck
  let (secret, r) := r.secretFor dest
  match
    secret.bind fun secret =>
      envelopeFor r.store.selfHash secret dest payload
  with
  | none => some (id, r)
  | some wire => do
      let route := r.findRoute dest
      let frame := buildFrame type wire route
      let r :=
        r.keepPending wantAck
          { id := id
            expectedAck :=
              expectedAck payload r.store.selfPk
            deadline := r.ackDeadline route
            attempts := 1
            viaFlood := route.isNone
            dest := dest
            frame := frame }
      let r ← r.transmitNowChecked frame .normal
      some (id, r)

def sendFloodChecked
    (r : Router)
    (type : PayloadType)
    (payload : Bytes) :
    Option Router :=
  r.transmitNowChecked (buildFrame type payload none) .normal

def sendAckChecked
    (r : Router)
    (dest : PublicKey)
    (value : UInt32)
    (extra : Bytes) :
    Option Router :=
  r.transmitNowChecked
    (buildFrame .ack (writeUint32 value ++ extra)
      (r.findRoute dest))
    .high

def senderChecked :
    (op : SenderOp) →
    Router →
    Option (SenderOp.Ans op × Router)
| .sendDirect dest type payload wantAck, r =>
    r.sendDirectChecked dest type payload wantAck
| .sendAck dest value extra, r => do
    let r ← r.sendAckChecked dest value extra
    some ((), r)
| .sendFlood type payload, r => do
    let r ← r.sendFloodChecked type payload
    some ((), r)
| .randomBytes n, r =>
    let (bytes, entropy) := r.entropy.take n
    some (bytes, { r with entropy := entropy })
| .store, r => some (r.store, r)

def runChecked
    {α : Type} :
    SenderM α →
    Router →
    Option (α × Router)
| .done a, r => some (a, r)
| .call op k, r => do
    let (answer, r) ← senderChecked op r
    runChecked (k answer) r

------------------------------------------------------------
-- Checked Receiving
------------------------------------------------------------

variable {δ : Type}

def sendPathReturnChecked
    (r : Router)
    (dest : PublicKey)
    (forward : Bytes) :
    Option Router :=
  let (secret, r) := r.secretFor dest
  match
    secret.bind fun secret =>
      (encodePath
        { path := forward, extraType := 0, extra := [] }
        maxPacketPayload).bind fun plain =>
          envelopeFor r.store.selfHash secret dest plain
  with
  | none => some r
  | some payload =>
      r.transmitNowChecked
        (buildFrame .path payload (r.findRoute dest))
        .high

def learnRouteFromChecked
    (r : Router)
    (p : Packet)
    (peer : PublicKey) :
    Option Router := do
  let r ←
    r.installRouteChecked peer
      (reversePath p.path maxPathSize)
  r.sendPathReturnChecked peer p.path

def handleAckChecked
    (D : Delegate δ)
    (payload : Bytes)
    (s : δ × Router) :
    Option (δ × Router) :=
  let (d, r) := s
  if payload.length < 4 then some s
  else do
    let value := readUint32 payload 0
    let (found, pending) ←
      Vec.eraseFirstFrom (·.expectedAck == value)
        r.pending.length 0 r.pending
    match found with
    | none => some s
    | some entry =>
        some
          (D.onAck d entry.id,
            note { r with pending := pending }
              (.acked entry.id))

def acknowledgeChecked
    (D : Delegate δ)
    (type : PayloadType)
    (peer : PublicKey)
    (plain : Bytes)
    (s : δ × Router) :
    Option (δ × Router) :=
  if D.shouldAck s.1 type plain then do
    let r ←
      s.2.sendAckChecked peer (expectedAck plain peer) []
    some (s.1, r)
  else some s

/- A flood that was opened shows the way back. -/
def followFloodChecked
    (r : Router)
    (p : Packet)
    (peer : PublicKey) :
    Option Router :=
  if p.routeType = .flood then
    r.learnRouteFromChecked p peer
  else some r

def receivedChecked
    (D : Delegate δ)
    (p : Packet)
    (candidate : Contact)
    (plain : Bytes)
    (s : δ × Router) :
    Option (δ × Router) := do
  let (d, r) := s
  let r ← r.followFloodChecked p candidate.pk
  if p.payloadType = .path then
    match decodePath plain with
    | none => some (d, r)
    | some returned => do
        let r ←
          r.installRouteChecked candidate.pk returned.path
        some (d, r)
  else do
    let s ←
      runChecked
        (D.onPayload d candidate p.payloadType plain) r
    acknowledgeChecked D p.payloadType candidate.pk plain s

def tryCandidatesChecked
    (D : Delegate δ)
    (p : Packet)
    (envelope : Envelope) :
    List Contact → δ × Router → Option (δ × Router)
| [], s => some s
| candidate :: rest, (d, r) =>
    let (secret, r) := r.secretFor candidate.pk
    match
      secret.bind fun secret =>
        openCiphertext secret
          (copyInto _ envelope.cipherMac)
          envelope.ciphertext envelope.ciphertext.length
    with
    | none => tryCandidatesChecked D p envelope rest (d, r)
    | some plain => receivedChecked D p candidate plain (d, r)

def deliverToSelfChecked
    (D : Delegate δ)
    (p : Packet)
    (s : δ × Router) :
    Option (δ × Router) :=
  match decodeEnvelope p.payload with
  | none => some s
  | some envelope =>
      if envelope.destinationHash ≠ s.2.store.selfHash then
        some s
      else
        tryCandidatesChecked D p envelope
          (candidatesFor D s envelope.sourceHash) s

/- The way back of a login is entered, and not returned. -/
def enterFloodChecked
    (r : Router)
    (p : Packet)
    (peer : PublicKey) :
    Option Router :=
  if p.routeType = .flood then
    r.installRouteChecked peer
      (reversePath p.path maxPathSize)
  else some r

def deliverAnonChecked
    (D : Delegate δ)
    (p : Packet)
    (s : δ × Router) :
    Option (δ × Router) :=
  match decodeAnonReq p.payload with
  | none => some s
  | some request =>
      if request.destinationHash ≠ s.2.store.selfHash then
        some s
      else
        let peer : PublicKey :=
          copyInto _ request.publicKey
        let (secret, r) := s.2.secretFor peer
        match
          secret.bind fun secret =>
            openCiphertext secret
              (copyInto _ request.cipherMac)
              request.ciphertext request.ciphertext.length
        with
        | none => some (s.1, r)
        | some plain => do
            let r ← r.enterFloodChecked p peer
            runChecked (D.onAnon s.1 peer plain) r

def dispatchChecked
    (D : Delegate δ)
    (p : Packet)
    (s : δ × Router) :
    Option (δ × Router) :=
  match p.payloadType with
  | .ack => handleAckChecked D p.payload s
  | .anonReq => deliverAnonChecked D p s
  | .advert => some s
  | .trace =>
      match decodeTrace p.payload with
      | none => some s
      | some trace =>
          runChecked (D.onTrace s.1 trace p.path) s.2
  | .grpTxt =>
      runChecked (D.onGroup s.1 p.payloadType p.payload) s.2
  | .grpData =>
      runChecked (D.onGroup s.1 p.payloadType p.payload) s.2
  | _ => deliverToSelfChecked D p s

def takeInChecked
    (r : Router)
    (frame : Bytes) :
    Option Router := do
  let remembered ← r.rememberSeenChecked frame
  some (remembered.note (.received frame r.now))

def onFrameChecked
    (D : Delegate δ)
    (frame : Bytes)
    (rx : RxMeta)
    (s : δ × Router) :
    Option (δ × Router) :=
  match parse frame with
  | none => some s
  | some p =>
      if s.2.alreadySeen frame then some s
      else do
        let r ← s.2.takeInChecked frame
        if isOwnEcho p r.store.selfHash then some (s.1, r)
        else do
          let s ← dispatchChecked D p (s.1, r)
          some (considerForwarding D p rx s)

------------------------------------------------------------
-- Checked Time
------------------------------------------------------------

/- What waits is kept, and what is due is handed over. -/
def drainBody
    (entry : Delayed)
    (r : Router) :
    Option (Option Delayed × Router) :=
  if r.now < entry.notBefore then some (some entry, r)
  else
    some (none, r.handToRadio entry.frame entry.priority)

def drainQueueChecked (r : Router) : Option Router := do
  let sorted := r.queue.insertionSort Delayed.before
  let (queue, r) ←
    Vec.sweepFrom drainBody sorted.length 0 sorted r
  some { r with queue := queue }

/- An entry waits, is given up, or is sent again. -/
def retryBody
    (D : Delegate δ)
    (entry : Pending)
    (s : δ × Router) :
    Option (Option Pending × (δ × Router)) :=
  let (d, r) := s
  if r.now < entry.deadline then some (some entry, s)
  else if r.config.maxAttempts ≤ entry.attempts then do
    let r ← r.forgetRouteChecked entry.dest
    some
      (none,
        (D.onDeliveryFailed d entry.id,
          r.note (.failed entry.id)))
  else
    some
      (some
          { entry with
            attempts := entry.attempts + 1
            deadline :=
              r.now +
                (if entry.viaFlood then
                  r.config.floodAckTimeout
                else r.config.directAckBase) },
        (d, r.handToRadio entry.frame .normal))

def tickChecked
    (D : Delegate δ)
    (now : Millis)
    (s : δ × Router) :
    Option (δ × Router) := do
  let r ← drainQueueChecked { s.2 with now := now }
  let (pending, (d, r)) ←
    Vec.sweepFrom (retryBody D) r.pending.length 0 r.pending
      (s.1, r)
  some (d, { r with pending := pending })

def applyChecked
    (D : Delegate δ)
    (s : δ × Router) :
    Event δ → Option (δ × Router)
| .frame frame rx => onFrameChecked D frame rx s
| .tick now => tickChecked D now s
| .above task => runChecked (task s.1) s.2

------------------------------------------------------------
-- Nothing Is Outside
------------------------------------------------------------

/- The next write to the cache has a slot to go to. -/
def CursorInside (r : Router) : Prop :=
  r.seen.cursor < r.seen.slots.length

omit [CryptoCore] in
theorem cursorInside_writes
    {ring : RingBuffer Seen}
    (hInside : ring.cursor < ring.slots.length)
    (entries : List Seen) :
    let after := entries.foldl RingBuffer.write ring
    after.cursor < after.slots.length := by
  induction entries generalizing ring with
  | nil => exact hInside
  | cons entry entries ih =>
      apply ih
      rw [RingBuffer.length_write]
      exact Nat.mod_lt _ (Nat.zero_lt_of_lt hInside)

theorem Does.cursorInside
    {r r' : Router} {acts : List Act}
    (hDoes : r.Does acts r')
    (hInside : r.CursorInside) :
    r'.CursorInside := by
  unfold CursorInside
  rw [hDoes.seen]
  exact cursorInside_writes hInside _

theorem rememberSeenChecked_eq
    {r : Router}
    (hInside : r.CursorInside)
    (frame : Bytes) :
    r.rememberSeenChecked frame =
      some (r.rememberSeen frame) := by
  rw [rememberSeenChecked, Vec.setAt_eq_some hInside]
  simp [rememberSeen, RingBuffer.write]

theorem transmitNowChecked_eq
    {r : Router}
    (hInside : r.CursorInside)
    (frame : Bytes)
    (priority : Priority) :
    r.transmitNowChecked frame priority =
      some (r.transmitNow frame priority) := by
  rw [transmitNowChecked, rememberSeenChecked_eq hInside]
  rfl

omit [CryptoCore] in
theorem forgetRouteChecked_eq
    (r : Router)
    (dest : PublicKey) :
    r.forgetRouteChecked dest =
      some (r.forgetRoute dest) := by
  have hLoop :=
    Vec.eraseFirstFrom_eq (·.dest == dest) [] r.routes
      (Nat.le_refl r.routes.length)
  rw [List.nil_append, List.length_nil] at hLoop
  rw [forgetRouteChecked, hLoop]
  rfl

theorem sendDirectChecked_eq
    {r : Router}
    (hInside : r.CursorInside)
    (dest : PublicKey)
    (type : PayloadType)
    (payload : Bytes)
    (wantAck : Bool) :
    r.sendDirectChecked dest type payload wantAck =
      some (r.sendDirect dest type payload wantAck) := by
  have hAskedInside :
      ((r.issueId dest type payload wantAck).2.secretFor
        dest).2.CursorInside :=
    hInside
  simp only [sendDirectChecked, sendDirect]
  generalize
    (r.issueId dest type payload wantAck).2.secretFor dest =
      asked at hAskedInside ⊢
  cases asked.1.bind fun secret =>
      envelopeFor asked.2.store.selfHash secret dest
        payload with
  | none => rfl
  | some wire =>
      simp only
      rw [transmitNowChecked_eq]
      · rfl
      · unfold keepPending
        split <;> exact hAskedInside

theorem senderChecked_eq
    (op : SenderOp)
    {r : Router}
    (hInside : r.CursorInside) :
    senderChecked op r = some (sender op r) := by
  cases op with
  | sendDirect dest type payload wantAck =>
      exact sendDirectChecked_eq hInside dest type payload
        wantAck
  | sendAck dest value extra =>
      rw [senderChecked, sendAckChecked,
        transmitNowChecked_eq hInside]
      rfl
  | sendFlood type payload =>
      rw [senderChecked, sendFloodChecked,
        transmitNowChecked_eq hInside]
      rfl
  | randomBytes n => rfl
  | store => rfl

theorem runChecked_eq
    {α : Type}
    (task : SenderM α)
    {r : Router}
    (hInside : r.CursorInside) :
    runChecked task r = some (task.run sender r) := by
  induction task generalizing r with
  | done a => rfl
  | call op k ih =>
      have hNext : (sender op r).2.CursorInside := by
        rcases sender_does op r with ⟨acts, hDoes, -⟩
        exact hDoes.cursorInside hInside
      rw [runChecked, senderChecked_eq op hInside]
      exact ih _ hNext

theorem sendPathReturnChecked_eq
    {r : Router}
    (hInside : r.CursorInside)
    (dest : PublicKey)
    (forward : Bytes) :
    r.sendPathReturnChecked dest forward =
      some (r.sendPathReturn dest forward) := by
  have hAskedInside : (r.secretFor dest).2.CursorInside :=
    hInside
  simp only [sendPathReturnChecked, sendPathReturn]
  generalize r.secretFor dest = asked at hAskedInside ⊢
  cases asked.1.bind fun secret =>
      (encodePath
        { path := forward, extraType := 0, extra := [] }
        maxPacketPayload).bind fun plain =>
          envelopeFor asked.2.store.selfHash secret dest
            plain with
  | none => rfl
  | some payload =>
      exact transmitNowChecked_eq hAskedInside _ _

omit [CryptoCore] in
theorem handleAckChecked_eq
    (D : Delegate δ)
    (payload : Bytes)
    (s : δ × Router) :
    handleAckChecked D payload s =
      some (handleAck D payload s) := by
  rcases s with ⟨d, r⟩
  have hLoop :=
    Vec.eraseFirstFrom_eq
      (·.expectedAck == readUint32 payload 0) [] r.pending
      (Nat.le_refl r.pending.length)
  rw [List.nil_append, List.length_nil] at hLoop
  simp only [handleAckChecked, handleAck]
  split
  · rfl
  · rw [hLoop]
    simp only [Option.bind_eq_bind, Option.bind_some]
    cases r.pending.find?
        (·.expectedAck == readUint32 payload 0) with
    | none => rfl
    | some entry => rfl

theorem acknowledgeChecked_eq
    (D : Delegate δ)
    (type : PayloadType)
    (peer : PublicKey)
    (plain : Bytes)
    {s : δ × Router}
    (hInside : s.2.CursorInside) :
    acknowledgeChecked D type peer plain s =
      some (acknowledge D type peer plain s) := by
  unfold acknowledgeChecked acknowledge
  split
  · rw [sendAckChecked, transmitNowChecked_eq hInside]
    rfl
  · rfl

theorem takeInChecked_eq
    {r : Router}
    (hInside : r.CursorInside)
    (frame : Bytes) :
    r.takeInChecked frame = some (r.takeIn frame) := by
  rw [takeInChecked, rememberSeenChecked_eq hInside]
  rfl

------------------------------------------------------------
-- Making Room For A Route
------------------------------------------------------------

/- Room can be made, or a route can make way. -/
def CanInstall (r : Router) : Prop :=
  0 < r.config.maxRoutes ∨ r.routes ≠ []

instance (r : Router) : Decidable r.CanInstall :=
  inferInstanceAs (Decidable (_ ∨ _))

omit [CryptoCore] in
theorem SameRoutes.canInstall_iff
    {r r' : Router}
    (hSame : r.SameRoutes r') :
    r'.CanInstall ↔ r.CanInstall := by
  rw [CanInstall, CanInstall, hSame.routes, hSame.config]

omit [CryptoCore] in
theorem installRoute_ne_nil
    (r : Router)
    (dest : PublicKey)
    (path : Bytes) :
    (r.installRoute dest path).routes ≠ [] := by
  unfold installRoute
  split
  next row hRow =>
    intro hNone
    have hLength := congrArg List.length hNone
    rw [List.length_modify] at hLength
    rw [List.length_eq_zero_iff.mp hLength] at hRow
    cases hRow
  next => simp

omit [CryptoCore] in
/- Where none is, none can make way. -/
theorem installRouteChecked_eq
    (r : Router)
    (dest : PublicKey)
    (path : Bytes) :
    r.installRouteChecked dest path =
      if r.CanInstall then some (r.installRoute dest path)
      else none := by
  unfold installRouteChecked installRoute
  cases hRow : r.routes.findIdx? (·.dest == dest) with
  | some row =>
      have hCan : r.CanInstall := by
        right
        intro hNone
        rw [hNone] at hRow
        cases hRow
      rw [if_pos hCan]
  | none =>
      simp only [Vec.eraseAt_zero]
      by_cases hNone : r.routes = []
      · by_cases hZero : r.config.maxRoutes = 0
        · have hCannot : ¬ r.CanInstall := by
            simp [CanInstall, hNone, hZero]
          rw [if_neg hCannot]
          simp [hNone, hZero]
        · have hCan : r.CanInstall :=
            .inl (Nat.pos_of_ne_zero hZero)
          rw [if_pos hCan]
          simp [hNone, hZero]
      · have hCan : r.CanInstall := .inr hNone
        rw [if_pos hCan, if_neg hNone]
        split <;> rfl

theorem learnRouteFromChecked_eq
    {r : Router}
    (hInside : r.CursorInside)
    (p : Packet)
    (peer : PublicKey) :
    r.learnRouteFromChecked p peer =
      if r.CanInstall then some (r.learnRouteFrom p peer)
      else none := by
  rw [learnRouteFromChecked, installRouteChecked_eq]
  split
  · have hNext :
        (r.installRoute peer
          (reversePath p.path
            maxPathSize)).CursorInside :=
      (installRoute_does r peer _).cursorInside hInside
    exact sendPathReturnChecked_eq hNext peer p.path
  · rfl

theorem followFloodChecked_eq
    {r : Router}
    (hInside : r.CursorInside)
    (p : Packet)
    (peer : PublicKey) :
    r.followFloodChecked p peer =
      if learntRoute p = [] ∨ r.CanInstall then
        some
          (if p.routeType = .flood then
            r.learnRouteFrom p peer
          else r)
      else none := by
  unfold followFloodChecked learntRoute
  by_cases hFlood : p.routeType = .flood
  · rw [if_pos hFlood, if_pos hFlood, if_pos hFlood,
      learnRouteFromChecked_eq hInside]
    simp
  · simp [if_neg hFlood]

/- What the router has become once a flood was followed. -/
theorem followFlood_canInstall_iff
    {r : Router} {p : Packet}
    (hLearnt : learntRoute p = [] ∨ r.CanInstall)
    (peer : PublicKey) :
    (if p.routeType = .flood then r.learnRouteFrom p peer
      else r).CanInstall ↔ r.CanInstall := by
  by_cases hFlood : p.routeType = .flood
  · have hBefore : r.CanInstall := by
      simpa [learntRoute, hFlood] using hLearnt
    rw [if_pos hFlood,
      (learnRouteFrom_routes r p peer).canInstall_iff]
    exact iff_of_true
      (.inr (installRoute_ne_nil r _ _)) hBefore
  · rw [if_neg hFlood]

theorem followFlood_cursorInside
    {r : Router}
    (hInside : r.CursorInside)
    (p : Packet)
    (peer : PublicKey) :
    (if p.routeType = .flood then r.learnRouteFrom p peer
      else r).CursorInside := by
  split
  · rcases learnRouteFrom_delivers r p peer with
      ⟨acts, hDoes, -⟩
    exact hDoes.cursorInside hInside
  · exact hInside

theorem receivedChecked_eq
    (D : Delegate δ)
    (p : Packet)
    (candidate : Contact)
    (plain : Bytes)
    {s : δ × Router}
    (hInside : s.2.CursorInside) :
    receivedChecked D p candidate plain s =
      if learntRoute p ++ returnedRoute p plain = [] ∨
          s.2.CanInstall then
        some (received D p candidate plain s)
      else none := by
  rcases s with ⟨d, r⟩
  simp only [receivedChecked, received,
    followFloodChecked_eq hInside]
  by_cases hLearnt : learntRoute p = [] ∨ r.CanInstall
  · have hNext := followFlood_cursorInside hInside p
      candidate.pk
    have hCan := followFlood_canInstall_iff hLearnt
      candidate.pk
    simp only [if_pos hLearnt, Option.bind_eq_bind,
      Option.bind_some]
    generalize (if p.routeType = .flood then
        r.learnRouteFrom p candidate.pk
      else r) = learnt at hNext hCan ⊢
    unfold returnedRoute
    by_cases hPath : p.payloadType = .path
    · simp only [if_pos hPath]
      cases decodePath plain with
      | none =>
          rw [if_pos (by simpa using hLearnt)]
      | some returned =>
          simp only [installRouteChecked_eq, hCan]
          by_cases hRoom : r.CanInstall
          · simp [hRoom]
          · simp [hRoom]
    · simp only [if_neg hPath, runChecked_eq _ hNext,
        Option.bind_some, List.append_nil, if_pos hLearnt]
      apply acknowledgeChecked_eq
      rcases run_does
          (D.onPayload d candidate p.payloadType plain)
          learnt with
        ⟨acts, hDoes, -⟩
      exact hDoes.cursorInside hNext
  · simp only [if_neg hLearnt, Option.bind_eq_bind,
      Option.bind_none]
    rw [if_neg]
    rintro (hNone | hCan)
    · exact hLearnt
        (.inl (List.append_eq_nil_iff.mp hNone).1)
    · exact hLearnt (.inr hCan)

------------------------------------------------------------
-- Frames That Need No Room
------------------------------------------------------------

/- The paths to enter, one after the other. -/
def pathsOf : Option (PublicKey × List Bytes) → List Bytes
| none => []
| some (_, paths) => paths

/- An event that makes the router install no route. -/
def Quiet (D : Delegate δ) (s : δ × Router) (e : Event δ) :
    Prop :=
  pathsOf (installsAt D s e) = []

/- A result, if there is room for what was heard. -/
def withRoomFor
    {α : Type}
    (r : Router)
    (heard : Option (PublicKey × List Bytes))
    (result : α) :
    Option α :=
  if pathsOf heard = [] ∨ r.CanInstall then some result
  else none

omit [CryptoCore] in
theorem withRoomFor_none
    {α : Type}
    (r : Router)
    (result : α) :
    r.withRoomFor none result = some result :=
  if_pos (.inl rfl)

omit [CryptoCore] in
theorem SameRoutes.withRoomFor_eq
    {α : Type}
    {r r' : Router}
    (hSame : r.SameRoutes r')
    (heard : Option (PublicKey × List Bytes))
    (result : α) :
    r'.withRoomFor heard result =
      r.withRoomFor heard result := by
  simp only [withRoomFor, hSame.canInstall_iff]

theorem tryCandidatesChecked_eq
    (D : Delegate δ)
    (p : Packet)
    (envelope : Envelope)
    (candidates : List Contact)
    (d : δ)
    {r : Router}
    (hInside : r.CursorInside) :
    tryCandidatesChecked D p envelope candidates (d, r) =
      r.withRoomFor
        ((identify envelope candidates r).1.map
          fun (candidate, plain) =>
            installsOf p (candidate.pk, plain))
        (tryCandidates D p envelope candidates (d, r)) := by
  induction candidates generalizing r with
  | nil => exact (withRoomFor_none r _).symm
  | cons candidate rest ih =>
      have hSame := secretFor_routes r candidate.pk
      have hNext :
          (r.secretFor candidate.pk).2.CursorInside :=
        hInside
      rw [← hSame.withRoomFor_eq]
      simp only [tryCandidatesChecked, tryCandidates,
        identify]
      generalize r.secretFor candidate.pk = asked at hNext ⊢
      cases asked.1.bind fun secret =>
          openCiphertext secret
            (copyInto _ envelope.cipherMac)
            envelope.ciphertext
            envelope.ciphertext.length with
      | none => exact ih hNext
      | some plain =>
          exact receivedChecked_eq D p candidate plain
            (s := (d, asked.2)) hNext

theorem deliverToSelfChecked_eq
    (D : Delegate δ)
    (p : Packet)
    {s : δ × Router}
    (hInside : s.2.CursorInside) :
    deliverToSelfChecked D p s =
      s.2.withRoomFor
        ((authenticatedSelf D p s).map (installsOf p))
        (deliverToSelf D p s) := by
  unfold deliverToSelfChecked deliverToSelf
    authenticatedSelf
  cases decodeEnvelope p.payload with
  | none => exact (withRoomFor_none s.2 _).symm
  | some envelope =>
      simp only
      by_cases hHash :
          envelope.destinationHash ≠ s.2.store.selfHash
      · rw [if_pos hHash, if_pos hHash, if_pos hHash]
        exact (withRoomFor_none s.2 _).symm
      · rw [if_neg hHash, if_neg hHash, if_neg hHash,
          Option.map_map]
        exact tryCandidatesChecked_eq D p envelope _ s.1
          hInside

omit [CryptoCore] in
theorem enterFloodChecked_eq
    (r : Router)
    {p : Packet}
    (hType : p.payloadType = .anonReq)
    (peer : PublicKey)
    (plain : Bytes) :
    r.enterFloodChecked p peer =
      r.withRoomFor (some (installsOf p (peer, plain)))
        (if p.routeType = .flood then
          r.installRoute peer
            (reversePath p.path maxPathSize)
        else r) := by
  have hReturned : returnedRoute p plain = [] := by
    rw [returnedRoute, if_neg (by simp [hType])]
  unfold enterFloodChecked withRoomFor
  simp only [pathsOf, installsOf, hReturned,
    List.append_nil, learntRoute]
  by_cases hFlood : p.routeType = .flood
  · simp [if_pos hFlood, installRouteChecked_eq]
  · simp [if_neg hFlood]

theorem deliverAnonChecked_eq
    (D : Delegate δ)
    {p : Packet}
    (hType : p.payloadType = .anonReq)
    {s : δ × Router}
    (hInside : s.2.CursorInside) :
    deliverAnonChecked D p s =
      s.2.withRoomFor
        ((authenticatedAnon p s.2).map (installsOf p))
        (deliverAnon D p s) := by
  unfold deliverAnonChecked deliverAnon authenticatedAnon
    openAnon
  cases decodeAnonReq p.payload with
  | none => exact (withRoomFor_none s.2 _).symm
  | some request =>
      simp only
      by_cases hHash :
          request.destinationHash ≠ s.2.store.selfHash
      · rw [if_pos hHash, if_pos hHash, if_pos hHash]
        exact (withRoomFor_none s.2 _).symm
      · rw [if_neg hHash, if_neg hHash, if_neg hHash]
        have hSame := secretFor_routes s.2
          (copyInto packetPublicKeySize request.publicKey)
        have hNext :
            (s.2.secretFor
              (copyInto packetPublicKeySize
                request.publicKey)).2.CursorInside :=
          hInside
        rw [← hSame.withRoomFor_eq]
        generalize s.2.secretFor
          (copyInto packetPublicKeySize request.publicKey) =
            asked at hNext ⊢
        cases asked.1.bind fun secret =>
            openCiphertext secret
              (copyInto _ request.cipherMac)
              request.ciphertext
              request.ciphertext.length with
        | none => exact (withRoomFor_none asked.2 _).symm
        | some plain =>
            have hEntered :
                (if p.routeType = .flood then
                  asked.2.installRoute
                    (copyInto packetPublicKeySize
                      request.publicKey)
                    (reversePath p.path maxPathSize)
                else asked.2).CursorInside := by
              split
              · exact (installRoute_does asked.2 _
                  _).cursorInside hNext
              · exact hNext
            simp only [enterFloodChecked_eq asked.2 hType _
              plain, Option.map_some]
            unfold withRoomFor
            split
            · exact runChecked_eq _ hEntered
            · rfl

theorem dispatchChecked_eq
    (D : Delegate δ)
    (p : Packet)
    {s : δ × Router}
    (hInside : s.2.CursorInside) :
    dispatchChecked D p s =
      s.2.withRoomFor
        ((authenticated D p s).map (installsOf p))
        (dispatch D p s) := by
  unfold dispatchChecked dispatch authenticated
  cases hType : p.payloadType with
  | ack =>
      exact (handleAckChecked_eq D p.payload s).trans
        (withRoomFor_none s.2 _).symm
  | anonReq => exact deliverAnonChecked_eq D hType hInside
  | advert => exact (withRoomFor_none s.2 _).symm
  | trace =>
      cases decodeTrace p.payload with
      | none => exact (withRoomFor_none s.2 _).symm
      | some trace =>
          exact (runChecked_eq _ hInside).trans
            (withRoomFor_none s.2 _).symm
  | grpTxt =>
      exact (runChecked_eq _ hInside).trans
        (withRoomFor_none s.2 _).symm
  | grpData =>
      exact (runChecked_eq _ hInside).trans
        (withRoomFor_none s.2 _).symm
  | _ => exact deliverToSelfChecked_eq D p hInside

/- A frame is all that can be short of room. -/
theorem onFrameChecked_eq
    (D : Delegate δ)
    (frame : Bytes)
    (rx : RxMeta)
    {s : δ × Router}
    (hInside : s.2.CursorInside) :
    onFrameChecked D frame rx s =
      s.2.withRoomFor (installsAt D s (.frame frame rx))
        (onFrame D frame rx s) := by
  simp only [onFrameChecked, onFrame, installsAt, heardFrom]
  cases hParse : parse frame with
  | none => exact (withRoomFor_none s.2 _).symm
  | some p =>
      simp only
      by_cases hSeen : s.2.alreadySeen frame = true
      · rw [if_pos hSeen, if_pos hSeen, if_pos hSeen]
        exact (withRoomFor_none s.2 _).symm
      · have hSelf :
            (s.2.takeIn frame).store.selfHash =
              s.2.store.selfHash :=
          rfl
        rw [if_neg hSeen, if_neg hSeen, if_neg hSeen,
          takeInChecked_eq hInside, Option.bind_eq_bind,
          Option.bind_some, hSelf]
        by_cases hEcho :
            isOwnEcho p s.2.store.selfHash = true
        · rw [if_pos hEcho, if_pos hEcho, if_pos hEcho]
          exact (withRoomFor_none s.2 _).symm
        · have hTaken : (s.2.takeIn frame).CursorInside :=
            cursorInside_writes hInside
              [{ shortHash := shortHashOf frame
                 stamp := s.2.now + 1 }]
          have hSame : s.2.SameRoutes (s.2.takeIn frame) :=
            ⟨rfl, rfl⟩
          rw [if_neg hEcho, if_neg hEcho, if_neg hEcho,
            dispatchChecked_eq D p
              (s := (s.1, s.2.takeIn frame)) hTaken,
            hSame.withRoomFor_eq, Option.map_map]
          unfold withRoomFor
          split
          next hRoom => exact (if_pos hRoom).symm
          next hRoom => exact (if_neg hRoom).symm

------------------------------------------------------------
-- The Loops Stay Inside
------------------------------------------------------------

/- The body of the loop over the queue never fails. -/
def drainTotal
    (entry : Delayed)
    (r : Router) :
    Option Delayed × Router :=
  if r.now < entry.notBefore then (some entry, r)
  else (none, r.handToRadio entry.frame entry.priority)

omit [CryptoCore] in
theorem drainBody_eq (entry : Delayed) (r : Router) :
    drainBody entry r = some (drainTotal entry r) := by
  unfold drainBody drainTotal
  split <;> rfl

omit [CryptoCore] in
/- What waits is left, and what is due is handed over. -/
theorem sweep_drainTotal
    (entries : List Delayed)
    (r : Router) :
    Vec.sweep drainTotal entries r =
      (entries.filter (r.now < ·.notBefore),
        { r with
          history :=
            r.history ++
              (entries.filter (·.notBefore ≤ r.now)).map
                handOver }) := by
  induction entries generalizing r with
  | nil => simp [Vec.sweep]
  | cons entry entries ih =>
      rw [Vec.sweep, drainTotal]
      by_cases hWaits : r.now < entry.notBefore
      · have hNotDue : ¬ entry.notBefore ≤ r.now :=
          UInt64.not_le.mpr hWaits
        simp [hWaits, hNotDue, ih r]
      · have hDue : entry.notBefore ≤ r.now :=
          UInt64.not_lt.mp hWaits
        simp [hWaits, hDue, ih, handToRadio, note, handOver]

omit [CryptoCore] in
theorem drainQueueChecked_eq (r : Router) :
    r.drainQueueChecked = some r.drainQueue := by
  have hLoop :=
    Vec.sweepFrom_eq drainBody_eq []
      (r.queue.insertionSort Delayed.before) r
      (Nat.le_refl _)
  rw [List.nil_append, List.length_nil, sweep_drainTotal]
    at hLoop
  rw [drainQueueChecked, hLoop, drainQueue_eq]
  rfl

/- The body of the loop over what is pending. -/
def retryTotal
    (D : Delegate δ)
    (entry : Pending)
    (s : δ × Router) :
    Option Pending × (δ × Router) :=
  let (d, r) := s
  if r.now < entry.deadline then (some entry, s)
  else if r.config.maxAttempts ≤ entry.attempts then
    (none,
      (D.onDeliveryFailed d entry.id,
        (r.forgetRoute entry.dest).note (.failed entry.id)))
  else
    (some
        { entry with
          attempts := entry.attempts + 1
          deadline :=
            r.now +
              (if entry.viaFlood then
                r.config.floodAckTimeout
              else r.config.directAckBase) },
      (d, r.handToRadio entry.frame .normal))

omit [CryptoCore] in
theorem retryBody_eq
    (D : Delegate δ)
    (entry : Pending)
    (s : δ × Router) :
    retryBody D entry s = some (retryTotal D entry s) := by
  unfold retryBody retryTotal
  simp only [forgetRouteChecked_eq]
  split
  · rfl
  · split <;> rfl

omit [CryptoCore] in
theorem sweep_retryTotal
    (D : Delegate δ)
    (entries : List Pending)
    (s : δ × Router) :
    Vec.sweep (retryTotal D) entries s =
      retryPending D entries s := by
  induction entries generalizing s with
  | nil => rfl
  | cons entry entries ih =>
      rcases s with ⟨d, r⟩
      simp only [Vec.sweep, retryPending, retryTotal]
      by_cases hWaits : r.now < entry.deadline
      · simp only [if_pos hWaits, ih]
      · by_cases hUsed :
            r.config.maxAttempts ≤ entry.attempts
        · simp only [if_neg hWaits, if_pos hUsed, ih]
        · simp only [if_neg hWaits, if_neg hUsed, ih]

omit [CryptoCore] in
/- Time alone asks for no room. -/
theorem tickChecked_eq
    (D : Delegate δ)
    (now : Millis)
    (s : δ × Router) :
    tickChecked D now s = some (tick D now s) := by
  simp only [tickChecked, tick, drainQueueChecked_eq,
    Option.bind_eq_bind, Option.bind_some]
  generalize drainQueue { s.2 with now := now } = r
  have hLoop :=
    Vec.sweepFrom_eq (retryBody_eq D) [] r.pending (s.1, r)
      (Nat.le_refl _)
  rw [List.nil_append, List.length_nil, List.nil_append,
    sweep_retryTotal] at hLoop
  rw [hLoop]
  rfl

theorem applyChecked_eq
    (D : Delegate δ)
    {s : δ × Router}
    (hInside : s.2.CursorInside)
    (e : Event δ) :
    applyChecked D s e =
      s.2.withRoomFor (installsAt D s e) (apply D s e) := by
  cases e with
  | frame frame rx => exact onFrameChecked_eq D frame rx hInside
  | tick now =>
      exact (tickChecked_eq D now s).trans
        (withRoomFor_none s.2 _).symm
  | above task =>
      exact (runChecked_eq (task s.1) hInside).trans
        (withRoomFor_none s.2 _).symm

------------------------------------------------------------
-- No More Routes Than There Is Room For
------------------------------------------------------------

omit [CryptoCore] in
theorem length_installRoute_le
    {r : Router}
    (hRoom : 0 < r.config.maxRoutes)
    (hFits : r.routes.length ≤ r.config.maxRoutes)
    (dest : PublicKey)
    (path : Bytes) :
    (r.installRoute dest path).routes.length ≤
      r.config.maxRoutes := by
  unfold installRoute
  split
  · rw [List.length_modify]
    exact hFits
  · simp only [List.length_append, List.length_singleton]
    split
    · rw [List.length_drop]
      omega
    · omega

theorem length_installHeard_le
    {r : Router}
    (hRoom : 0 < r.config.maxRoutes)
    (hFits : r.routes.length ≤ r.config.maxRoutes)
    (heard : Option (PublicKey × List Bytes)) :
    (r.installHeard heard).routes.length ≤
      r.config.maxRoutes := by
  have hAll :
      ∀ (peer : PublicKey) (paths : List Bytes) (r : Router),
        0 < r.config.maxRoutes →
        r.routes.length ≤ r.config.maxRoutes →
        (r.installAll peer paths).routes.length ≤
          r.config.maxRoutes := by
    intro peer paths
    induction paths with
    | nil => exact fun r _ hFits => hFits
    | cons path paths ih =>
        intro r hRoom hFits
        have hSame :
            (r.installRoute peer path).config = r.config :=
          (installRoute_does r peer path).config
        have hNext :=
          length_installRoute_le hRoom hFits peer path
        have hRest := ih (r.installRoute peer path)
        rw [hSame] at hRest
        exact hRest hRoom hNext
  cases heard with
  | none => exact hFits
  | some heard => exact hAll heard.1 heard.2 r hRoom hFits

theorem apply_config
    (D : Delegate δ)
    (s : δ × Router)
    (e : Event δ) :
    (apply D s e).2.config = s.2.config := by
  rcases apply_does (D := D) e s with ⟨acts, hDoes⟩
  exact hDoes.config

theorem apply_length_routes_le
    {D : Delegate δ} {s : δ × Router}
    (hRoom : 0 < s.2.config.maxRoutes)
    (hFits : s.2.routes.length ≤ s.2.config.maxRoutes)
    (e : Event δ) :
    (apply D s e).2.routes.length ≤
      s.2.config.maxRoutes := by
  cases e with
  | frame frame rx =>
      rw [apply, (onFrame_routes frame rx s).routes]
      exact length_installHeard_le hRoom hFits _
  | tick now => exact (tick_routes now s).length_le.trans hFits
  | above task =>
      rw [apply, (run_routes _ s.2).routes]
      exact hFits

------------------------------------------------------------
-- No More Pending Than There Is Room For
------------------------------------------------------------

def PendingFits (r : Router) : Prop :=
  r.pending.length ≤ r.config.maxPending

theorem Calm.pendingFits
    {r r' : Router}
    (hCalm : r.Calm r')
    (hFits : r.PendingFits) :
    r'.PendingFits := by
  rw [PendingFits, hCalm.pending, hCalm.config]
  exact hFits

omit [CryptoCore] in
/- An entry is kept where there is room for it. -/
theorem PendingFits.keepPending
    {r : Router}
    (hFits : r.PendingFits)
    (wantAck : Bool)
    (entry : Pending) :
    (r.keepPending wantAck entry).PendingFits := by
  unfold Router.keepPending PendingFits
  split
  next hKept =>
    rw [List.length_append, List.length_singleton]
    exact hKept.2
  next => exact hFits

theorem PendingFits.sender
    {r : Router}
    (hFits : r.PendingFits)
    (op : SenderOp) :
    (sender op r).2.PendingFits := by
  cases op with
  | sendDirect dest type payload wantAck =>
      have hAsked :
          ((r.issueId dest type payload wantAck).2.secretFor
            dest).2.PendingFits :=
        hFits
      simp only [Router.sender, sendDirect]
      split
      · exact hAsked
      · exact (transmitNow_calm _ _ _).pendingFits
          (hAsked.keepPending wantAck _)
  | sendAck dest value extra =>
      exact (transmitNow_calm r _ _).pendingFits hFits
  | sendFlood type payload =>
      exact (transmitNow_calm r _ _).pendingFits hFits
  | randomBytes n => exact hFits
  | store => exact hFits

theorem PendingFits.run
    {r : Router}
    (hFits : r.PendingFits)
    {α : Type}
    (task : SenderM α) :
    (task.run Router.sender r).2.PendingFits :=
  Program.run_invariant
    (fun op _ hFits => hFits.sender op) task hFits

theorem PendingFits.told
    {D : Delegate δ} {d : δ} {t : Option Upcall × Router}
    (hFits : t.2.PendingFits) :
    (told D d t).2.PendingFits := by
  rcases t with ⟨none | u, r⟩
  · exact hFits
  · cases u with
    | payload contact type plain =>
        have hAnswered :=
          hFits.run (D.onPayload d contact type plain)
        simp only [Router.told, answer, acknowledge]
        split
        · exact (transmitNow_calm _ _ _).pendingFits hAnswered
        · exact hAnswered
    | anon peer plain => exact hFits.run _
    | group type payload => exact hFits.run _
    | trace trace path => exact hFits.run _
    | acked entry =>
        exact (List.length_eraseP_le).trans hFits

theorem PendingFits.onFrame
    {D : Delegate δ} {s : δ × Router}
    (hFits : s.2.PendingFits)
    (frame : Bytes)
    (rx : RxMeta) :
    (onFrame D frame rx s).2.PendingFits := by
  have hTaken : (s.2.takeIn frame).PendingFits := hFits
  rcases onFrame_cases (D := D) frame rx s with
    ⟨hSame, -⟩ |
      ⟨-, ⟨hSame, -⟩ | ⟨p, r, -, hUpcall, hSame⟩⟩
  · rw [hSame]
    exact hFits
  · rw [hSame]
    exact hTaken
  · have hHeard :=
      (upcall_calm (D := D) p
        (s.1, s.2.takeIn frame)).pendingFits hTaken
    rw [hUpcall] at hHeard
    rw [hSame]
    exact (considerForwarding_calm p rx _).pendingFits
      hHeard.told

omit [CryptoCore] in
/- The walk over what is pending enters nothing. -/
theorem length_retryPending_le
    (D : Delegate δ)
    (entries : List Pending)
    (s : δ × Router) :
    (retryPending D entries s).1.length ≤
      entries.length := by
  induction entries generalizing s with
  | nil => exact Nat.le_refl 0
  | cons entry entries ih =>
      rcases s with ⟨d, r⟩
      unfold retryPending
      split
      · exact Nat.succ_le_succ (ih _)
      · split
        · exact Nat.le_succ_of_le (ih _)
        · exact Nat.succ_le_succ (ih _)

theorem PendingFits.tick
    {D : Delegate δ} {s : δ × Router}
    (hFits : s.2.PendingFits)
    (now : Millis) :
    (tick D now s).2.PendingFits := by
  have hConfig := apply_config D s (.tick now)
  have hDrained :
      (drainQueue { s.2 with now := now }).pending =
        s.2.pending := by
    rw [drainQueue_eq]
  have hLess :
      (Router.tick D now s).2.pending.length ≤
        (drainQueue
          { s.2 with now := now }).pending.length :=
    length_retryPending_le D _ _
  rw [hDrained] at hLess
  rw [Router.apply] at hConfig
  rw [PendingFits, hConfig]
  exact hLess.trans hFits

theorem PendingFits.apply
    {D : Delegate δ} {s : δ × Router}
    (hFits : s.2.PendingFits)
    (e : Event δ) :
    (apply D s e).2.PendingFits := by
  cases e with
  | frame frame rx => exact hFits.onFrame frame rx
  | tick now => exact hFits.tick now
  | above task => exact hFits.run (task s.1)

------------------------------------------------------------
-- Bounds Of A Run
------------------------------------------------------------

/- The tables as a configuration bounds them. -/
structure InBounds (config : RouterConfig) (r : Router) :
    Prop where
  config_eq : r.config = config
  routes_keyed : r.RoutesKeyed
  routes_length :
    0 < config.maxRoutes →
      r.routes.length ≤ config.maxRoutes
  pending_length : r.pending.length ≤ config.maxPending
  slots_pos : 0 < r.seen.slots.length
  cursor_inside : r.CursorInside

omit [CryptoCore] in
/- Without seen slots there is one all the same. -/
theorem inBounds_create
    (store : Store)
    (entropy : Entropy)
    (config : RouterConfig) :
    InBounds config (create store entropy config) where
  config_eq := rfl
  routes_keyed := List.nodup_nil
  routes_length := fun _ => Nat.zero_le _
  pending_length := Nat.zero_le _
  slots_pos := by
    simpa [create, RingBuffer.blank] using
      slotCount_pos config
  cursor_inside := by
    simpa [CursorInside, create, RingBuffer.blank] using
      slotCount_pos config

theorem InBounds.apply
    {D : Delegate δ} {config : RouterConfig}
    {s : δ × Router}
    (hBounds : InBounds config s.2)
    (e : Event δ) :
    InBounds config (apply D s e).2 := by
  rcases hBounds with
    ⟨rfl, hKeyed, hLength, hPending, -, hInside⟩
  have hConfig := apply_config D s e
  have hNext : (Router.apply D s e).2.CursorInside := by
    rcases apply_does (D := D) e s with ⟨acts, hDoes⟩
    exact hDoes.cursorInside hInside
  have hFits := PendingFits.apply (D := D) hPending e
  rw [PendingFits, hConfig] at hFits
  exact
    { config_eq := hConfig
      routes_keyed := apply_routesKeyed hKeyed e
      routes_length := fun hRoom =>
        apply_length_routes_le hRoom (hLength hRoom) e
      pending_length := hFits
      slots_pos := Nat.zero_lt_of_lt hNext
      cursor_inside := hNext }

/-
  The accesses of a run are all inside: it has a result, and
  the tables it leaves keep their bounds.
-/
def StaysInBounds
    (D : Delegate δ)
    (config : RouterConfig)
    (s : δ × Router)
    (es : List (Event δ)) :
    Prop :=
  ∃ s', es.foldlM (applyChecked D) s = some s' ∧
    InBounds config s'.2

/- Where routes can be kept, every run stays inside. -/
theorem staysInBounds_of_room
    {D : Delegate δ} {config : RouterConfig}
    (hRoom : 0 < config.maxRoutes)
    {s : δ × Router}
    (hBounds : InBounds config s.2)
    (es : List (Event δ)) :
    StaysInBounds D config s es := by
  induction es generalizing s with
  | nil => exact ⟨s, rfl, hBounds⟩
  | cons e es ih =>
      have hCan : s.2.CanInstall := by
        rw [CanInstall, hBounds.config_eq]
        exact .inl hRoom
      rcases ih (hBounds.apply e) with ⟨s', hRest, hAfter⟩
      refine ⟨s', ?_, hAfter⟩
      rw [List.foldlM_cons,
        applyChecked_eq D hBounds.cursor_inside,
        withRoomFor, if_pos (.inr hCan)]
      exact hRest

/- What installs nothing leaves no route where none was. -/
theorem Quiet.routes_eq_nil
    {D : Delegate δ} {s : δ × Router} {e : Event δ}
    (hQuiet : Quiet D s e)
    (hNone : s.2.routes = []) :
    (Router.apply D s e).2.routes = [] := by
  cases e with
  | frame frame rx =>
      rw [Router.apply, (onFrame_routes frame rx s).routes]
      unfold Quiet at hQuiet
      cases hHeard : installsAt D s (.frame frame rx) with
      | none => exact hNone
      | some heard =>
          rw [hHeard] at hQuiet
          have hPaths : heard.2 = [] := hQuiet
          rw [installHeard, hPaths]
          exact hNone
  | tick now =>
      have hLess := tick_routes (D := D) now s
      rw [hNone] at hLess
      exact List.sublist_nil.mp hLess
  | above task =>
      rw [Router.apply, (run_routes _ s.2).routes]
      exact hNone

/-
  Without room a run stays inside for as long as nothing is
  installed, and then there is no route to make way.
-/
theorem staysInBounds_iff_quiet
    {D : Delegate δ} {config : RouterConfig}
    (hNoRoom : config.maxRoutes = 0)
    {s : δ × Router}
    (hBounds : InBounds config s.2)
    (hNone : s.2.routes = [])
    (es : List (Event δ)) :
    StaysInBounds D config s es ↔
      ∀ t ∈ replay (apply D) s es,
        Quiet D t.before t.event := by
  induction es generalizing s with
  | nil =>
      refine iff_of_true ⟨s, rfl, hBounds⟩ ?_
      simp [replay]
  | cons e es ih =>
      have hCannot : ¬ s.2.CanInstall := by
        simp [CanInstall, hBounds.config_eq, hNoRoom, hNone]
      have hStep := applyChecked_eq D hBounds.cursor_inside e
      rw [withRoomFor] at hStep
      simp only [replay, List.forall_mem_cons]
      by_cases hQuiet : Quiet D s e
      · have hRest :=
          ih (hBounds.apply e) (hQuiet.routes_eq_nil hNone)
        rw [if_pos (.inl hQuiet)] at hStep
        rw [← hRest, StaysInBounds, List.foldlM_cons, hStep]
        exact (and_iff_right hQuiet).symm
      · have hShort :
            ¬ (pathsOf (installsAt D s e) = [] ∨
              s.2.CanInstall) :=
          not_or.mpr ⟨hQuiet, hCannot⟩
        rw [if_neg hShort] at hStep
        refine iff_of_false ?_ fun hAll => hQuiet hAll.1
        rintro ⟨s', hRun, -⟩
        rw [List.foldlM_cons, hStep] at hRun
        contradiction

/-
  Every run from a new router keeps its tables in bounds, in
  every state, exactly if the configuration leaves room for
  a route or no frame of the run makes the router install
  one.
-/
theorem tables_stay_in_bounds_iff
    (D : Delegate δ)
    (store : Store)
    (entropy : Entropy)
    (config : RouterConfig)
    (d : δ)
    (es : List (Event δ)) :
    (∀ past, past <+: es →
      StaysInBounds D config (d, create store entropy config)
        past) ↔
      0 < config.maxRoutes ∨
        ∀ t ∈
            replay (apply D)
              (d, create store entropy config) es,
          Quiet D t.before t.event := by
  have hBounds := inBounds_create store entropy config
  rcases Nat.eq_zero_or_pos config.maxRoutes with
    hNoRoom | hRoom
  · have hQuiet := fun es =>
      staysInBounds_iff_quiet (D := D) hNoRoom
        (s := (d, create store entropy config)) hBounds rfl es
    rw [hNoRoom, or_iff_right (Nat.lt_irrefl 0)]
    constructor
    · intro hAll
      exact (hQuiet es).mp (hAll es List.prefix_rfl)
    · rintro hAll past ⟨rest, rfl⟩
      apply (hQuiet past).mpr
      intro t hMem
      apply hAll t
      rw [replay_append]
      exact List.mem_append_left _ hMem
  · refine iff_of_true ?_ (.inl hRoom)
    intro past _
    exact staysInBounds_of_room hRoom
      (s := (d, create store entropy config)) hBounds past

end Bounds

section Example

open Sample

/- A table for no routes at all. -/
def noRoom : RouterConfig :=
  { maxRoutes := 0 }

theorem login_without_room_faults :
    onFrameChecked .carrier (floodedLoginFrame 1 2 [11, 12])
        {} ((), ofByte 2 noRoom) =
      none := by
  decide +kernel

/-
  The first flood that is opened erases the first route of
  an empty table.
-/
theorem no_room_erases_from_nothing :
    (ofByte 2 noRoom).routes = [] ∧
      ¬ StaysInBounds .carrier noRoom ((), ofByte 2 noRoom)
        [.frame (floodedLoginFrame 1 2 [11, 12]) {}] := by
  refine ⟨rfl, ?_⟩
  rintro ⟨s', hRun, -⟩
  rw [List.foldlM_cons, applyChecked,
    login_without_room_faults] at hRun
  contradiction

end Example

end Router

end MeshCore
