import MeshCore.Library.Ring
import MeshCore.Crypto.Protocol
import MeshCore.Routing.Interface

/-
  The router: deduplication, flood and direct forwarding,
  learned routes, acknowledgements and retries.

  Time arrives through `tick`. The radio is what the router
  hands frames to; those frames are the `handed` entries of
  the router's history. The other entries of the history
  record what the router did on the way. No function of the
  router reads the history. Telemetry, which is never read
  back either, is left out.

  Key definitions include:
    * `Router`
    * `Router.onFrame`
    * `Router.tick`
    * `Router.sendDirect`
    * `Router.sender`
-/

namespace MeshCore

------------------------------------------------------------
-- State
------------------------------------------------------------

structure RxMeta where
  airtime : Millis := 0
  snr : Int16 := 0
deriving DecidableEq

inductive Priority where
| high
| normal
| low
deriving DecidableEq, Repr

def Priority.rank : Priority → Nat
| .high => 0
| .normal => 1
| .low => 2

structure RouterConfig where
  floodAckTimeout : Millis := 12000
  directAckBase : Millis := 4000
  directAckPerHop : Millis := 2000
  maxAttempts : UInt8 := 3
  forwardAirtimeFactor : UInt32 := 2
  forwardJitter : Millis := 400
  maxPending : Nat := 32
  maxRoutes : Nat := 128
  seenSlots : Nat := 128
  seenTtl : Millis := 300000
deriving DecidableEq

structure Delayed where
  notBefore : Millis
  priority : Priority
  frame : Bytes
deriving DecidableEq

structure Pending where
  id : SendId
  expectedAck : UInt32
  deadline : Millis
  attempts : UInt8
  viaFlood : Bool
  dest : PublicKey
  frame : Bytes
deriving DecidableEq

structure Route where
  dest : PublicKey
  path : Bytes
deriving DecidableEq

/- A slot of the duplicate cache; zero is a free slot. -/
structure Seen where
  shortHash : UInt32 := 0
  stamp : Millis := 0
deriving DecidableEq

/- What a router does, as its history records it. -/
inductive Act where
| sent
    (id : SendId)
    (dest : PublicKey)
    (type : PayloadType)
    (payload : Bytes)
    (wantAck : Bool)
| originated (frame : Bytes) (time : Millis)
| received (frame : Bytes) (time : Millis)
| queued (frame : Bytes)
| handed (frame : Bytes) (priority : Priority)
| acked (id : SendId)
| failed (id : SendId)
deriving DecidableEq

structure Router where
  store : Store
  entropy : Entropy
  config : RouterConfig
  now : Millis := 0
  nextId : SendId := 1
  seen : RingBuffer Seen
  queue : List Delayed := []
  pending : List Pending := []
  routes : List Route := []
  history : List Act := []

namespace Router

/- One slot at least: a cache of nothing stops nothing. -/
def slotCount (config : RouterConfig) : Nat :=
  if config.seenSlots = 0 then 1 else config.seenSlots

theorem slotCount_pos (config : RouterConfig) :
    0 < slotCount config := by
  unfold slotCount
  split <;> omega

def create
    (store : Store)
    (entropy : Entropy)
    (config : RouterConfig) :
    Router :=
  { store := store
    entropy := entropy
    config := config
    seen := .blank (slotCount config) {} }

/- A new router with the key `n` and no luck in its draws. -/
def ofByte
    (n : UInt8)
    (config : RouterConfig := {}) :
    Router :=
  create (Store.ofByte n) { byte := fun _ => 0 } config

def note (r : Router) (act : Act) : Router :=
  { r with history := r.history ++ [act] }

variable [CryptoCore]

/- The store's secret for a peer, through its cache. -/
def secretFor
    (r : Router)
    (pk : PublicKey) :
    Option SharedSecret × Router :=
  let (secret, store) := r.store.secretFor pk
  (secret, { r with store := store })

------------------------------------------------------------
-- Deduplication
------------------------------------------------------------

def shortHashOf (frame : Bytes) : UInt32 :=
  readUint32 (packetHash frame).toList 0

/-
  The scan decides on the first used slot that holds the
  hash. Stamps are one past the clock.
-/
def alreadySeen (r : Router) (frame : Bytes) : Bool :=
  match
    r.seen.slots.find? fun entry =>
      entry.stamp ≠ 0 ∧ entry.shortHash = shortHashOf frame
  with
  | none => false
  | some entry =>
      ¬ (r.config.seenTtl ≠ 0 ∧
        r.config.seenTtl ≤ (r.now + 1) - entry.stamp)

def rememberSeen (r : Router) (frame : Bytes) : Router :=
  { r with
    seen :=
      r.seen.write
        { shortHash := shortHashOf frame
          stamp := r.now + 1 } }

------------------------------------------------------------
-- Queueing
------------------------------------------------------------

def jitter (r : Router) : Millis × Router :=
  if r.config.forwardJitter = 0 then (0, r)
  else
    let (raw, entropy) := r.entropy.take 4
    ((readUint32 raw 0).toUInt64 % r.config.forwardJitter,
      { r with entropy := entropy })

def queueFrame
    (r : Router)
    (frame : Bytes)
    (notBefore : Millis)
    (priority : Priority) :
    Router :=
  note
    { r with
      queue :=
        r.queue ++
          [{ notBefore := notBefore
             priority := priority
             frame := frame }] }
    (.queued frame)

def handToRadio
    (r : Router)
    (frame : Bytes)
    (priority : Priority) :
    Router :=
  r.note (.handed frame priority)

/-
  Our own frames enter the cache before they leave, or the
  first neighbour hands our flood straight back.
-/
def transmitNow
    (r : Router)
    (frame : Bytes)
    (priority : Priority) :
    Router :=
  ((r.rememberSeen frame).note
    (.originated frame r.now)).handToRadio frame priority

------------------------------------------------------------
-- Routes
------------------------------------------------------------

def findRoute (r : Router) (dest : PublicKey) : Option Route :=
  r.routes.find? (·.dest == dest)

def hasRoute (r : Router) (dest : PublicKey) : Bool :=
  (r.findRoute dest).isSome

def forgetRoute (r : Router) (dest : PublicKey) : Router :=
  { r with
    routes := r.routes.eraseP (·.dest == dest) }

/- The way back is the path the other way round. -/
def reversePath (forward : Bytes) (capacity : Nat) : Bytes :=
  if capacity < forward.length then [] else forward.reverse

/- Replace the route of a key, or enter it as the newest. -/
def installRoute
    (r : Router)
    (dest : PublicKey)
    (path : Bytes) :
    Router :=
  match r.routes.findIdx? (·.dest == dest) with
  | some row =>
      { r with
        routes :=
          r.routes.modify row fun route =>
            { route with path := path } }
  | none =>
      let kept :=
        if r.config.maxRoutes ≤ r.routes.length then
          r.routes.drop 1
        else r.routes
      { r with
        routes := kept ++ [{ dest := dest, path := path }] }

------------------------------------------------------------
-- Framing
------------------------------------------------------------

def buildFrame
    (type : PayloadType)
    (payload : Bytes)
    (route : Option Route) :
    Bytes :=
  let path := (route.map (·.path)).getD []
  let p : Packet :=
    { header :=
        headerOf type
          (if route.isSome then .direct else .flood)
      hashSize := UInt8.ofNat nodeHashSize
      hopCount := UInt8.ofNat path.length
      path := path
      payload := payload.take maxPacketPayload }
  (serialize p maxPacketFrame).getD []

/- Seal a plaintext and put it in an addressed envelope. -/
def envelopeFor
    (selfHash : UInt8)
    (secret : SharedSecret)
    (dest : PublicKey)
    (plaintext : Bytes) :
    Option Bytes :=
  match
    sealPlaintext secret plaintext maxPacketPayload
  with
  | none => none
  | some sealing =>
      encodeEnvelope
        { destinationHash := PublicKey.hash dest
          sourceHash := selfHash
          cipherMac := sealing.mac.toList
          ciphertext := sealing.ciphertext }
        maxPacketPayload

------------------------------------------------------------
-- Sending
------------------------------------------------------------

def ackDeadline (r : Router) (route : Option Route) : Millis :=
  match route with
  | none => r.now + r.config.floodAckTimeout
  | some route =>
      r.now +
        (r.config.directAckBase +
          r.config.directAckPerHop *
            UInt64.ofNat route.path.length)

/- Take the next id. -/
def issueId
    (r : Router)
    (dest : PublicKey)
    (type : PayloadType)
    (payload : Bytes)
    (wantAck : Bool) :
    SendId × Router :=
  (r.nextId,
    note { r with nextId := r.nextId + 1 }
      (.sent r.nextId dest type payload wantAck))

/- Keep what awaits an acknowledgement, if there is room. -/
def keepPending
    (r : Router)
    (wantAck : Bool)
    (entry : Pending) :
    Router :=
  if wantAck ∧ r.pending.length < r.config.maxPending then
    { r with pending := r.pending ++ [entry] }
  else r

/-
  Every way out returns the id, also those that sent
  nothing and those that kept no pending entry.
-/
def sendDirect
    (r : Router)
    (dest : PublicKey)
    (type : PayloadType)
    (payload : Bytes)
    (wantAck : Bool) :
    SendId × Router :=
  let (id, r) := r.issueId dest type payload wantAck
  let (secret, r) := r.secretFor dest
  match
    secret.bind fun secret =>
      envelopeFor r.store.selfHash secret dest payload
  with
  | none => (id, r)
  | some wire =>
      let route := r.findRoute dest
      let frame := buildFrame type wire route
      let r :=
        r.keepPending wantAck
          { id := id
            expectedAck :=
              expectedAck payload r.store.selfPk
            deadline := r.ackDeadline route
            attempts := 1
            viaFlood := route.isNone
            dest := dest
            frame := frame }
      (id, r.transmitNow frame .normal)

def sendFlood
    (r : Router)
    (type : PayloadType)
    (payload : Bytes) :
    Router :=
  r.transmitNow (buildFrame type payload none) .normal

def sendAck
    (r : Router)
    (dest : PublicKey)
    (value : UInt32)
    (extra : Bytes) :
    Router :=
  r.transmitNow
    (buildFrame .ack (writeUint32 value ++ extra)
      (r.findRoute dest))
    .high

/- What the layer above asks for, done by this router. -/
def sender : Program.Handler SenderOp SenderOp.Ans Router
| .sendDirect dest type payload wantAck, r =>
    r.sendDirect dest type payload wantAck
| .sendAck dest value extra, r =>
    ((), r.sendAck dest value extra)
| .sendFlood type payload, r =>
    ((), r.sendFlood type payload)
| .randomBytes n, r =>
    let (bytes, entropy) := r.entropy.take n
    (bytes, { r with entropy := entropy })
| .store, r => (r.store, r)

section Running

variable {α : Type}

theorem run_sendDirect
    (dest : PublicKey)
    (type : PayloadType)
    (payload : Bytes)
    (wantAck : Bool)
    (f : SendId → SenderM α)
    (r : Router) :
    (MeshCore.sendDirect dest type payload wantAck >>=
        f).run sender r =
      (f (r.sendDirect dest type payload wantAck).1).run
        sender
        (r.sendDirect dest type payload wantAck).2 :=
  rfl

theorem run_sendFlood
    (type : PayloadType)
    (payload : Bytes)
    (f : Unit → SenderM α)
    (r : Router) :
    (MeshCore.sendFlood type payload >>= f).run sender r =
      (f ()).run sender (r.sendFlood type payload) :=
  rfl

theorem run_readStore
    (f : Store → SenderM α)
    (r : Router) :
    (readStore >>= f).run sender r =
      (f r.store).run sender r :=
  rfl

end Running

------------------------------------------------------------
-- Receiving
------------------------------------------------------------

variable {δ : Type}

/- The route back to a peer, so that it can stop flooding. -/
def sendPathReturn
    (r : Router)
    (dest : PublicKey)
    (forward : Bytes) :
    Router :=
  let (secret, r) := r.secretFor dest
  match
    secret.bind fun secret =>
      (encodePath
        { path := forward, extraType := 0, extra := [] }
        maxPacketPayload).bind fun plain =>
          envelopeFor r.store.selfHash secret dest plain
  with
  | none => r
  | some payload =>
      r.transmitNow
        (buildFrame .path payload (r.findRoute dest))
        .high

def learnRouteFrom
    (r : Router)
    (p : Packet)
    (peer : PublicKey) :
    Router :=
  -- we keep the reversed path, and the peer is given the
  -- one it recorded
  (r.installRoute peer
    (reversePath p.path maxPathSize)).sendPathReturn
      peer p.path

/- The first pending entry that awaits the number is done. -/
def handleAck
    (D : Delegate δ)
    (payload : Bytes)
    (s : δ × Router) :
    δ × Router :=
  let (d, r) := s
  if payload.length < 4 then s
  else
    let value := readUint32 payload 0
    match r.pending.find? (·.expectedAck == value) with
    | none => s
    | some entry =>
        (D.onAck d entry.id,
          note
            { r with
              pending :=
                r.pending.eraseP (·.expectedAck == value) }
            (.acked entry.id))

/- The delegate decides what is owed an acknowledgement. -/
def acknowledge
    (D : Delegate δ)
    (type : PayloadType)
    (peer : PublicKey)
    (plain : Bytes)
    (s : δ × Router) :
    δ × Router :=
  if D.shouldAck s.1 type plain then
    (s.1, s.2.sendAck peer (expectedAck plain peer) [])
  else s

/- What follows once a candidate's secret opened it. -/
def received
    (D : Delegate δ)
    (p : Packet)
    (candidate : Contact)
    (plain : Bytes)
    (s : δ × Router) :
    δ × Router :=
  let (d, r) := s
  let r :=
    if p.routeType = .flood then
      r.learnRouteFrom p candidate.pk
    else r
  if p.payloadType = .path then
    match decodePath plain with
    | none => (d, r)
    | some returned =>
        (d, r.installRoute candidate.pk returned.path)
  else
    acknowledge D p.payloadType candidate.pk plain
      ((D.onPayload d candidate p.payloadType plain).run
        sender r)

/-
  One byte of source hash is ambiguous: every candidate is
  tried, and the first whose code checks out is the sender.
-/
def tryCandidates
    (D : Delegate δ)
    (p : Packet)
    (envelope : Envelope) :
    List Contact → δ × Router → δ × Router
| [], s => s
| candidate :: rest, (d, r) =>
    let (secret, r) := r.secretFor candidate.pk
    match
      secret.bind fun secret =>
        openCiphertext secret
          (copyInto _ envelope.cipherMac)
          envelope.ciphertext envelope.ciphertext.length
    with
    | none => tryCandidates D p envelope rest (d, r)
    | some plain => received D p candidate plain (d, r)

/- Who could have stamped an envelope with this hash. -/
def candidatesFor
    (D : Delegate δ)
    (s : δ × Router)
    (hash : UInt8) :
    List Contact :=
  s.2.store.findByHash hash ++
    ((D.keysMatching s.1 hash maxLoggedInCandidates).take
      maxLoggedInCandidates).map Contact.bare

def deliverToSelf
    (D : Delegate δ)
    (p : Packet)
    (s : δ × Router) :
    δ × Router :=
  match decodeEnvelope p.payload with
  | none => s
  | some envelope =>
      if envelope.destinationHash ≠ s.2.store.selfHash then
        s
      else
        tryCandidates D p envelope
          (candidatesFor D s envelope.sourceHash) s

/- A login carries the whole key it is encrypted to. -/
def deliverAnon
    (D : Delegate δ)
    (p : Packet)
    (s : δ × Router) :
    δ × Router :=
  match decodeAnonReq p.payload with
  | none => s
  | some request =>
      if request.destinationHash ≠ s.2.store.selfHash then
        s
      else
        let peer : PublicKey :=
          copyInto _ request.publicKey
        let (secret, r) := s.2.secretFor peer
        match
          secret.bind fun secret =>
            openCiphertext secret
              (copyInto _ request.cipherMac)
              request.ciphertext request.ciphertext.length
        with
        | none => (s.1, r)
        | some plain =>
            let r :=
              if p.routeType = .flood then
                r.installRoute peer
                  (reversePath p.path maxPathSize)
              else r
            (D.onAnon s.1 peer plain).run sender r

/- Dispatch on the payload type, never on what parses. -/
def dispatch
    (D : Delegate δ)
    (p : Packet)
    (s : δ × Router) :
    δ × Router :=
  match p.payloadType with
  | .ack => handleAck D p.payload s
  | .anonReq => deliverAnon D p s
  | .advert => s
  | .trace =>
      match decodeTrace p.payload with
      | none => s
      | some trace =>
          (D.onTrace s.1 trace p.path).run sender s.2
  | .grpTxt =>
      (D.onGroup s.1 p.payloadType p.payload).run sender s.2
  | .grpData =>
      (D.onGroup s.1 p.payloadType p.payload).run sender s.2
  | _ => deliverToSelf D p s

/-
  The packet as it travels on: ourselves written into a
  flood's path or dropped from a direct one's, and a reading
  added to a trace.
-/
def transitCopy
    (p : Packet)
    (selfHash : UInt8)
    (snr : Int16) :
    Option Packet :=
  (if p.routeType.isFlood then appendSelf p selfHash
    else stripSelf p selfHash).bind fun copy =>
      if copy.payloadType = .trace then
        appendTraceHop copy (snr * 4)
      else some copy

def considerForwarding
    (D : Delegate δ)
    (p : Packet)
    (rx : RxMeta)
    (s : δ × Router) :
    δ × Router :=
  let (carry, d) := D.shouldForward s.1 p
  let r := s.2
  if carry then
    match
      (transitCopy p r.store.selfHash rx.snr).bind
        (serialize · maxPacketFrame)
    with
    | none => (d, r)
    | some frame =>
        let (spread, r) := r.jitter
        let delay :=
          rx.airtime * r.config.forwardAirtimeFactor.toUInt64
            + spread
        (d, r.queueFrame frame (r.now + delay) .low)
  else (d, r)

/- Our own flood coming back: it carries our hash. -/
def isOwnEcho (p : Packet) (selfHash : UInt8) : Bool :=
  p.routeType.isFlood ∧ selfHash ∈ p.path

/- A frame that is new here is remembered first. -/
def takeIn (r : Router) (frame : Bytes) : Router :=
  (r.rememberSeen frame).note (.received frame r.now)

/- The only entry point from the radio. -/
def onFrame
    (D : Delegate δ)
    (frame : Bytes)
    (rx : RxMeta)
    (s : δ × Router) :
    δ × Router :=
  match parse frame with
  | none => s
  | some p =>
      if s.2.alreadySeen frame then s
      else
        let r := s.2.takeIn frame
        if isOwnEcho p r.store.selfHash then (s.1, r)
        else
          -- a packet for us still travels on: never an else
          considerForwarding D p rx (dispatch D p (s.1, r))

------------------------------------------------------------
-- Time
------------------------------------------------------------

/- Highest priority first, then whatever waited longest. -/
def Delayed.before (a b : Delayed) : Prop :=
  if a.priority ≠ b.priority then
    a.priority.rank < b.priority.rank
  else a.notBefore ≤ b.notBefore

instance : DecidableRel Delayed.before := fun a b => by
  unfold Delayed.before
  infer_instance

/- Hand over what is due, in the order of the queue. -/
def drainQueue (r : Router) : Router :=
  let sorted := r.queue.insertionSort Delayed.before
  let due := sorted.filter (·.notBefore ≤ r.now)
  let waiting := sorted.filter (r.now < ·.notBefore)
  due.foldl
    (fun r entry => r.handToRadio entry.frame entry.priority)
    { r with queue := waiting }

/-
  Walk the pending table: an entry past its deadline is sent
  again, or given up when its attempts are used.
-/
def retryPending
    (D : Delegate δ) :
    List Pending → δ × Router → List Pending × (δ × Router)
| [], s => ([], s)
| entry :: rest, (d, r) =>
    if r.now < entry.deadline then
      let (kept, s) := retryPending D rest (d, r)
      (entry :: kept, s)
    else if r.config.maxAttempts ≤ entry.attempts then
      retryPending D rest
        (D.onDeliveryFailed d entry.id,
          (r.forgetRoute entry.dest).note (.failed entry.id))
    else
      let entry :=
        { entry with
          attempts := entry.attempts + 1
          deadline :=
            r.now +
              (if entry.viaFlood then
                r.config.floodAckTimeout
              else r.config.directAckBase) }
      let (kept, s) :=
        retryPending D rest
          (d, r.handToRadio entry.frame .normal)
      (entry :: kept, s)

def tick
    (D : Delegate δ)
    (now : Millis)
    (s : δ × Router) :
    δ × Router :=
  let r := drainQueue { s.2 with now := now }
  let (pending, (d, r)) := retryPending D r.pending (s.1, r)
  (d, { r with pending := pending })

end Router

end MeshCore
