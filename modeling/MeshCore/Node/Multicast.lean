import MeshCore.Node.Process
import MeshCore.Radio.Datagrams
import MeshCore.Routing.Network
import MeshCore.Routing.Transit

/-
  Processes that share the air over UDP, whoever else sends
  to their group. A datagram may reach anybody, at any time
  and any number of times, or never.

  Whatever goes over such an air, no station is misquoted: a
  packet on it is one that a station made, or a stranger,
  and that stations have passed on since, who left it as it
  was and moved its path on.

  Key definitions include:
    * `Multicast`, `Multicast.Step`
    * `Router.Passed`
    * `Multicast.Made`
    * `Multicast.Honest`

  Key facts include:
    * `Router.Passed.onward`
    * `Node.relays_of_run`
    * `Process.Speaks.goes`
    * `Multicast.nobody_is_misquoted`
-/

namespace MeshCore

------------------------------------------------------------
-- Packets On Their Way
------------------------------------------------------------

namespace Router

/-
  The packet `p` once the nodes of these hashes have sent it
  on, one after the other.
-/
structure Passed
    (p : Packet)
    (hashes : Bytes)
    (q : Packet) :
    Prop where
  header : q.header = p.header
  code1 : q.transportCode1 = p.transportCode1
  code2 : q.transportCode2 = p.transportCode2
  hashSize : q.hashSize = p.hashSize
  path :
    if p.routeType.isFlood then
      q.path = p.path ++ hashes
    else p.path = hashes ++ q.path
  payload :
    ∃ readings,
      q.payload = p.payload ++ readings ∧
        readings.length =
          if p.payloadType = .trace then hashes.length
          else 0

theorem passed_refl (p : Packet) : Passed p [] p where
  header := rfl
  code1 := rfl
  code2 := rfl
  hashSize := rfl
  path := by simp
  payload := ⟨[], by simp, by simp⟩

/- One node more. -/
theorem Passed.onward
    {p q q' : Packet} {hashes : Bytes} {selfHash : UInt8}
    (hPassed : Passed p hashes q)
    (hOnward : Onward q selfHash q') :
    Passed p (hashes ++ [selfHash]) q' := by
  have hRoute : q.routeType = p.routeType := by
    simp [Packet.routeType, hPassed.header]
  have hType : q.payloadType = p.payloadType := by
    simp [Packet.payloadType, hPassed.header]
  have hBefore := hPassed.path
  have hAfter := hOnward.path
  rw [hRoute] at hAfter
  refine
    { header := hOnward.header.trans hPassed.header
      code1 := hOnward.code1.trans hPassed.code1
      code2 := hOnward.code2.trans hPassed.code2
      hashSize := hOnward.hashSize.trans hPassed.hashSize
      path := ?_
      payload := ?_ }
  · by_cases hFlood : p.routeType.isFlood = true
    · rw [if_pos hFlood] at hBefore hAfter ⊢
      rw [hAfter, hBefore, List.append_assoc]
    · rw [if_neg hFlood] at hBefore hAfter ⊢
      rw [hBefore, hAfter]
      simp
  · rcases hPassed.payload with
      ⟨readings, hPayload, hReadings⟩
    have hAdded := hOnward.payload
    rw [ReadingAdded, hType] at hAdded
    by_cases hTrace : p.payloadType = .trace
    · rw [if_pos hTrace] at hAdded hReadings ⊢
      rcases hAdded with ⟨reading, hAdded⟩
      refine ⟨readings ++ [reading], ?_, ?_⟩
      · rw [hAdded, hPayload, List.append_assoc]
      · simp [hReadings]
    · rw [if_neg hTrace] at hAdded hReadings ⊢
      exact ⟨readings, hAdded.trans hPayload, hReadings⟩

/- What was on the air stays there as the history grows. -/
theorem OnAir.mono
    {r r' : Router} {frame : Bytes}
    (hAir : r.OnAir frame)
    (hHistory : r.history <+: r'.history) :
    r'.OnAir frame := by
  rcases hAir with ⟨priority, hHanded⟩
  exact ⟨priority, hHistory.subset hHanded⟩

end Router

------------------------------------------------------------
-- What A Node Sends On
------------------------------------------------------------

namespace Node

variable {η : Type} [CryptoCore]

/- The frame that a node hears in an event. -/
def heardFrame : Event η → Option Bytes
| .frame frame _ _ => some frame
| _ => none

/-
  The node got from `s` to `s'`, and all it queued to send
  on is what it made of frames it heard.
-/
structure Relays
    (s s' : Node η)
    (heard : List Bytes) :
    Prop where
  selfHash : s'.2.store.selfHash = s.2.store.selfHash
  sourced : s.2.Sourced → s'.2.Sourced
  acts :
    ∃ acts,
      s'.2.history = s.2.history ++ acts ∧
        ∀ out, .queued out ∈ acts →
          ∃ frame ∈ heard, ∃ p q,
            parse frame = some p ∧
              parse out = some q ∧
              Router.Onward p s.2.store.selfHash q

omit [CryptoCore] in
theorem relays_refl (s : Node η) : Relays s s [] where
  selfHash := rfl
  sourced := id
  acts := ⟨[], by simp, by simp⟩

omit [CryptoCore] in
theorem Relays.trans
    {s s' s'' : Node η} {heard more : List Bytes}
    (hFirst : Relays s s' heard)
    (hThen : Relays s' s'' more) :
    Relays s s'' (heard ++ more) where
  selfHash := hThen.selfHash.trans hFirst.selfHash
  sourced := hThen.sourced ∘ hFirst.sourced
  acts := by
    rcases hFirst.acts with ⟨acts, hHistory, hQueued⟩
    rcases hThen.acts with ⟨acts', hHistory', hQueued'⟩
    refine ⟨acts ++ acts', ?_, ?_⟩
    · rw [hHistory', hHistory, List.append_assoc]
    · intro out hOut
      rcases List.mem_append.mp hOut with hOut | hOut
      · rcases hQueued out hOut with ⟨frame, hMem, hFrame⟩
        exact ⟨frame, List.mem_append_left _ hMem, hFrame⟩
      · rcases hQueued' out hOut with ⟨frame, hMem, hFrame⟩
        rw [hFirst.selfHash] at hFrame
        exact ⟨frame, List.mem_append_right _ hMem, hFrame⟩

/- Where nothing is queued, nothing is sent on. -/
theorem relays_of_does
    {s s' : Node η} {acts : List Act}
    (hDoes : s.2.Does acts s'.2)
    (hSourced : s.2.Sourced → s'.2.Sourced)
    (hNone : ∀ out, .queued out ∉ acts) :
    Relays s s' [] where
  selfHash := hDoes.selfHash
  sourced := hSourced
  acts :=
    ⟨acts, hDoes.history,
      fun out hOut => absurd hOut (hNone out)⟩

/- A frame is heard, and perhaps sent on. -/
theorem relays_frame
    (s : Node η)
    (frame : Bytes)
    (rx : RxMeta)
    (wall : UInt32) :
    Relays s (apply s (.frame frame rx wall)) [frame] := by
  let heard := hear s frame rx wall
  have hSelf :
      heard.2.store.selfHash = s.2.store.selfHash :=
    selfHash_hear s frame rx wall
  rcases Router.onFrame_does (D := Room.delegate) frame rx
      heard.1 heard.2 with
    ⟨acts, hDoes, -⟩
  have hActs :
      heard.2.actsSince
          (Router.onFrame Room.delegate frame rx heard).2 =
        acts :=
    hDoes.actsSince
  refine
    { selfHash := hDoes.selfHash.trans hSelf
      sourced := ?_
      acts := ⟨acts, hDoes.history, ?_⟩ }
  · intro hSourced
    have hHeard : heard.2.Sourced :=
      ⟨hSourced.queue, hSourced.pending, hSourced.handed⟩
    exact Router.onFrame_sourced hHeard frame rx
  · intro out hOut
    rw [← hActs] at hOut
    rcases Router.exists_parse_of_queued hOut with
      ⟨p, hParse⟩
    rcases (Router.forwarded_onFrame hParse rx heard).1 out
        hOut with
      ⟨q, hParsed, hOnward, -⟩
    rw [hSelf] at hOnward
    exact ⟨frame, by simp, p, q, hParse, hParsed, hOnward⟩

/- The step lemma. -/
theorem relays_apply (s : Node η) (e : Event η) :
    Relays s (apply s e) (heardFrame e).toList := by
  have hQuiet :
      ∀ room : Room η, Relays s (room, s.2) [] :=
    fun room => relays_of_does (.refl s.2) id (by simp)
  cases e with
  | frame frame rx wall => exact relays_frame s frame rx wall
  | routing now =>
      rcases Router.tick_does (D := Room.delegate) now s.1
          s.2 with
        ⟨acts, hDoes, hRelease⟩
      exact
        { selfHash := hDoes.selfHash
          sourced := fun hSourced =>
            Router.tick_sourced hSourced now
          acts :=
            ⟨acts, hDoes.history, fun out hOut =>
              absurd (hRelease _ hOut) id⟩ }
  | board now =>
      rcases Router.run_does (s.1.tick now) s.2 with
        ⟨acts, hDoes, hSend⟩
      exact relays_of_does hDoes
        (Router.run_performs (s.1.tick now) s.2).sourced
        fun out hOut => hSend _ hOut
  | advert payload =>
      exact relays_of_does
        (Router.sendFlood_does s.2 .advert payload)
        (Router.transmitNow_performs s.2
          ⟨.advert, payload, none⟩ .normal).sourced
        (by simp [Router.transmission])
  | serverTime unixSeconds => exact hQuiet _
  | radioLoad permille => exact hQuiet _
  | host host => exact hQuiet _

/- The run lemma. -/
theorem relays_of_run
    {s s' : Node η} {ts : List (Turn η)}
    (hRun : Run Step s ts s') :
    Relays s s' ((ts.map (·.event)).filterMap heardFrame) := by
  induction hRun with
  | start => exact relays_refl s
  | @step ts s' s'' e _ hStep ih =>
      have hHere := relays_apply s' e
      rw [show apply s' e = s'' from hStep] at hHere
      rw [List.map_append, List.filterMap_append]
      apply ih.trans
      cases h : heardFrame e with
      | none => simpa [h] using hHere
      | some frame => simpa [h] using hHere

end Node

------------------------------------------------------------
-- What A Process Sends
------------------------------------------------------------

namespace Process

variable [CryptoCore]
variable {airtimeUs : Nat → UInt32}
variable {p p' : Process}

/-
  What the driver has was handed over by the router, and
  what it sent fits a datagram.
-/
structure Speaks (p : Process) : Prop where
  sourced : p.node.2.Sourced
  carried :
    ∃ radio us,
      Traffic.Conserves (.udp radio) us p.traffic ∧
        (∀ sent ∈ Traffic.offered us,
          p.node.2.OnAir sent.2) ∧
        ∀ sent ∈ sentIn p.traffic.turns,
          (Driver.udp radio).usable sent.2 = true

omit [CryptoCore] in
theorem Speaks.onAir
    (hSpeaks : Speaks p)
    {sent : TxPriority × Bytes}
    (hSent : sent ∈ sentIn p.traffic.turns) :
    p.node.2.OnAir sent.2 ∧
      sent.2.length ≤ maxPacketFrame := by
  rcases hSpeaks.carried with
    ⟨radio, us, hConserves, hOffered, hUsable⟩
  constructor
  · apply hOffered sent
    rw [hConserves.conserved.mem_iff]
    simp [hSent]
  · simpa [Driver.usable] using hUsable sent hSent

/- Whatever the process goes through, this stays so. -/
theorem Speaks.goes
    {es : List (Node.Event HostAdmin)}
    (hSpeaks : Speaks p)
    (hGoes : Goes airtimeUs p es p') :
    Speaks p' ∧
      Node.Relays p.node p'.node
        (es.filterMap Node.heardFrame) := by
  rcases hGoes with ⟨ts, vs, rfl, hWired⟩
  have hRelays := Node.relays_of_run hWired.node
  have hCalls :=
    hWired.traffic.mono fun s c s' hStep => hStep.2
  rcases hWired.handed with ⟨acts, hHistory, hSent⟩
  rcases hSpeaks.carried with
    ⟨radio, us, hConserves, hOffered, hUsable⟩
  refine
    ⟨{ sourced := hRelays.sourced hSpeaks.sourced
       carried :=
        ⟨radio, us ++ vs, hConserves.run airtimeUs hCalls,
          ?_, hConserves.sendable airtimeUs hUsable hCalls⟩ },
      hRelays⟩
  intro sent hMem
  rw [Traffic.offered_append, List.mem_append] at hMem
  rcases hMem with hOld | hNew
  · exact (hOffered sent hOld).mono ⟨acts, hHistory.symm⟩
  · rw [hSent] at hNew
    rcases List.mem_filterMap.mp hNew with ⟨a, ha, hEnqueued⟩
    cases a with
    | handed frame priority =>
        simp only [Act.enqueued, Option.some.injEq]
          at hEnqueued
        rw [← hEnqueued]
        refine ⟨priority, ?_⟩
        rw [hHistory]
        exact List.mem_append_right _ ha
    | _ => simp [Act.enqueued] at hEnqueued

/- What a turn hears is among what arrives. -/
omit [CryptoCore] in
theorem TurnOf.frames
    {m : Moment}
    {es : List (Node.Event HostAdmin)}
    (hTurn : TurnOf airtimeUs m es) :
    ∀ frame ∈ es.filterMap Node.heardFrame,
      ∃ heard ∈ m.arrivals, heard.frame = frame := by
  rcases hTurn.split with
    ⟨host, heard, permille, rest, rfl, hHeard, hRest⟩
  intro frame hFrame
  rcases List.mem_filterMap.mp hFrame with
    ⟨e, hMem, hEvent⟩
  simp only [List.cons_append, List.append_assoc,
    List.mem_cons, List.mem_append, List.mem_map] at hMem
  rcases hMem with rfl | ⟨one, hOne, rfl⟩ | hMem
  · simp [Node.heardFrame] at hEvent
  · exact ⟨one, hHeard.subset hOne, by
      simpa [heardAs, Node.heardFrame] using hEvent⟩
  · exfalso
    rcases hMem with rfl | rfl | rfl | rfl | hMem
    · simp [Node.heardFrame] at hEvent
    · simp [Node.heardFrame] at hEvent
    · simp [Node.heardFrame] at hEvent
    · simp [Node.heardFrame] at hEvent
    · rcases hMem with hMem | hMem
      · simp at hMem
      · rcases hRest e hMem with ⟨_, rfl⟩ | ⟨_, rfl⟩
        · simp [Node.heardFrame] at hEvent
        · simp [Node.heardFrame] at hEvent

end Process

------------------------------------------------------------
-- The Group
------------------------------------------------------------

/- A process, and the id that its driver has drawn. -/
structure Station where
  selfId : SenderId
  process : Process

/-
  The stations of a group, every datagram that was ever sent
  to it, and those of them that no station sent.
-/
structure Multicast (ι : Type) where
  stations : ι → Station
  datagrams : List Bytes := []
  foreign : List Bytes := []

namespace Multicast

/-
  A station has a turn, with what the network brings it and
  the wall clock at each; or a stranger sends something.
-/
inductive Event (ι : Type) where
| turn
    (node : ι)
    (m : Moment)
    (brought : List (Bytes × UInt32))
| foreign (datagram : Bytes)

/- All that waits is read, and what is not ours passed on. -/
def drainSocket
    (selfId : SenderId)
    (brought : List (Bytes × UInt32)) :
    List Arrival :=
  brought.filterMap fun one =>
    (UdpRadio.passedOn selfId one.1).map fun frame =>
      { frame := frame, wall := one.2 }

/- What a turn of a process put on the air. -/
def sentSince (p p' : Process) : List (TxPriority × Bytes) :=
  sentIn
    (p'.traffic.turns.drop p.traffic.turns.length)

def router {ι : Type} (s : Multicast ι) (node : ι) : Router :=
  (s.stations node).process.node.2

section Steps

variable {ι : Type} [DecidableEq ι] [CryptoCore]
variable (airtimeUs : ι → Nat → UInt32)
variable (sign : PrivateKey → Bytes → Signature)

/- The turn of a station, as its process takes it. -/
def turned
    (s : Multicast ι)
    (node : ι)
    (m : Moment)
    (brought : List (Bytes × UInt32)) :
    Process :=
  let station := s.stations node
  station.process.turn (airtimeUs node) sign
    { m with
      arrivals := drainSocket station.selfId brought }

def next (s : Multicast ι) : Event ι → Multicast ι
| .turn node m brought =>
    let station := s.stations node
    let process := s.turned airtimeUs sign node m brought
    { s with
      stations :=
        Function.update s.stations node
          { station with process := process }
      datagrams :=
        s.datagrams ++
          (sentSince station.process process).map
            fun sent =>
              UdpRadio.transmit station.selfId sent.2 }
| .foreign datagram =>
    { s with
      datagrams := s.datagrams ++ [datagram]
      foreign := s.foreign ++ [datagram] }

/-
  What is brought was sent, no clock goes back, and who has
  left the loop has no more turns.
-/
def Allowed (s : Multicast ι) : Event ι → Prop
| .turn node m brought =>
    let p := (s.stations node).process
    (p.looping = true ∧ p.device.now ≤ m.now) ∧
      ∀ one ∈ brought, one.1 ∈ s.datagrams
| .foreign _ => True

instance (s : Multicast ι) (e : Event ι) :
    Decidable (s.Allowed e) := by
  cases e <;> unfold Allowed <;> infer_instance

def Step
    (s : Multicast ι)
    (e : Event ι)
    (s' : Multicast ι) :
    Prop :=
  s.Allowed e ∧ s.next airtimeUs sign e = s'

/- Every station has just been started. -/
structure New (s : Multicast ι) : Prop where
  routers :
    ∀ node, ∃ store entropy config,
      s.router node = Router.create store entropy config
  radios :
    ∀ node, ∃ radio depth,
      (s.stations node).process.traffic =
          { driver := .udp radio } ∧
        radio.air.queue = { depth := depth }
  datagrams : s.datagrams = []
  foreign : s.foreign = []

end Steps

------------------------------------------------------------
-- Who Said What
------------------------------------------------------------

section Provenance

variable {ι : Type}

/- A station made the frame, or a stranger brought it. -/
def Made (s : Multicast ι) (orig : Bytes) : Prop :=
  (∃ node,
    orig ∈
      (s.router node).history.filterMap
        Router.originatedOf) ∨
    ∃ datagram ∈ s.foreign, ∃ selfId,
      UdpRadio.passedOn selfId datagram = some orig

/- The hashes of stations, in their order. -/
def hashesOf (s : Multicast ι) (nodes : List ι) : Bytes :=
  nodes.map fun node => (s.router node).store.selfHash

/- The packet was made, and passed on by stations since. -/
def Traced (s : Multicast ι) (frame : Bytes) : Prop :=
  ∀ q,
    parse frame = some q →
      ∃ orig p nodes,
        s.Made orig ∧
          parse orig = some p ∧
          Router.Passed p (s.hashesOf nodes) q

/- The invariant of a group. -/
structure Honest (s : Multicast ι) : Prop where
  speaks : ∀ node, (s.stations node).process.Speaks
  datagrams :
    ∀ datagram ∈ s.datagrams,
      datagram ∈ s.foreign ∨
        ∃ node frame,
          datagram =
              UdpRadio.transmit (s.stations node).selfId
                frame ∧
            (s.router node).OnAir frame ∧
            frame.length ≤ maxPacketFrame
  traced :
    ∀ node frame,
      (s.router node).From frame → s.Traced frame

end Provenance

------------------------------------------------------------
-- What Stays As It Is
------------------------------------------------------------

section Extending

variable {ι : Type} {s s' s'' : Multicast ι}

/- The group went on: nothing that was said is unsaid. -/
structure Extends (s s' : Multicast ι) : Prop where
  selfIds :
    ∀ node,
      (s'.stations node).selfId = (s.stations node).selfId
  hashes :
    ∀ node,
      (s'.router node).store.selfHash =
        (s.router node).store.selfHash
  histories :
    ∀ node,
      (s.router node).history <+: (s'.router node).history
  foreign : s.foreign ⊆ s'.foreign

theorem Extends.onAir
    (hExtends : Extends s s')
    {node : ι} {frame : Bytes}
    (hAir : (s.router node).OnAir frame) :
    (s'.router node).OnAir frame :=
  hAir.mono (hExtends.histories node)

theorem Extends.traced
    (hExtends : Extends s s')
    {frame : Bytes}
    (hTraced : s.Traced frame) :
    s'.Traced frame := by
  intro q hParse
  rcases hTraced q hParse with
    ⟨orig, p, nodes, hMade, hOrig, hPassed⟩
  have hHashes : s'.hashesOf nodes = s.hashesOf nodes :=
    List.map_congr_left fun node _ => hExtends.hashes node
  refine ⟨orig, p, nodes, ?_, hOrig, hHashes ▸ hPassed⟩
  rcases hMade with ⟨node, hSent⟩ | ⟨d, hForeign, hBrought⟩
  · left
    refine ⟨node, ?_⟩
    exact
      ((hExtends.histories node).filterMap _).subset hSent
  · exact .inr ⟨d, hExtends.foreign hForeign, hBrought⟩

/- A frame that was made is its own packet. -/
theorem traced_of_made
    {frame : Bytes}
    (hMade : s.Made frame) :
    s.Traced frame := by
  intro q hParse
  exact ⟨frame, q, [], hMade, hParse, Router.passed_refl q⟩

end Extending

------------------------------------------------------------
-- Every Turn Is Honest
------------------------------------------------------------

section Turns

variable {ι : Type} {s s' : Multicast ι}

/- What is heard was brought by a stranger, or said. -/
theorem Honest.heard
    (hHonest : Honest s)
    {selfId : SenderId}
    {brought : List (Bytes × UInt32)}
    (hBrought : ∀ one ∈ brought, one.1 ∈ s.datagrams)
    {heard : Arrival}
    (hHeard : heard ∈ drainSocket selfId brought) :
    (∃ datagram ∈ s.foreign,
        UdpRadio.passedOn selfId datagram =
          some heard.frame) ∨
      ∃ other,
        (s.stations other).selfId ≠ selfId ∧
          (s.router other).OnAir heard.frame := by
  rcases List.mem_filterMap.mp hHeard with
    ⟨one, hOne, hPassed⟩
  rcases Option.map_eq_some_iff.mp hPassed with
    ⟨frame, hFrame, rfl⟩
  rcases hHonest.datagrams one.1 (hBrought one hOne) with
    hForeign | ⟨other, said, hSent, hAir, hFits⟩
  · exact .inl ⟨one.1, hForeign, hFrame⟩
  · right
    rw [hSent, UdpRadio.passedOn_transmit] at hFrame
    split_ifs at hFrame with hNone
    rw [not_or] at hNone
    rw [List.take_of_length_le hFits,
      Option.some.injEq] at hFrame
    rw [hFrame] at hAir
    exact ⟨other, hNone.2, hAir⟩

/- What the radio was given was sent or sent on. -/
theorem Honest.traced_onAir
    (hHonest : Honest s)
    {node : ι} {frame : Bytes}
    (hAir : (s.router node).OnAir frame) :
    s.Traced frame := by
  rcases hAir with ⟨priority, hHanded⟩
  apply hHonest.traced node
  apply (hHonest.speaks node).sourced.handed
  exact List.mem_filterMap.mpr ⟨_, hHanded, rfl⟩

theorem Honest.traced_heard
    (hHonest : Honest s)
    {selfId : SenderId}
    {brought : List (Bytes × UInt32)}
    (hBrought : ∀ one ∈ brought, one.1 ∈ s.datagrams)
    {heard : Arrival}
    (hHeard : heard ∈ drainSocket selfId brought) :
    s.Traced heard.frame := by
  rcases hHonest.heard hBrought hHeard with
    ⟨datagram, hForeign, hPassed⟩ | ⟨other, -, hAir⟩
  · exact traced_of_made
      (.inr ⟨datagram, hForeign, selfId, hPassed⟩)
  · exact hHonest.traced_onAir hAir

variable [DecidableEq ι] [CryptoCore]
variable (airtimeUs : ι → Nat → UInt32)
variable (sign : PrivateKey → Bytes → Signature)

/- What a turn comes to, for the station that takes it. -/
omit [DecidableEq ι] in
theorem Honest.turned
    (hHonest : Honest s)
    {node : ι} {m : Moment}
    {brought : List (Bytes × UInt32)}
    (hAllowed : s.Allowed (.turn node m brought)) :
    let p' := s.turned airtimeUs sign node m brought
    p'.Speaks ∧
      ∃ frames,
        (∀ frame ∈ frames, s.Traced frame) ∧
          Node.Relays (s.stations node).process.node
            p'.node frames := by
  rcases hAllowed with ⟨⟨-, hTime⟩, hBrought⟩
  rcases Process.goes_turn (airtimeUs node) sign
      (p := (s.stations node).process)
      (m :=
        { m with
          arrivals :=
            drainSocket (s.stations node).selfId brought })
      hTime with
    ⟨es, hTurn, hGoes⟩
  rcases (hHonest.speaks node).goes hGoes with
    ⟨hSpeaks, hRelays⟩
  refine ⟨hSpeaks, _, ?_, hRelays⟩
  intro frame hFrame
  rcases hTurn.frames frame hFrame with
    ⟨heard, hHeard, rfl⟩
  exact hHonest.traced_heard hBrought hHeard

/- Others wait while a station has its turn. -/
theorem stations_turn
    (s : Multicast ι)
    (node : ι)
    (m : Moment)
    (brought : List (Bytes × UInt32))
    (other : ι) :
    ((s.next airtimeUs sign
        (.turn node m brought)).stations other) =
      if other = node then
        { selfId := (s.stations node).selfId
          process :=
            s.turned airtimeUs sign node m brought }
      else s.stations other :=
  Function.update_apply _ _ _ _

variable {airtimeUs sign}

theorem extends_turn
    {node : ι} {m : Moment}
    {brought : List (Bytes × UInt32)} {frames : List Bytes}
    (hRelays :
      Node.Relays (s.stations node).process.node
        (s.turned airtimeUs sign node m brought).node
        frames) :
    Extends s
      (s.next airtimeUs sign (.turn node m brought)) := by
  have hStations :=
    stations_turn airtimeUs sign s node m brought
  refine
    { selfIds := ?_
      hashes := ?_
      histories := ?_
      foreign := List.Subset.refl _ }
  · intro other
    rw [hStations other]
    split_ifs with hNode
    · rw [hNode]
    · rfl
  · intro other
    rw [router, router, hStations other]
    split_ifs with hNode
    · rw [hNode]
      exact hRelays.selfHash
    · rfl
  · intro other
    rw [router, router, hStations other]
    split_ifs with hNode
    · rcases hRelays.acts with ⟨acts, hHistory, -⟩
      rw [hNode]
      exact ⟨acts, hHistory.symm⟩
    · exact List.prefix_rfl

/- A station sends on what it heard, and says the rest. -/
theorem Honest.traced_turn
    (hHonest : Honest s)
    {node : ι} {m : Moment}
    {brought : List (Bytes × UInt32)} {frames : List Bytes}
    (hFrames : ∀ frame ∈ frames, s.Traced frame)
    (hRelays :
      Node.Relays (s.stations node).process.node
        (s.turned airtimeUs sign node m brought).node
        frames)
    {out : Bytes}
    (hFrom :
      (s.turned airtimeUs sign node m brought).node.2.From
        out) :
    (s.next airtimeUs sign
      (.turn node m brought)).Traced out := by
  let s' := s.next airtimeUs sign (.turn node m brought)
  have hExtends : Extends s s' := extends_turn hRelays
  have hHere :
      s'.router node =
        (s.turned airtimeUs sign node m brought).node.2 := by
    rw [router, stations_turn, if_pos rfl]
  rcases hFrom with hSent | hQueued
  · apply traced_of_made
    exact .inl ⟨node, hHere ▸ hSent⟩
  · rcases hRelays.acts with ⟨acts, hHistory, hNew⟩
    rw [hHistory, List.mem_append] at hQueued
    rcases hQueued with hOld | hQueued
    · exact hExtends.traced
        (hHonest.traced node out (.inr hOld))
    · rcases hNew out hQueued with
        ⟨frame, hFrame, p, q, hParse, hOut, hOnward⟩
      intro q' hParse'
      obtain rfl : q = q' :=
        Option.some.inj (hOut.symm.trans hParse')
      rcases hExtends.traced (hFrames frame hFrame) p
          hParse with
        ⟨orig, p₀, nodes, hMade, hOrig, hPassed⟩
      refine
        ⟨orig, p₀, nodes ++ [node], hMade, hOrig, ?_⟩
      have hSelf := hExtends.hashes node
      rw [hashesOf, List.map_append, List.map_singleton,
        hSelf]
      exact hPassed.onward hOnward

/- The step lemma. -/
theorem honest_step
    (hHonest : Honest s)
    {e : Event ι}
    (hStep : Step airtimeUs sign s e s') :
    Honest s' ∧ Extends s s' := by
  rcases hStep with ⟨hAllowed, rfl⟩
  cases e with
  | foreign datagram =>
      have hExtends :
          Extends s
            (s.next airtimeUs sign (.foreign datagram)) :=
        ⟨fun _ => rfl, fun _ => rfl,
          fun _ => List.prefix_rfl,
          List.subset_append_left _ _⟩
      refine
        ⟨{ speaks := hHonest.speaks
           datagrams := ?_
           traced := fun node frame hFrom =>
             hExtends.traced
               (hHonest.traced node frame hFrom) },
          hExtends⟩
      intro d hd
      rcases List.mem_append.mp hd with hOld | hNew
      · exact (hHonest.datagrams d hOld).imp_left
          (hExtends.foreign ·)
      · exact .inl (List.mem_append_right _ hNew)
  | turn node m brought =>
      rcases hHonest.turned airtimeUs sign hAllowed with
        ⟨hSpeaks, frames, hFrames, hRelays⟩
      have hExtends := extends_turn hRelays
      have hStations :=
        stations_turn airtimeUs sign s node m brought
      refine
        ⟨{ speaks := ?_
           datagrams := ?_
           traced := ?_ },
          hExtends⟩
      · intro other
        rw [hStations other]
        split_ifs
        · exact hSpeaks
        · exact hHonest.speaks other
      · intro d hd
        rcases List.mem_append.mp hd with hOld | hNew
        · rcases hHonest.datagrams d hOld with
            hForeign | ⟨other, frame, hSent, hAir, hFits⟩
          · exact .inl hForeign
          · refine
              .inr ⟨other, frame, ?_, hExtends.onAir hAir,
                hFits⟩
            rw [hExtends.selfIds]
            exact hSent
        · rcases List.mem_map.mp hNew with
            ⟨sent, hSent, rfl⟩
          have hOn : sent ∈ sentIn
              (s.turned airtimeUs sign node m
                brought).traffic.turns :=
            ((List.drop_sublist _ _).filterMap _).subset
              hSent
          rcases hSpeaks.onAir hOn with ⟨hAir, hFits⟩
          refine .inr ⟨node, sent.2, ?_, ?_, hFits⟩
          · rw [hExtends.selfIds]
          · rw [router, hStations node, if_pos rfl]
            exact hAir
      · intro other frame hFrom
        rw [router, hStations other] at hFrom
        split_ifs at hFrom
        · exact hHonest.traced_turn hFrames hRelays hFrom
        · exact hExtends.traced
            (hHonest.traced other frame hFrom)

omit [DecidableEq ι] [CryptoCore] in
theorem honest_new (hNew : New s) : Honest s where
  speaks := by
    intro node
    rcases hNew.routers node with
      ⟨store, entropy, config, hCreate⟩
    rcases hNew.radios node with
      ⟨radio, depth, hTraffic, hQueue⟩
    refine
      { sourced := ?_
        carried := ⟨radio, [], ?_, ?_, ?_⟩ }
    · rw [show (s.stations node).process.node.2 = _ from
        hCreate]
      exact Router.sourced_create store entropy config
    · rw [hTraffic]
      exact Traffic.conserves_new hQueue
    · simp [Traffic.offered]
    · rw [hTraffic]
      simp [sentIn]
  datagrams := by simp [hNew.datagrams]
  traced := by
    intro node frame hFrom
    rcases hNew.routers node with
      ⟨store, entropy, config, hCreate⟩
    rw [Router.From, hCreate] at hFrom
    simp [Router.create] at hFrom

/-
  Nobody is misquoted. In every run of a group, a station
  hears what another station's router handed over or what a
  stranger brought, and never itself; and every packet on
  the air was made by a station, or by a stranger, and
  passed on by stations since, who changed nothing of it but
  its path and the readings of a trace.
-/
theorem nobody_is_misquoted
    {new : Multicast ι}
    {ts : List (Transition (Multicast ι) (Event ι))}
    (hNew : New new)
    (hRun : Run (Step airtimeUs sign) new ts s) :
    (∀ node frame q,
        (s.router node).OnAir frame →
          parse frame = some q →
            ∃ orig p nodes,
              s.Made orig ∧
                parse orig = some p ∧
                Router.Passed p (s.hashesOf nodes) q) ∧
      ∀ t ∈ ts, ∀ node m brought,
        t.event = .turn node m brought →
          ∀ heard ∈
              drainSocket (t.before.stations node).selfId
                brought,
            (∃ datagram ∈ t.before.foreign,
                UdpRadio.passedOn
                    (t.before.stations node).selfId
                    datagram =
                  some heard.frame) ∨
              ∃ other,
                other ≠ node ∧
                  (t.before.router other).OnAir
                    heard.frame := by
  have hStart : Honest new := honest_new hNew
  have hKeep :
      ∀ s e s',
        Honest s → Step airtimeUs sign s e s' → Honest s' :=
    fun s e s' hHonest hStep => (honest_step hHonest hStep).1
  constructor
  · intro node frame q hAir hParse
    have hHonest := hRun.invariant hStart hKeep
    exact hHonest.traced_onAir hAir q hParse
  · intro t ht node m brought hEvent heard hHeard
    have hHonest := (hRun.invariant_mem hStart hKeep ht).1
    have hAllowed := (hRun.step_of_mem ht).1
    rw [hEvent] at hAllowed
    rcases hHonest.heard hAllowed.2 hHeard with
      hForeign | ⟨other, hOther, hAir⟩
    · exact .inl hForeign
    · refine .inr ⟨other, ?_, hAir⟩
      rintro rfl
      exact hOther rfl

end Turns

section Example

open Sample

/- The node that was started, and a repeater. -/
def stationOf : Bool → Station
| false =>
    { selfId := Vector.replicate _ 0
      process := Process.started }
| true =>
    { selfId := Vector.replicate _ 1
      process :=
        { Process.started with
          node :=
            (.create
              { type := .repeater
                forwarder := some (.create {}) }
              Process.started.admin,
              .ofByte 3) } }

def twoStations : Multicast Bool :=
  { stations := stationOf }

def nextOfTwo : Multicast Bool → Event Bool → Multicast Bool :=
  next (fun _ => Traffic.shortAirtimeUs) Process.blankSign

/- The node sends its advert in its second turn. -/
def advertTurns : List (Event Bool) :=
  [.turn false { now := 1 } [], .turn false { now := 2 } []]

/- And the repeater hears it, and sends it on. -/
def repeatTurns : List (Event Bool) :=
  [.turn true { now := 3 }
      ((advertTurns.foldl nextOfTwo
        twoStations).datagrams.map fun datagram =>
          (datagram, 0)),
    .turn true { now := 9000 } []]

def afterRepeating : Multicast Bool :=
  (advertTurns ++ repeatTurns).foldl nextOfTwo twoStations

theorem new_twoStations : New twoStations where
  routers := by
    intro node
    cases node with
    | false => exact ⟨_, _, _, rfl⟩
    | true => exact ⟨_, _, _, rfl⟩
  radios := by
    intro node
    cases node with
    | false => exact ⟨_, _, rfl, rfl⟩
    | true => exact ⟨_, _, rfl, rfl⟩
  datagrams := rfl
  foreign := rfl

/- Its own advert, and the one that it has from the other. -/
theorem repeated_advert_is_traced :
    ((afterRepeating.router true).history.filterMap
          Router.handedOf).map (·.take 4) =
        [[17, 0, 3, 3], [17, 1, 3, 2]] ∧
      (∀ node frame q,
          (afterRepeating.router node).OnAir frame →
            parse frame = some q →
              ∃ orig p nodes,
                afterRepeating.Made orig ∧
                  parse orig = some p ∧
                  Router.Passed p
                    (afterRepeating.hashesOf nodes) q) ∧
        ∀ t ∈ replay nextOfTwo twoStations
            (advertTurns ++ repeatTurns),
          ∀ node m brought,
            t.event = .turn node m brought →
              ∀ heard ∈
                  drainSocket
                    (t.before.stations node).selfId brought,
                (∃ datagram ∈ t.before.foreign,
                    UdpRadio.passedOn
                        (t.before.stations node).selfId
                        datagram =
                      some heard.frame) ∨
                  ∃ other,
                    other ≠ node ∧
                      (t.before.router other).OnAir
                        heard.frame :=
  ⟨by decide +kernel,
    nobody_is_misquoted new_twoStations
      (run_replay_of_guard _ _ _ (by decide +kernel))⟩

end Example

end Multicast

end MeshCore
