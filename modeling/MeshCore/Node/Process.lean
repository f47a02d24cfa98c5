import MeshCore.Identity.Saving
import MeshCore.Node.Advertising
import MeshCore.Node.Host
import MeshCore.Node.Loop
import MeshCore.Radio.Conservation
import MeshCore.Room.Storage
import MeshCore.Routing.Forwarding

/-
  The process: a node on its radio, with its timers and its
  files, as the main loop turns it. What the router hands
  over goes to the transmit queue of the driver at once, and
  what the driver hears goes up to the node.

  What it is to be wired so is that a run of the loop is a
  run of the node and a run of the driver, in which the
  driver is asked to send just what the router hands over.

  Key definitions include:
    * `Process`, `Process.apply`
    * `Moment`, `Process.turn`
    * `Process.Step`, `Process.shutdown`
    * `Process.Wired`, `Process.TurnOf`

  Key facts include:
    * `Process.goes_turn`
    * `Process.loop_is_wired`
    * `Process.radio_speaks_for_router`
-/

namespace MeshCore

------------------------------------------------------------
-- What The Loop Asks Of The Host
------------------------------------------------------------

namespace HostAdmin

/- Once in a turn, before the intents are read. -/
def tick (host : HostAdmin) (now : Millis) : HostAdmin :=
  { host with now := now }

def takeAdvertRequest
    (host : HostAdmin) :
    Bool × HostAdmin :=
  (host.advertWanted, { host with advertWanted := false })

def rebootDue (host : HostAdmin) : Bool :=
  host.rebootAt ≠ 0 ∧ host.rebootAt ≤ host.now

end HostAdmin

/- All of the file is replaced, or none of it. -/
def Room.flush
    {η : Type}
    (room : Room η)
    (stored : Bool)
    (file : Option Bytes) :
    Option Bytes :=
  if stored then some room.writeState else file

------------------------------------------------------------
-- Processes
------------------------------------------------------------

/- The two enumerations have the same three levels. -/
def translate : Priority → TxPriority
| .high => .high
| .normal => .normal
| .low => .low

/- What the driver is asked to send in an act. -/
def Act.enqueued : Act → Option (TxPriority × Bytes)
| .handed frame priority => some (translate priority, frame)
| _ => none

/- What is decided once, before the first turn. -/
structure LoopConfig where
  flushEvery : Millis := 60000
  advertEvery : Millis := 300000
  reportEvery : Millis := 60000
  telemetryOn : Bool := true
  claimedType : Advertising.NodeType := .roomServer
  location : Advertising.Location := {}

/- The two files that are written lazily. -/
structure Files where
  contacts : Option Bytes := none
  room : Option Bytes := none
deriving DecidableEq

/-
  The driver comes with what it accepted and with every turn
  it took, which the program does not keep.
-/
structure Process where
  node : Node HostAdmin
  traffic : Traffic
  config : LoopConfig := {}
  looping : Bool := true
  nextFlush : Millis := 0
  nextAdvert : Millis := 0
  nextReport : Millis := 0
  files : Files := {}

/- A frame as the driver hears it, at that wall clock. -/
structure Arrival where
  frame : Bytes
  snr : Int16 := 8
  wall : UInt32 := 0

/-
  What a turn of the loop finds: the two clocks, what there
  is to hear, what the chip says, and whether the files can
  be written.
-/
structure Moment where
  now : Millis
  arrivals : List Arrival := []
  wall : UInt32 := 0
  advertWall : UInt32 := 0
  done : Bool := false
  starts : Bool := true
  contactsStored : Bool := true
  roomStored : Bool := true

/-
  What a driver hears in its tick. A chip that transmits is
  deaf, and else has one frame at most; what is heard over
  the shared air comes in the tick of another driver.
-/
def Driver.receives
    (d : Driver)
    (arrivals : List Arrival) :
    List Arrival :=
  match d with
  | .virtual _ => []
  | .udp r => if r.socket then arrivals else []
  | .sx1262 r =>
      if r.device && !r.transmitting then arrivals.take 1
      else []

/- A gauge that only the drivers of a real node have. -/
def usedPermilleOf (d : Driver) : UInt32 :=
  match d with
  | .virtual _ => 0
  | d => d.usedPermille.1

namespace Process

def device (p : Process) : Driver :=
  p.traffic.driver

def admin (p : Process) : HostAdmin :=
  p.node.1.host

section Turns

variable [CryptoCore]
variable (airtimeUs : Nat → UInt32)
variable (sign : PrivateKey → Bytes → Signature)

/- What happens at the node, and what it hands over. -/
def apply
    (p : Process)
    (e : Node.Event HostAdmin) :
    Process :=
  let node := Node.apply p.node e
  { p with
    node := node
    traffic :=
      ((p.node.2.actsSince node.2).filterMap
          Act.enqueued).foldl
        (fun traffic sent =>
          traffic.call airtimeUs (.send sent.2 sent.1))
        p.traffic }

/- The receiver passes on what the driver heard. -/
def heardAs (heard : Arrival) : Node.Event HostAdmin :=
  .frame heard.frame
    { airtime :=
        (airtimeUs heard.frame.length / 1000).toUInt64
      snr := heard.snr }
    heard.wall

def hear (p : Process) (heard : Arrival) : Process :=
  p.apply airtimeUs (heardAs airtimeUs heard)

/- The driver delivers, and then it transmits. -/
def tickDevice (p : Process) (m : Moment) : Process :=
  let p :=
    (p.device.receives m.arrivals).foldl
      (hear airtimeUs) p
  { p with
    traffic :=
      p.traffic.call airtimeUs (.tick m.now m.done m.starts) }

/- To ask for the gauge is to let old slots expire. -/
def askLoad (p : Process) : Process :=
  { p with
    traffic :=
      match p.device with
      | .virtual _ => p.traffic
      | _ => p.traffic.call airtimeUs .usedPermille }

/- How much of the air has gone, for the transit policy. -/
def reportLoad (p : Process) : Process :=
  let permille := usedPermilleOf p.device
  (p.askLoad airtimeUs).apply airtimeUs
    (.radioLoad permille)

def sendAdvert (p : Process) (m : Moment) : Process :=
  let payload :=
    Advertising.buildAdvertPayload sign p.node.2.store
      m.advertWall p.admin.name p.config.claimedType
      p.config.location
  let p :=
    if payload = [] then p
    else p.apply airtimeUs (.advert payload)
  { p with nextAdvert := m.now + p.config.advertEvery }

/- On the timer, or because a command asked for one. -/
def advertise (p : Process) (m : Moment) : Process :=
  -- a request stays where the timer is due already
  if p.nextAdvert ≤ m.now then p.sendAdvert airtimeUs sign m
  else
    let (wanted, admin) := p.admin.takeAdvertRequest
    let p := p.apply airtimeUs (.host admin)
    if wanted then p.sendAdvert airtimeUs sign m else p

/- Lazily, on a timer; what fails is tried the next time. -/
def flush (p : Process) (m : Moment) : Process :=
  if p.nextFlush ≤ m.now then
    { p with
      files :=
        { contacts :=
            p.node.2.store.flush m.contactsStored
              p.files.contacts
          room := p.node.1.flush m.roomStored p.files.room }
      nextFlush := m.now + p.config.flushEvery }
  else p

/- The counters are logged, with the gauges. -/
def report (p : Process) (m : Moment) : Process :=
  if p.config.telemetryOn && p.nextReport ≤ m.now then
    { p.askLoad airtimeUs with
      nextReport := m.now + p.config.reportEvery }
  else p

/- A turn up to the point where a reboot leaves the loop. -/
def work (p : Process) (m : Moment) : Process :=
  let p := p.apply airtimeUs (.host (p.admin.tick m.now))
  let p := p.tickDevice airtimeUs m
  let p := p.apply airtimeUs (.routing m.now)
  let p := p.apply airtimeUs (.serverTime m.wall)
  let p := p.reportLoad airtimeUs
  let p := p.apply airtimeUs (.board m.now)
  p.advertise airtimeUs sign m

/- The loop goes on, or is left for a reboot. -/
def turn (p : Process) (m : Moment) : Process :=
  let p := p.work airtimeUs sign m
  if p.admin.rebootDue then { p with looping := false }
  else (p.flush m).report airtimeUs m

/- A turn of the loop; its clock does not go back. -/
def Step (p : Process) (m : Moment) (p' : Process) : Prop :=
  (p.looping = true ∧ p.device.now ≤ m.now) ∧
    p.turn airtimeUs sign m = p'

------------------------------------------------------------
-- Wiring
------------------------------------------------------------

/- The loop sets the host's clock, or takes its request. -/
def Modest (t : Node.Turn HostAdmin) : Prop :=
  ∀ host, t.event = .host host →
    (∃ now, host = t.before.1.host.tick now) ∨
      host = t.before.1.host.takeAdvertRequest.2

/-
  The node went through `ts` and the driver through `us`,
  and the driver was asked to send just what the router
  handed over, in that order.
-/
structure Wired
    (p : Process)
    (ts : List (Node.Turn HostAdmin))
    (us : List (Transition Traffic DriverCall))
    (p' : Process) :
    Prop where
  node : Run Node.Step p.node ts p'.node
  traffic :
    Run (Traffic.Step airtimeUs) p.traffic us p'.traffic
  handed :
    ∃ acts,
      p'.node.2.history = p.node.2.history ++ acts ∧
        Traffic.offered us = acts.filterMap Act.enqueued
  modest : ∀ t ∈ ts, Modest t
  config : p'.config = p.config

/- What a turn of the loop comes to at the node. -/
structure TurnOf
    (m : Moment)
    (es : List (Node.Event HostAdmin)) :
    Prop where
  split :
    ∃ host heard permille rest,
      es =
        .host host :: heard.map (heardAs airtimeUs) ++
          [.routing m.now, .serverTime m.wall,
            .radioLoad permille, .board m.now] ++ rest ∧
      heard <+: m.arrivals ∧
      ∀ e ∈ rest,
        (∃ payload, e = .advert payload) ∨
          ∃ host, e = .host host

/- The same as being wired, by what happened at the node. -/
def Goes
    (p : Process)
    (es : List (Node.Event HostAdmin))
    (p' : Process) :
    Prop :=
  ∃ ts us,
    ts.map (·.event) = es ∧ Wired airtimeUs p ts us p'

variable {airtimeUs sign}
variable {p p' p'' : Process}

theorem wired_refl (p : Process) :
    Wired airtimeUs p [] [] p where
  node := .start
  traffic := .start
  handed := ⟨[], by simp, rfl⟩
  modest := by
    intro t ht
    cases ht
  config := rfl

theorem Wired.trans
    {ts ts' : List (Node.Turn HostAdmin)}
    {us us' : List (Transition Traffic DriverCall)}
    (hFirst : Wired airtimeUs p ts us p')
    (hThen : Wired airtimeUs p' ts' us' p'') :
    Wired airtimeUs p (ts ++ ts') (us ++ us') p'' where
  node := hFirst.node.trans hThen.node
  traffic := hFirst.traffic.trans hThen.traffic
  handed := by
    rcases hFirst.handed with ⟨acts, hHistory, hSent⟩
    rcases hThen.handed with ⟨more, hMore, hThenSent⟩
    refine ⟨acts ++ more, ?_, ?_⟩
    · rw [hMore, hHistory, List.append_assoc]
    · rw [Traffic.offered_append, List.filterMap_append,
        hSent, hThenSent]
  modest := by
    intro t ht
    rcases List.mem_append.mp ht with ht | ht
    · exact hFirst.modest t ht
    · exact hThen.modest t ht
  config := hThen.config.trans hFirst.config

/- The history of a node grows. -/
theorem history_of_node
    (s : Node HostAdmin)
    (e : Node.Event HostAdmin) :
    ∃ acts,
      (Node.apply s e).2.history = s.2.history ++ acts := by
  cases e with
  | frame frame rx wall =>
      rcases Router.onFrame_does (D := Room.delegate) frame rx
          (Node.hear s frame rx wall).1
          (Node.hear s frame rx wall).2 with
        ⟨acts, hDoes, -⟩
      exact ⟨acts, hDoes.history⟩
  | routing now =>
      rcases Router.tick_does (D := Room.delegate) now s.1
          s.2 with
        ⟨acts, hDoes, -⟩
      exact ⟨acts, hDoes.history⟩
  | board now =>
      rcases Router.run_does (s.1.tick now) s.2 with
        ⟨acts, hDoes, -⟩
      exact ⟨acts, hDoes.history⟩
  | advert payload =>
      exact ⟨_, (Router.sendFlood_does s.2 _ _).history⟩
  | serverTime unixSeconds =>
      exact ⟨[], by simp [Node.apply]⟩
  | radioLoad permille => exact ⟨[], by simp [Node.apply]⟩
  | host host => exact ⟨[], by simp [Node.apply]⟩

/- What happens at the node is passed on to the driver. -/
theorem wired_apply
    (airtimeUs : Nat → UInt32)
    (p : Process)
    {e : Node.Event HostAdmin}
    (hModest :
      Modest ⟨p.node, e, Node.apply p.node e⟩) :
    ∃ us,
      Wired airtimeUs p
        [⟨p.node, e, Node.apply p.node e⟩] us
        (p.apply airtimeUs e) := by
  rcases history_of_node p.node e with ⟨acts, hHistory⟩
  have hActs :
      p.node.2.actsSince (Node.apply p.node e).2 = acts := by
    rw [Router.actsSince, hHistory, List.drop_left]
  let calls :=
    (acts.filterMap Act.enqueued).map fun sent =>
      DriverCall.send sent.2 sent.1
  have hTraffic :
      (p.apply airtimeUs e).traffic =
        calls.foldl (Traffic.call airtimeUs) p.traffic := by
    simp only [Process.apply, hActs, calls, List.foldl_map]
  refine ⟨replay (Traffic.call airtimeUs) p.traffic calls,
    { node := .single rfl
      traffic := ?_
      handed := ⟨acts, hHistory, ?_⟩
      modest := ?_
      config := rfl }⟩
  · rw [hTraffic]
    apply run_replay_of_guard
    intro u hu
    have hCall : u.event ∈ calls := by
      rw [← events_replay (Traffic.call airtimeUs) p.traffic
        calls]
      exact List.mem_map_of_mem hu
    rcases List.mem_map.mp hCall with ⟨sent, -, hSend⟩
    rw [← hSend]
    trivial
  · have hEvents :=
      congrArg (List.filterMap DriverCall.offer)
        (events_replay (Traffic.call airtimeUs) p.traffic
          calls)
    rw [List.filterMap_map] at hEvents
    refine hEvents.trans ?_
    rw [List.filterMap_map]
    exact List.filterMap_some
  · intro t ht
    rw [List.mem_singleton.mp ht]
    exact hModest

------------------------------------------------------------
-- A Turn Of The Loop
------------------------------------------------------------

theorem goes_refl (p : Process) : Goes airtimeUs p [] p :=
  ⟨[], [], rfl, wired_refl p⟩

theorem Goes.trans
    {es es' : List (Node.Event HostAdmin)}
    (hFirst : Goes airtimeUs p es p')
    (hThen : Goes airtimeUs p' es' p'') :
    Goes airtimeUs p (es ++ es') p'' := by
  rcases hFirst with ⟨ts, us, rfl, hFirst⟩
  rcases hThen with ⟨ts', us', rfl, hThen⟩
  exact ⟨_, _, List.map_append, hFirst.trans hThen⟩

/- The timers, the files and the flag are not wired. -/
theorem Goes.congr
    {es : List (Node.Event HostAdmin)}
    (hGoes : Goes airtimeUs p es p')
    (hNode : p''.node = p'.node)
    (hTraffic : p''.traffic = p'.traffic)
    (hConfig : p''.config = p'.config) :
    Goes airtimeUs p es p'' := by
  rcases hGoes with ⟨ts, us, hEvents, hWired⟩
  exact ⟨ts, us, hEvents,
    { node := hNode ▸ hWired.node
      traffic := hTraffic ▸ hWired.traffic
      handed := hNode ▸ hWired.handed
      modest := hWired.modest
      config := hConfig.trans hWired.config }⟩

variable (airtimeUs sign)

theorem goes_apply
    (p : Process)
    {e : Node.Event HostAdmin}
    (hModest :
      Modest ⟨p.node, e, Node.apply p.node e⟩) :
    Goes airtimeUs p [e] (p.apply airtimeUs e) := by
  rcases wired_apply airtimeUs p hModest with
    ⟨us, hWired⟩
  exact ⟨_, us, rfl, hWired⟩

/- A call that sends nothing is the driver's own. -/
theorem goes_call
    (p : Process)
    {c : DriverCall}
    (hTime : p.traffic.InTime c)
    (hSilent : c.offer = none) :
    Goes airtimeUs p []
      { p with traffic := p.traffic.call airtimeUs c } :=
  ⟨[], [⟨p.traffic, c, p.traffic.call airtimeUs c⟩], rfl,
    { node := .start
      traffic := .single ⟨hTime, rfl⟩
      handed := ⟨[], by simp, by
        simp [Traffic.offered, hSilent]⟩
      modest := by
        intro t ht
        cases ht
      config := rfl }⟩

/- Sending does not move the clock of a driver. -/
theorem now_apply
    (p : Process)
    (e : Node.Event HostAdmin) :
    (p.apply airtimeUs e).device.now = p.device.now := by
  simp only [Process.apply, device]
  generalize (p.node.2.actsSince
    (Node.apply p.node e).2).filterMap Act.enqueued = sent
  generalize p.traffic = traffic
  induction sent generalizing traffic with
  | nil => rfl
  | cons one sent ih =>
      rw [List.foldl_cons, ih]
      exact Driver.now_withAir _ _

theorem goes_hear
    (p : Process)
    (heard : List Arrival) :
    Goes airtimeUs p (heard.map (heardAs airtimeUs))
        (heard.foldl (hear airtimeUs) p) ∧
      (heard.foldl (hear airtimeUs) p).device.now =
        p.device.now := by
  induction heard generalizing p with
  | nil => exact ⟨goes_refl p, rfl⟩
  | cons one heard ih =>
      rcases ih (p.hear airtimeUs one) with ⟨hGoes, hNow⟩
      have hFirst :
          Goes airtimeUs p [heardAs airtimeUs one]
            (p.hear airtimeUs one) := by
        apply goes_apply airtimeUs p
        intro host hHost
        cases hHost
      exact ⟨hFirst.trans hGoes,
        hNow.trans (now_apply airtimeUs p _)⟩

omit [CryptoCore] in
theorem receives_prefix
    (d : Driver)
    (arrivals : List Arrival) :
    d.receives arrivals <+: arrivals := by
  cases d with
  | virtual r => exact List.nil_prefix
  | udp r =>
      simp only [Driver.receives]
      split
      · exact List.prefix_rfl
      · exact List.nil_prefix
  | sx1262 r =>
      simp only [Driver.receives]
      split
      · exact List.take_prefix _ _
      · exact List.nil_prefix

theorem goes_tickDevice
    {m : Moment}
    (hTime : p.device.now ≤ m.now) :
    ∃ heard,
      heard <+: m.arrivals ∧
        Goes airtimeUs p (heard.map (heardAs airtimeUs))
          (p.tickDevice airtimeUs m) ∧
        (p.tickDevice airtimeUs m).device.now = m.now := by
  rcases goes_hear airtimeUs p
      (p.device.receives m.arrivals) with
    ⟨hGoes, hNow⟩
  refine ⟨_, receives_prefix p.device m.arrivals, ?_, ?_⟩
  · rw [← List.append_nil (List.map _ _)]
    apply hGoes.trans
    apply goes_call airtimeUs _ _ rfl
    exact hNow.trans_le hTime
  · exact Driver.now_tick airtimeUs _ _ _ _

/- A driver can be asked for its gauge at any time. -/
theorem goes_askLoad (p : Process) :
    Goes airtimeUs p [] (p.askLoad airtimeUs) ∧
      (p.askLoad airtimeUs).device.now = p.device.now := by
  have hAsked :
      Goes airtimeUs p []
          { p with
            traffic :=
              p.traffic.call airtimeUs .usedPermille } ∧
        (p.traffic.call airtimeUs
          .usedPermille).driver.now = p.device.now :=
    ⟨goes_call airtimeUs p trivial rfl,
      Driver.now_withAir _ _⟩
  simp only [askLoad]
  split
  · exact ⟨goes_refl p, rfl⟩
  · exact hAsked

theorem goes_reportLoad (p : Process) :
    ∃ permille,
      Goes airtimeUs p [.radioLoad permille]
        (p.reportLoad airtimeUs) := by
  refine ⟨usedPermilleOf p.device, ?_⟩
  apply (goes_askLoad airtimeUs p).1.trans
  apply goes_apply
  intro host hHost
  cases hHost

/- What sends adverts asks for nothing else. -/
theorem goes_sendAdvert
    (p : Process)
    (m : Moment) :
    ∃ rest,
      (∀ e ∈ rest, ∃ payload, e = .advert payload) ∧
        Goes airtimeUs p rest
          (p.sendAdvert airtimeUs sign m) := by
  simp only [sendAdvert]
  split
  · exact ⟨[], by simp,
      (goes_refl p).congr rfl rfl rfl⟩
  · refine ⟨[_], ?_,
      (goes_apply airtimeUs p ?_).congr rfl rfl rfl⟩
    · intro e he
      exact ⟨_, List.mem_singleton.mp he⟩
    · intro host hHost
      cases hHost

theorem goes_advertise
    (p : Process)
    (m : Moment) :
    ∃ rest,
      (∀ e ∈ rest,
        (∃ payload, e = .advert payload) ∨
          ∃ host, e = .host host) ∧
        Goes airtimeUs p rest
          (p.advertise airtimeUs sign m) := by
  simp only [advertise]
  split
  · rcases goes_sendAdvert airtimeUs sign p m with
      ⟨rest, hRest, hGoes⟩
    exact ⟨rest, fun e he => .inl (hRest e he), hGoes⟩
  · have hTaken :
        Goes airtimeUs p
          [.host p.admin.takeAdvertRequest.2]
          (p.apply airtimeUs
            (.host p.admin.takeAdvertRequest.2)) := by
      apply goes_apply airtimeUs p
      intro host hHost
      injection hHost with hHost
      exact .inr hHost.symm
    split
    · rcases goes_sendAdvert airtimeUs sign
          (p.apply airtimeUs
            (.host p.admin.takeAdvertRequest.2)) m with
        ⟨rest, hRest, hGoes⟩
      refine ⟨_, ?_, hTaken.trans hGoes⟩
      intro e he
      rcases List.mem_cons.mp he with rfl | he
      · exact .inr ⟨_, rfl⟩
      · exact .inl (hRest e he)
    · refine ⟨_, ?_, hTaken⟩
      intro e he
      exact .inr ⟨_, List.mem_singleton.mp he⟩

theorem goes_flush (p : Process) (m : Moment) :
    Goes airtimeUs p [] (p.flush m) := by
  simp only [flush]
  split
  · exact (goes_refl p).congr rfl rfl rfl
  · exact goes_refl p

theorem goes_report (p : Process) (m : Moment) :
    Goes airtimeUs p [] (p.report airtimeUs m) := by
  simp only [report]
  split
  · exact (goes_askLoad airtimeUs p).1.congr rfl rfl rfl
  · exact goes_refl p

theorem goes_work
    {m : Moment}
    (hTime : p.device.now ≤ m.now) :
    ∃ es,
      TurnOf airtimeUs m es ∧
        Goes airtimeUs p es
          (p.work airtimeUs sign m) := by
  have hTicked :
      Goes airtimeUs p [.host (p.admin.tick m.now)]
        (p.apply airtimeUs (.host (p.admin.tick m.now))) := by
    apply goes_apply airtimeUs p
    intro host hHost
    injection hHost with hHost
    exact .inl ⟨m.now, hHost.symm⟩
  have hPlain :
      ∀ (q : Process) (e : Node.Event HostAdmin),
        (∀ host, e ≠ .host host) →
          Goes airtimeUs q [e] (q.apply airtimeUs e) := by
    intro q e hOther
    apply goes_apply airtimeUs q
    intro host hHost
    exact absurd hHost (hOther host)
  rw [← now_apply airtimeUs p
    (.host (p.admin.tick m.now))] at hTime
  rcases goes_tickDevice airtimeUs hTime with
    ⟨heard, hHeard, hDevice, -⟩
  let q := (p.apply airtimeUs
    (.host (p.admin.tick m.now))).tickDevice airtimeUs m
  have hRouted :=
    (hPlain q (.routing m.now) (by simp)).trans
      (hPlain _ (.serverTime m.wall) (by simp))
  rcases goes_reportLoad airtimeUs
      ((q.apply airtimeUs (.routing m.now)).apply airtimeUs
        (.serverTime m.wall)) with
    ⟨permille, hLoad⟩
  have hBoard := hRouted.trans
    (hLoad.trans (hPlain _ (.board m.now) (by simp)))
  rcases goes_advertise airtimeUs sign _ m with
    ⟨rest, hRest, hAdverts⟩
  refine ⟨_,
    ⟨p.admin.tick m.now, heard, permille, rest, ?_, hHeard,
      hRest⟩,
    ((hTicked.trans hDevice).trans hBoard).trans hAdverts⟩
  rfl

theorem goes_turn
    {m : Moment}
    (hTime : p.device.now ≤ m.now) :
    ∃ es,
      TurnOf airtimeUs m es ∧
        Goes airtimeUs p es
          (p.turn airtimeUs sign m) := by
  rcases goes_work airtimeUs sign hTime with
    ⟨es, hTurn, hGoes⟩
  refine ⟨es, hTurn, ?_⟩
  simp only [turn]
  split
  · exact hGoes.congr rfl rfl rfl
  · rw [← List.append_nil es]
    exact hGoes.trans
      ((goes_flush airtimeUs _ m).trans
        (goes_report airtimeUs _ m))

/- Turn by turn, from the first. -/
theorem goes_loop
    {ms : List (Transition Process Moment)}
    (hRun : Run (Step airtimeUs sign) p ms p') :
    ∃ ess,
      List.Forall₂
          (fun t es => TurnOf airtimeUs t.event es) ms ess ∧
        Goes airtimeUs p ess.flatten p' := by
  induction hRun with
  | start => exact ⟨[], .nil, goes_refl p⟩
  | step hRun hStep ih =>
      rcases ih with ⟨ess, hTurns, hGoes⟩
      rcases hStep with ⟨⟨-, hTime⟩, rfl⟩
      rcases goes_turn airtimeUs sign hTime with
        ⟨es, hTurn, hThen⟩
      refine ⟨ess ++ [es],
        List.rel_append hTurns (.cons hTurn .nil), ?_⟩
      rw [List.flatten_append, List.flatten_singleton]
      exact hGoes.trans hThen

/-
  What goes on the air is what the router handed over, from
  the start of the program on: all of it was on the air, was
  dropped as no frame, waits, or was turned away at a full
  queue, and the air is never used beyond the duty cycle.
-/
theorem radio_speaks_for_router
    {percent : UInt8} {window : Millis} {depth : Nat}
    {d : Driver} {node : Node HostAdmin}
    {config : LoopConfig}
    {ms : List (Transition Process Moment)}
    (hPercent : percent < 100)
    (hNew : Traffic.New percent window depth d)
    (hRun :
      Run (Step airtimeUs sign)
        { node := node
          traffic := { driver := d }
          config := config }
        ms p)
    (hClear : p.device.now.toNat + window.toNat < 2 ^ 64) :
    ∃ us,
      Traffic.offered us =
          (node.2.actsSince p.node.2).filterMap
            Act.enqueued ∧
        Traffic.Conserves d us p.traffic ∧
        ∀ t,
          Window.spentIn
              (fun slot : Slot => slot.atMs.toNat)
              (fun slot => slot.airtimeUs.toNat)
              window.toNat (slotsOf p.traffic.turns) t ≤
            window.toNat * 1000 * percent.toNat / 100 := by
  rcases goes_loop airtimeUs sign hRun with
    ⟨ess, -, ts, us, -, hWired⟩
  refine ⟨us, ?_, ?_, ?_⟩
  · rcases hWired.handed with ⟨acts, hHistory, hOffered⟩
    rw [hOffered, Router.actsSince, hHistory, List.drop_left]
  · have hCalls :=
      hWired.traffic.mono fun s c s' hStep => hStep.2
    have hAll :=
      (Traffic.conserves_new (congrArg _ hNew.2)).run
        airtimeUs hCalls
    rwa [List.nil_append] at hAll
  · exact Traffic.never_overspent airtimeUs hPercent hNew
      hWired.traffic hClear

end Turns

section Example

open Sample

/- A node that has just been started, on a quiet radio. -/
def started : Process where
  node := (phrasedRoom, .ofByte 2)
  traffic :=
    { driver :=
        .udp
          { air :=
              { duty := { percent := 10, window := 20000 }
                queue := { depth := 16 } }
            socket := true } }

/- A stand-in for what signs our adverts. -/
def blankSign (_ : PrivateKey) (_ : Bytes) : Signature :=
  Vector.replicate packetSignatureSize 0

/- The first turn queues our advert, the next one sends it. -/
def twoTurns : List Moment :=
  [{ now := 1 }, { now := 2 }]

def afterTurns : Process :=
  twoTurns.foldl (turn Traffic.shortAirtimeUs blankSign)
    started

theorem runs_twoTurns :
    Run (Step Traffic.shortAirtimeUs blankSign) started
      (replay (turn Traffic.shortAirtimeUs blankSign)
        started twoTurns)
      afterTurns :=
  run_replay_of_guard _ _ _ (by decide +kernel)

theorem new_started :
    Traffic.New 10 20000 16 started.device :=
  ⟨rfl, rfl⟩

/- The advert of the first turn goes out in the second. -/
theorem first_advert_is_on_the_air :
    (sentIn afterTurns.traffic.turns).length = 1 ∧
      ∃ us,
        Traffic.offered us =
            (started.node.2.actsSince
              afterTurns.node.2).filterMap Act.enqueued ∧
          Traffic.Conserves started.device us
            afterTurns.traffic ∧
          ∀ t,
            Window.spentIn
                (fun slot : Slot => slot.atMs.toNat)
                (fun slot => slot.airtimeUs.toNat)
                (20000 : Millis).toNat
                (slotsOf afterTurns.traffic.turns) t ≤
              (20000 : Millis).toNat * 1000 *
                (10 : UInt8).toNat / 100 := by
  refine ⟨by decide +kernel, ?_⟩
  exact radio_speaks_for_router Traffic.shortAirtimeUs
    blankSign (by decide) new_started runs_twoTurns
    (by decide +kernel)

end Example

end Process

end MeshCore
