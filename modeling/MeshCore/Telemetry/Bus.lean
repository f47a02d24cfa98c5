import MeshCore.Library.Queue
import MeshCore.Library.Run

/-
  The telemetry bus and the collector that drains it. The
  bus is a queue: what is polled is what was accepted, in
  order, and what does not fit is refused and counted.

  The texts of the metrics are left out.

  Key definitions include:
    * `Telemetry.Bus`, `Telemetry.Bus.publish`,
      `Telemetry.Bus.poll`
    * `Telemetry.Collector.drain`
    * `Telemetry.Bus.Step`, `Telemetry.Reporting.apply`
    * `Telemetry.Bus.Queued`

  Key facts include:
    * `Telemetry.Bus.publish_cases`
    * `Telemetry.Bus.run_queued`
    * `Telemetry.Collector.drain_polls`
    * `Telemetry.Reporting.run_polls`
    * `Telemetry.bus_is_bounded_queue`
-/

namespace MeshCore

namespace Telemetry

------------------------------------------------------------
-- Events and Counters
------------------------------------------------------------

inductive EventType where
| frameRx
| frameTx
| frameDuplicate
| decryptFailed
| forwarded
| forwardRefused
| ackTimeout
| contactAdded
| clientLogin
| postAdded
| routeReset
| advertEchoed
| count
deriving DecidableEq

def EventType.toNat : EventType → Nat
| .frameRx => 0
| .frameTx => 1
| .frameDuplicate => 2
| .decryptFailed => 3
| .forwarded => 4
| .forwardRefused => 5
| .ackTimeout => 6
| .contactAdded => 7
| .clientLogin => 8
| .postAdded => 9
| .routeReset => 10
| .advertEchoed => 11
| .count => 12

theorem EventType.toNat_inj
    {type other : EventType}
    (hSame : type.toNat = other.toNat) :
    type = other := by
  cases type <;> cases other <;>
    first | rfl | contradiction

structure Event where
  type : EventType := .frameRx
  time : UInt32 := 0
  detail : UInt32 := 0
deriving DecidableEq

structure Counters where
  byType : Vector UInt64 EventType.count.toNat :=
    Vector.replicate _ 0
  txQueueDepth : UInt32 := 0
  dutyCyclePermille : UInt32 := 0
  dropped : UInt64 := 0
deriving DecidableEq

/- One more of a type, if it is a type that is counted. -/
def Counters.bump
    (counters : Counters)
    (type : EventType) :
    Counters :=
  if hType : type.toNat < EventType.count.toNat then
    { counters with
      byType :=
        counters.byType.set type.toNat
          (counters.byType[type.toNat] + 1) }
  else counters

------------------------------------------------------------
-- The Bus
------------------------------------------------------------

structure Bus extends RingQueue Event where
  dropped : UInt64 := 0
deriving DecidableEq

namespace Bus

/- A capacity of zero is made one. -/
def create (capacity : Nat) : Bus :=
  { RingQueue.blank
      ((if capacity = 0 then 1 else capacity) - 1) {} with }

def pending (bus : Bus) : Nat :=
  bus.count

def publish (bus : Bus) (event : Event) : Bus :=
  match bus.push event with
  | none => { bus with dropped := bus.dropped + 1 }
  | some queue => { bus with toRingQueue := queue }

def poll (bus : Bus) : Option (Event × Bus) :=
  bus.pop.map fun (event, queue) =>
    (event, { bus with toRingQueue := queue })

@[simp] theorem length_create (capacity : Nat) :
    (create capacity).ring.length = max 1 capacity := by
  simp only [create, RingQueue.blank,
    List.length_replicate]
  split <;> omega

@[simp] theorem waiting_create (capacity : Nat) :
    (create capacity).waiting = [] :=
  RingQueue.waiting_blank _ _

/-
  All a publish can do: on a full bus it counts the event as
  dropped, and else the event waits behind all the others.
-/
theorem publish_cases (bus : Bus) (event : Event) :
    (bus.pending = bus.ring.length ∧
      bus.publish event =
        { bus with dropped := bus.dropped + 1 }) ∨
    (bus.pending ≠ bus.ring.length ∧
      (bus.publish event).waiting =
        bus.waiting ++ [event] ∧
      (bus.publish event).ring.length = bus.ring.length ∧
      (bus.publish event).dropped = bus.dropped) := by
  have hFull :
      bus.push event = none ↔
        bus.pending = bus.ring.length := by
    rw [RingQueue.push_eq_none_iff,
      RingQueue.length_waiting]
    rfl
  cases hPush : bus.push event with
  | none =>
      left
      refine ⟨hFull.mp hPush, ?_⟩
      rw [publish, hPush]
  | some queue =>
      right
      have hWaits := RingQueue.waiting_of_push hPush
      rw [publish, hPush]
      refine ⟨?_, hWaits.1, hWaits.2, rfl⟩
      intro hPending
      rw [hFull.mpr hPending] at hPush
      contradiction

/- What is polled waited before all the others. -/
theorem poll_eq_some
    {bus bus' : Bus} {event : Event}
    (hPoll : bus.poll = some (event, bus')) :
    bus.waiting = event :: bus'.waiting ∧
      bus'.ring.length = bus.ring.length ∧
      bus'.dropped = bus.dropped := by
  rw [poll, Option.map_eq_some_iff] at hPoll
  rcases hPoll with ⟨⟨first, queue⟩, hPop, hEq⟩
  rw [Prod.mk.injEq] at hEq
  rcases hEq with ⟨rfl, rfl⟩
  have hWaits := RingQueue.waiting_of_pop hPop
  exact ⟨hWaits.1, hWaits.2, rfl⟩

theorem poll_eq_none_iff {bus : Bus} :
    bus.poll = none ↔ bus.waiting = [] := by
  rw [poll, Option.map_eq_none_iff,
    RingQueue.pop_eq_none_iff]

------------------------------------------------------------
-- Its Runs
------------------------------------------------------------

/- What is called, and what a poll gives back. -/
inductive Call where
| publish (event : Event)
| poll (out : Option Event)
deriving DecidableEq

inductive Step : Bus → Call → Bus → Prop where
| publish {bus : Bus} {event : Event} :
    Step bus (.publish event) (bus.publish event)
| poll
    {bus bus' : Bus} {event : Event}
    (hPoll : bus.poll = some (event, bus')) :
    Step bus (.poll (some event)) bus'
| empty
    {bus : Bus}
    (hPoll : bus.poll = none) :
    Step bus (.poll none) bus

/- The events that were published. -/
def published (ts : List (Transition Bus Call)) :
    List Event :=
  ts.filterMap fun t =>
    match t.event with
    | .publish event => some event
    | .poll _ => none

/- The events whose publish dropped nothing. -/
def accepted (ts : List (Transition Bus Call)) :
    List Event :=
  ts.filterMap fun t =>
    match t.event with
    | .publish event =>
        if t.after.dropped = t.before.dropped then
          some event
        else none
    | .poll _ => none

/- The events whose publish dropped one. -/
def refused (ts : List (Transition Bus Call)) :
    List Event :=
  ts.filterMap fun t =>
    match t.event with
    | .publish event =>
        if t.after.dropped = t.before.dropped then none
        else some event
    | .poll _ => none

/- The events that were polled. -/
def polled (ts : List (Transition Bus Call)) :
    List Event :=
  ts.filterMap fun t =>
    match t.event with
    | .publish _ => none
    | .poll out => out

/- How a bus stands to the calls that were made of it. -/
structure Queued
    (capacity : Nat)
    (ts : List (Transition Bus Call))
    (bus : Bus) :
    Prop where
  size : bus.ring.length = max 1 capacity
  order : polled ts ++ bus.waiting = accepted ts
  dropped : bus.dropped = UInt64.ofNat (refused ts).length

variable {capacity : Nat} {ts us : List (Transition Bus Call)}
variable {bus bus' : Bus} {call : Call}

/- Every event that is published is accepted or refused. -/
theorem length_published
    (ts : List (Transition Bus Call)) :
    (published ts).length =
      (accepted ts).length + (refused ts).length := by
  induction ts with
  | nil => rfl
  | cons t ts ih =>
      rcases t with ⟨before, event | out, after⟩
      · by_cases hSame : after.dropped = before.dropped
        · simp only [published, accepted, refused,
            List.filterMap_cons, if_pos hSame,
            List.length_cons] at ih ⊢
          omega
        · simp only [published, accepted, refused,
            List.filterMap_cons, if_neg hSame,
            List.length_cons] at ih ⊢
          omega
      · exact ih

/- Each call keeps a bus in step with its history. -/
theorem Queued.step
    (hQueued : Queued capacity ts bus)
    (hStep : Step bus call bus') :
    Queued capacity (ts ++ [⟨bus, call, bus'⟩]) bus' := by
  cases hStep with
  | @publish event =>
      rcases publish_cases bus event with
        ⟨hFull, hEq⟩ | ⟨hRoom, hWaits, hSize, hSame⟩
      · -- one more is dropped, and nothing else changes
        have hOther : bus.dropped + 1 ≠ bus.dropped := by
          simp
        rw [hEq]
        refine ⟨hQueued.size, ?_, ?_⟩
        · simpa [polled, accepted, hOther] using hQueued.order
        · simp only [refused, List.filterMap_append,
            List.filterMap_cons, if_neg hOther,
            List.filterMap_nil, List.length_append,
            List.length_singleton, UInt64.ofNat_add]
          rw [hQueued.dropped]
          rfl
      · refine ⟨hSize.trans hQueued.size, ?_, ?_⟩
        · have hBehind :=
            congrArg (· ++ [event]) hQueued.order
          rw [hWaits]
          simpa [polled, accepted, hSame] using hBehind
        · simpa [refused, hSame] using hQueued.dropped
  | @poll _ event hPoll =>
      rcases poll_eq_some hPoll with ⟨hWaits, hSize, hSame⟩
      refine ⟨hSize.trans hQueued.size, ?_, ?_⟩
      · have hOrder := hQueued.order
        rw [hWaits] at hOrder
        simpa [polled, accepted] using hOrder
      · simpa [refused, hSame] using hQueued.dropped
  | empty hPoll =>
      refine ⟨hQueued.size, ?_, ?_⟩
      · simpa [polled, accepted] using hQueued.order
      · simpa [refused] using hQueued.dropped

/- The run lemma: a bus is its history, from the start. -/
theorem run_queued
    (hRun : Run Step (create capacity) ts bus) :
    Queued capacity ts bus := by
  induction hRun with
  | start => exact ⟨length_create capacity, rfl, rfl⟩
  | step _ hStep ih => exact ih.step hStep

/- What a bus promises whoever publishes to it and polls. -/
structure Serves
    (capacity : Nat)
    (ts : List (Transition Bus Call))
    (bus : Bus) :
    Prop where
  order : polled ts ++ bus.waiting = accepted ts
  refuses :
    ∀ t ∈ ts, ∀ event, t.event = .publish event →
      (t.after.dropped ≠ t.before.dropped ↔
        t.before.waiting.length = max 1 capacity)
  keeps :
    ∀ t ∈ ts, ∀ event, t.event = .publish event →
      t.after.dropped ≠ t.before.dropped →
        t.after.toRingQueue = t.before.toRingQueue
  balance :
    (published ts).length =
      (polled ts).length + bus.pending +
        (refused ts).length
  dropped : bus.dropped = UInt64.ofNat (refused ts).length

/- Only a full bus refuses, and it leaves the queue alone. -/
theorem publish_refuses
    (bus : Bus)
    (event : Event) :
    ((bus.publish event).dropped ≠ bus.dropped ↔
      bus.waiting.length = bus.ring.length) ∧
    ((bus.publish event).dropped ≠ bus.dropped →
      (bus.publish event).toRingQueue =
        bus.toRingQueue) := by
  have hPending : bus.waiting.length = bus.pending :=
    RingQueue.length_waiting _
  rw [hPending]
  rcases publish_cases bus event with
    ⟨hFull, hEq⟩ | ⟨hRoom, _, _, hSame⟩
  · rw [hEq]
    exact ⟨by simpa using hFull, fun _ => rfl⟩
  · rw [hSame]
    exact ⟨by simpa using hRoom, by simp⟩

theorem run_serves
    (hRun : Run Step (create capacity) ts bus) :
    Serves capacity ts bus := by
  have hQueued := run_queued hRun
  -- a publish of the run, and the size it found
  have hPublish :
      ∀ t ∈ ts, ∀ event, t.event = .publish event →
        t.after = t.before.publish event ∧
          t.before.ring.length = max 1 capacity := by
    intro t ht event hEvent
    rcases hRun.before_of_mem ht with ⟨_, _, _, hBefore⟩
    have hSize := (run_queued hBefore).size
    have hStep := hRun.step_of_mem ht
    rw [hEvent] at hStep
    generalize hAfter : t.after = after at hStep
    cases hStep
    exact ⟨rfl, hSize⟩
  refine ⟨hQueued.order, ?_, ?_, ?_, hQueued.dropped⟩
  · intro t ht event hEvent
    rcases hPublish t ht event hEvent with ⟨hAfter, hSize⟩
    rw [hAfter, ← hSize]
    exact (publish_refuses t.before event).1
  · intro t ht event hEvent
    rw [(hPublish t ht event hEvent).1]
    exact (publish_refuses t.before event).2
  · have hLength := congrArg List.length hQueued.order
    rw [List.length_append,
      RingQueue.length_waiting] at hLength
    have hPublished := length_published ts
    rw [pending]
    omega

end Bus

------------------------------------------------------------
-- The Collector
------------------------------------------------------------

structure Collector where
  counters : Counters := {}
deriving DecidableEq

namespace Collector

/- An event of the bus is counted under its type. -/
def take (collector : Collector) (event : Event) :
    Collector :=
  { collector with
    counters := collector.counters.bump event.type }

/- The loop of a drain, for as many turns as are given. -/
def pollAll :
    Nat → Collector → Bus → Collector × Bus
| 0, collector, bus => (collector, bus)
| turns + 1, collector, bus =>
    match bus.poll with
    | none => (collector, bus)
    | some (event, bus') =>
        pollAll turns (collector.take event) bus'

/- Poll until nothing waits: one turn for each event. -/
def drain (collector : Collector) (bus : Bus) :
    Collector × Bus :=
  let (collector', bus') :=
    pollAll bus.pending collector bus
  ({ collector' with
      counters :=
        { collector'.counters with
          dropped := bus'.dropped } },
    bus')

def observe
    (collector : Collector)
    (txQueueDepth dutyCyclePermille : UInt32) :
    Collector :=
  { collector with
    counters :=
      { collector.counters with
        txQueueDepth := txQueueDepth
        dutyCyclePermille := dutyCyclePermille } }

end Collector

/- How many events are of a type, as the counters count. -/
def countOf (type : EventType) (events : List Event) :
    UInt64 :=
  UInt64.ofNat
    (events.countP fun event => event.type = type)

theorem countOf_append
    (type : EventType)
    (events more : List Event) :
    countOf type (events ++ more) =
      countOf type events + countOf type more := by
  rw [countOf, List.countP_append, UInt64.ofNat_add]
  rfl

/- The counters of the types are those of some events. -/
def Counters.Tally
    (counters : Counters)
    (events : List Event) :
    Prop :=
  ∀ (type : EventType)
    (hType : type.toNat < EventType.count.toNat),
    counters.byType[type.toNat] = countOf type events

/- One event more is counted under its type alone. -/
theorem Counters.Tally.take
    {collector : Collector}
    {events : List Event}
    (hTally : collector.counters.Tally events)
    (event : Event) :
    (collector.take event).counters.Tally
      (events ++ [event]) := by
  intro type hType
  rw [countOf_append, ← hTally type hType, Collector.take,
    Counters.bump]
  by_cases hSame : event.type = type
  · subst hSame
    have hOne : countOf event.type [event] = 1 := by
      simp [countOf]
    simp [hType, hOne]
  · have hNone : countOf type [event] = 0 := by
      simp [countOf, hSame]
    have hOther : event.type.toNat ≠ type.toNat :=
      mt EventType.toNat_inj hSame
    split
    · simp [hNone, hOther]
    · simp [hNone]

/-
  A drain is a run of polls: all that waits is polled and
  tallied, and nothing is published.
-/
theorem Collector.pollAll_polls
    {turns : Nat}
    {collector : Collector}
    {bus : Bus}
    {events : List Event}
    (hTurns : bus.waiting.length ≤ turns)
    (hTally : collector.counters.Tally events) :
    ∃ us,
      Run Bus.Step bus us (pollAll turns collector bus).2 ∧
        Bus.accepted us = [] ∧
        Bus.refused us = [] ∧
        (pollAll turns collector bus).2.waiting = [] ∧
        (pollAll turns collector bus).1.counters.Tally
          (events ++ Bus.polled us) := by
  induction turns generalizing collector bus events with
  | zero =>
      have hNothing : bus.waiting = [] :=
        List.length_eq_zero_iff.mp (Nat.le_zero.mp hTurns)
      refine ⟨[], .start, rfl, rfl, hNothing, ?_⟩
      simpa [Bus.polled, pollAll] using hTally
  | succ turns ih =>
      cases hPoll : bus.poll with
      | none =>
          rw [pollAll, hPoll]
          refine ⟨[], .start, rfl, rfl,
            Bus.poll_eq_none_iff.mp hPoll, ?_⟩
          simpa [Bus.polled] using hTally
      | some next =>
          rcases next with ⟨event, bus'⟩
          have hWaits := (Bus.poll_eq_some hPoll).1
          rw [hWaits, List.length_cons] at hTurns
          rw [pollAll, hPoll]
          have hFewer : bus'.waiting.length ≤ turns := by
            omega
          rcases ih hFewer (hTally.take event) with
            ⟨us, hRun, hAccepted, hRefused, hEmpty, hCount⟩
          refine ⟨⟨bus, .poll (some event), bus'⟩ :: us,
            (Run.single (.poll hPoll)).trans hRun,
            hAccepted, hRefused, hEmpty, ?_⟩
          rw [List.append_assoc] at hCount
          exact hCount

------------------------------------------------------------
-- Reporting
------------------------------------------------------------

/- A bus, and the one collector that polls it. -/
structure Reporting where
  bus : Bus
  collector : Collector := {}
deriving DecidableEq

namespace Reporting

inductive Call where
| publish (event : Event)
| drain
| observe (txQueueDepth dutyCyclePermille : UInt32)
deriving DecidableEq

def create (capacity : Nat) : Reporting :=
  { bus := .create capacity }

def drain (s : Reporting) : Reporting :=
  { bus := (s.collector.drain s.bus).2
    collector := (s.collector.drain s.bus).1 }

def apply (s : Reporting) : Call → Reporting
| .publish event => { s with bus := s.bus.publish event }
| .drain => s.drain
| .observe txQueueDepth dutyCyclePermille =>
    { s with
      collector :=
        s.collector.observe txQueueDepth
          dutyCyclePermille }

def Step (s : Reporting) (call : Call) (s' : Reporting) :
    Prop :=
  s.apply call = s'

/- The publishes among the calls, as the bus sees them. -/
def publishes (ts : List (Transition Reporting Call)) :
    List (Transition Bus Bus.Call) :=
  ts.filterMap fun t =>
    match t.event with
    | .publish event =>
        some ⟨t.before.bus, .publish event, t.after.bus⟩
    | _ => none

/- What the bus has been through since it was empty. -/
structure Polls
    (capacity : Nat)
    (ts : List (Transition Reporting Call))
    (s : Reporting)
    (us : List (Transition Bus Bus.Call)) :
    Prop where
  run : Run Bus.Step (Bus.create capacity) us s.bus
  accepted : Bus.accepted us = Bus.accepted (publishes ts)
  refused : Bus.refused us = Bus.refused (publishes ts)
  tally : s.collector.counters.Tally (Bus.polled us)

variable {capacity : Nat} {s s' : Reporting} {call : Call}
variable {ts : List (Transition Reporting Call)}
variable {us : List (Transition Bus Bus.Call)}

/- A drain goes on from the calls that were made before. -/
theorem Polls.drain
    (hPolls : Polls capacity ts s us) :
    ∃ vs,
      Polls capacity ts s.drain vs ∧
        s.drain.bus.waiting = [] := by
  have hTurns : s.bus.waiting.length ≤ s.bus.pending :=
    Nat.le_of_eq (RingQueue.length_waiting _)
  rcases Collector.pollAll_polls hTurns hPolls.tally with
    ⟨vs, hRun, hAccepted, hRefused, hEmpty, hTally⟩
  refine ⟨us ++ vs, ⟨hPolls.run.trans hRun, ?_, ?_, ?_⟩,
    hEmpty⟩
  · rw [Bus.accepted, List.filterMap_append]
    exact (congrArg _ hAccepted).trans
      ((List.append_nil _).trans hPolls.accepted)
  · rw [Bus.refused, List.filterMap_append]
    exact (congrArg _ hRefused).trans
      ((List.append_nil _).trans hPolls.refused)
  · rw [Bus.polled, List.filterMap_append]
    exact hTally

/- Each call is a few calls of the bus. -/
theorem Polls.step
    (hPolls : Polls capacity ts s us)
    (hStep : Step s call s') :
    ∃ vs,
      Polls capacity (ts ++ [⟨s, call, s'⟩]) s' vs := by
  subst hStep
  have hQuiet :
      ∀ (c : Call), (∀ event, c ≠ .publish event) →
        publishes (ts ++ [⟨s, c, s.apply c⟩]) =
          publishes ts := by
    intro c hOther
    cases c with
    | publish event => exact absurd rfl (hOther event)
    | drain => simp [publishes]
    | observe => simp [publishes]
  cases call with
  | publish event =>
      refine ⟨us ++ [⟨s.bus, .publish event,
        s.bus.publish event⟩],
        hPolls.run.step .publish, ?_, ?_, ?_⟩
      · have hBefore := hPolls.accepted
        simp only [Bus.accepted, publishes,
          List.filterMap_append] at hBefore ⊢
        rw [hBefore]
        rfl
      · have hBefore := hPolls.refused
        simp only [Bus.refused, publishes,
          List.filterMap_append] at hBefore ⊢
        rw [hBefore]
        rfl
      · simpa [Bus.polled, apply] using hPolls.tally
  | drain =>
      rcases hPolls.drain with ⟨vs, hDrained, _⟩
      refine ⟨vs, hDrained.run, ?_, ?_, hDrained.tally⟩
      · rw [hQuiet _ (by simp)]
        exact hDrained.accepted
      · rw [hQuiet _ (by simp)]
        exact hDrained.refused
  | observe =>
      refine ⟨us, hPolls.run, ?_, ?_, hPolls.tally⟩
      · rw [hQuiet _ (by simp)]
        exact hPolls.accepted
      · rw [hQuiet _ (by simp)]
        exact hPolls.refused

/- The run lemma: a run of both is a run of the bus. -/
theorem run_polls
    (hRun : Run Step (create capacity) ts s) :
    ∃ us, Polls capacity ts s us := by
  induction hRun with
  | start =>
      refine ⟨[], .start, rfl, rfl, ?_⟩
      intro type hType
      simp [create, countOf, Bus.polled]
  | step _ hStep ih =>
      rcases ih with ⟨us, hPolls⟩
      exact hPolls.step hStep

/- What the counters say once a drain is over. -/
structure Reports
    (ts : List (Transition Reporting Call))
    (s : Reporting) :
    Prop where
  empty : s.bus.waiting = []
  byType :
    ∀ (type : EventType)
      (hType : type.toNat < EventType.count.toNat),
      s.collector.counters.byType[type.toNat] =
        countOf type (Bus.accepted (publishes ts))
  dropped :
    s.collector.counters.dropped =
      UInt64.ofNat (Bus.refused (publishes ts)).length

theorem drain_reports
    (hRun : Run Step (create capacity) ts s) :
    Reports ts s.drain := by
  rcases run_polls hRun with ⟨us, hPolls⟩
  rcases hPolls.drain with ⟨vs, hDrained, hEmpty⟩
  have hQueued := Bus.run_queued hDrained.run
  refine ⟨hEmpty, ?_, ?_⟩
  · have hOrder := hQueued.order
    rw [hEmpty, List.append_nil, hDrained.accepted]
      at hOrder
    rw [← hOrder]
    exact hDrained.tally
  · rw [← hDrained.refused]
    exact hQueued.dropped

end Reporting

/-
  The bus is a bounded queue. In every run of publishes and
  polls, what was polled and what still waits is what was
  accepted, in order; a publish is refused just when as many
  events wait as fit, and leaves them alone; and what was
  published was polled, waits or was dropped. Where only a
  collector polls, its counters hold the accepted events of
  each type and the refused ones after every drain. The
  counters are numbers of 64 bits.
-/
theorem bus_is_bounded_queue (capacity : Nat) :
    (∀ ts bus,
      Run Bus.Step (Bus.create capacity) ts bus →
        Bus.Serves capacity ts bus) ∧
    ∀ ts s,
      Run Reporting.Step (Reporting.create capacity) ts s →
        Reporting.Reports ts s.drain :=
  ⟨fun _ _ => Bus.run_serves,
    fun _ _ => Reporting.drain_reports⟩

section Example

def early : Event := { type := .frameTx }
def late : Event := { type := .postAdded, time := 1 }

/- A bus of capacity zero has one slot, and it is taken. -/
def fullBus : Bus := (Bus.create 0).publish early

def crowding : List (Transition Bus Bus.Call) :=
  [⟨.create 0, .publish early, fullBus⟩,
    ⟨fullBus, .publish late, fullBus.publish late⟩]

theorem second_event_is_refused :
    Bus.Serves 0 crowding (fullBus.publish late) ∧
      Bus.refused crowding = [late] ∧
      (([.publish early, .publish late].foldl
        Reporting.apply (.create 0)).drain
          ).collector.counters.dropped = 1 := by
  have hServes :=
    (bus_is_bounded_queue 0).1 crowding _
      (Run.step (Run.step .start .publish) .publish)
  have hReports :=
    (bus_is_bounded_queue 0).2 _ _
      (run_replay Reporting.apply (.create 0)
        [.publish early, .publish late])
  exact ⟨hServes, by decide,
    hReports.dropped.trans (by decide)⟩

end Example

end Telemetry

end MeshCore
