import MeshCore.Radio.DutyCycle
import MeshCore.Radio.TxQueue

/-
  The drivers built on the queue and the duty cycle. Each
  tick is a number of turns; a turn takes the next frame
  off the queue and puts it on the air, drops it, or puts it
  back because the duty cycle refused it.

  The airtime formula is floating point and a parameter. A
  driver that delivers frames inside its tick does so before
  its first turn, so what is sent in answer has been sent
  before the turns.

  Key definitions include:
    * `Air.turn`, `Air.drain`
    * `VirtualRadio.tick`, `UdpRadio.tick`,
      `Sx1262Radio.tick`
    * `Driver`
    * `Traffic`, `Traffic.call`

  Key facts include:
    * `Driver.tick_drains`
    * `Traffic.drives_duty`
    * `Traffic.never_overspent`
-/

namespace MeshCore

------------------------------------------------------------
-- Turns
------------------------------------------------------------

structure Air where
  duty : DutyCycle
  queue : TxQueue
deriving DecidableEq, Repr

/- What became of one turn, and of the frame it took. -/
inductive Outcome where
| idle
| dropped (e : TxEntry)
| refused (e : TxEntry)
| sent (e : TxEntry) (slot : Slot)
deriving DecidableEq, Repr

namespace Air

variable (airtimeUs : Nat → UInt32)

/-
  One turn. `usable` says what can be a real frame, and
  `starts` whether the transmission can be started.
-/
def turn
    (usable : Bytes → Bool)
    (starts : Bool)
    (now : Millis)
    (s : Air) :
    Outcome × Air :=
  match s.queue.pop with
  | none => (.idle, s)
  | some (e, queue) =>
      if !usable e.frame then
        (.dropped e, { s with queue := queue })
      else
        let airtime := airtimeUs e.frame.length
        let answer := s.duty.allows now airtime
        if !answer.1 then
          -- put back and wait rather than break the rules
          (.refused e,
            { duty := answer.2
              queue :=
                (queue.push e.frame e.priority).2 })
        else if !starts then
          (.dropped e, { duty := answer.2, queue := queue })
        else
          (.sent e { atMs := now, airtimeUs := airtime },
            { duty := answer.2.record now airtime
              queue := queue })

/-
  Turn after turn until the queue is empty or a frame is
  refused, `n` at most, with the state before and after each.
-/
def drain
    (usable : Bytes → Bool)
    (starts : Bool)
    (now : Millis) :
    Nat → Air → List (Transition Air Outcome) × Air
| 0, s => ([], s)
| n + 1, s =>
    let r := turn airtimeUs usable starts now s
    match r.1 with
    | .idle => ([⟨s, r.1, r.2⟩], r.2)
    | .refused _ => ([⟨s, r.1, r.2⟩], r.2)
    | .dropped _ =>
        let more := drain usable starts now n r.2
        (⟨s, r.1, r.2⟩ :: more.1, more.2)
    | .sent _ _ =>
        let more := drain usable starts now n r.2
        (⟨s, r.1, r.2⟩ :: more.1, more.2)

end Air

------------------------------------------------------------
-- Drivers
------------------------------------------------------------

/- Enough turns for a queue: one each, and an idle one. -/
def turnsFor (air : Air) : Nat :=
  air.queue.entries.length + 1

structure VirtualRadio where
  air : Air
  now : Millis := 0
  powered : Bool := true
deriving DecidableEq, Repr

structure UdpRadio where
  air : Air
  now : Millis := 0
  socket : Bool := false
deriving DecidableEq, Repr

structure Sx1262Radio where
  air : Air
  now : Millis := 0
  device : Bool := false
  transmitting : Bool := false
  transmitDeadline : Millis := 0
deriving DecidableEq, Repr

def transmitGraceMs : Millis := 500

section Ticks

variable (airtimeUs : Nat → UInt32)

def VirtualRadio.tick
    (r : VirtualRadio)
    (now : Millis) :
    List (Transition Air Outcome) × VirtualRadio :=
  let r := { r with now := now }
  if !r.powered then ([], r)
  else
    let drained :=
      Air.drain airtimeUs (fun _ => true) true now
        (turnsFor r.air) r.air
    (drained.1, { r with air := drained.2 })

def UdpRadio.tick
    (r : UdpRadio)
    (now : Millis) :
    List (Transition Air Outcome) × UdpRadio :=
  let r := { r with now := now }
  if !r.socket then ([], r)
  else
    let drained :=
      Air.drain airtimeUs
        (fun frame => frame.length ≤ maxPacketFrame)
        true now (turnsFor r.air) r.air
    (drained.1, { r with air := drained.2 })

/- One frame, if the chip takes it. -/
def Sx1262Radio.startTransmit
    (r : Sx1262Radio)
    (now : Millis)
    (starts : Bool) :
    List (Transition Air Outcome) × Sx1262Radio :=
  let t :=
    Air.turn airtimeUs
      (fun frame =>
        !frame.isEmpty && frame.length ≤ maxPacketFrame)
      starts now r.air
  let r' := { r with air := t.2 }
  match t.1 with
  | .sent e slot =>
      ([⟨r.air, .sent e slot, t.2⟩],
        { r' with
          transmitting := true
          transmitDeadline :=
            now + (slot.airtimeUs / 1000).toUInt64 +
              transmitGraceMs })
  | outcome => ([⟨r.air, outcome, t.2⟩], r')

/- `done` is the chip's own word that it has finished. -/
def Sx1262Radio.tick
    (r : Sx1262Radio)
    (now : Millis)
    (done starts : Bool) :
    List (Transition Air Outcome) × Sx1262Radio :=
  let r := { r with now := now }
  if !r.device then ([], r)
  else if r.transmitting then
    if done || r.transmitDeadline ≤ now then
      ([], { r with transmitting := false })
    else ([], r)
  else r.startTransmit airtimeUs now starts

end Ticks

/- A radio, behind the interface the layers above see. -/
inductive Driver where
| virtual (r : VirtualRadio)
| udp (r : UdpRadio)
| sx1262 (r : Sx1262Radio)
deriving DecidableEq, Repr

namespace Driver

def air : Driver → Air
| .virtual r => r.air
| .udp r => r.air
| .sx1262 r => r.air

def now : Driver → Millis
| .virtual r => r.now
| .udp r => r.now
| .sx1262 r => r.now

def withAir (d : Driver) (air : Air) : Driver :=
  match d with
  | .virtual r => .virtual { r with air := air }
  | .udp r => .udp { r with air := air }
  | .sx1262 r => .sx1262 { r with air := air }

@[simp] theorem air_withAir (d : Driver) (air : Air) :
    (d.withAir air).air = air := by
  cases d <;> rfl

@[simp] theorem now_withAir (d : Driver) (air : Air) :
    (d.withAir air).now = d.now := by
  cases d <;> rfl

/- Into the queue, not into the air. -/
def send
    (d : Driver)
    (frame : Bytes)
    (P : TxPriority) :
    Bool × Driver :=
  let pushed := d.air.queue.push frame P
  (pushed.1, d.withAir { d.air with queue := pushed.2 })

variable (airtimeUs : Nat → UInt32)

def tick
    (d : Driver)
    (now : Millis)
    (done starts : Bool) :
    List (Transition Air Outcome) × Driver :=
  match d with
  | .virtual r =>
      let ticked := r.tick airtimeUs now
      (ticked.1, .virtual ticked.2)
  | .udp r =>
      let ticked := r.tick airtimeUs now
      (ticked.1, .udp ticked.2)
  | .sx1262 r =>
      let ticked := r.tick airtimeUs now done starts
      (ticked.1, .sx1262 ticked.2)

/- Whether there is air to offer: the longest frame fits. -/
def canTransmitNow (d : Driver) : Bool × Driver :=
  let ready :=
    match d with
    | .virtual r => r.powered
    | .udp r => r.socket
    | .sx1262 r => r.device && !r.transmitting
  if !ready then (false, d)
  else
    let answer :=
      d.air.duty.allows d.now (airtimeUs maxPacketFrame)
    (answer.1, d.withAir { d.air with duty := answer.2 })

def usedPermille (d : Driver) : UInt32 × Driver :=
  let answer := d.air.duty.usedPermille d.now
  (answer.1, d.withAir { d.air with duty := answer.2 })

/- A single turn is a drain that stops after it. -/
theorem startTransmit_drains
    (r : Sx1262Radio)
    (now : Millis)
    (starts : Bool) :
    ((r.startTransmit airtimeUs now starts).1,
        (r.startTransmit airtimeUs now starts).2.air) =
      Air.drain airtimeUs
        (fun frame =>
          !frame.isEmpty && frame.length ≤ maxPacketFrame)
        starts now 1 r.air := by
  simp only [Sx1262Radio.startTransmit, Air.drain]
  rcases hTurn :
      Air.turn airtimeUs
        (fun frame =>
          !frame.isEmpty && frame.length ≤ maxPacketFrame)
        starts now r.air with ⟨outcome, air⟩
  cases outcome <;> rfl

/- Whatever the driver, a tick is a number of turns. -/
theorem tick_drains
    (d : Driver)
    (now : Millis)
    (done starts : Bool) :
    ∃ usable ok n,
      ((d.tick airtimeUs now done starts).1,
          (d.tick airtimeUs now done starts).2.air) =
        Air.drain airtimeUs usable ok now n d.air := by
  -- a driver that is off takes no turn at all
  cases d with
  | virtual r =>
      simp only [tick, VirtualRadio.tick]
      by_cases hOn : r.powered = true
      · exact ⟨_, _, _, by simp [hOn, air]; rfl⟩
      · exact ⟨fun _ => true, true, 0, by
          simp [hOn, air, Air.drain]⟩
  | udp r =>
      simp only [tick, UdpRadio.tick]
      by_cases hOn : r.socket = true
      · exact ⟨_, _, _, by simp [hOn, air]; rfl⟩
      · exact ⟨fun _ => true, true, 0, by
          simp [hOn, air, Air.drain]⟩
  | sx1262 r =>
      simp only [tick, Sx1262Radio.tick]
      by_cases hOn : r.device = true
      · by_cases hBusy : r.transmitting = true
        · refine ⟨fun _ => true, true, 0, ?_⟩
          simp only [hOn, hBusy, Bool.not_true,
            Bool.false_eq_true, if_false, if_true, air,
            Air.drain]
          split <;> rfl
        · refine
            ⟨fun frame =>
              !frame.isEmpty &&
                frame.length ≤ maxPacketFrame,
              starts, 1, ?_⟩
          have hReady : ¬ (!r.device) = true := by
            simp [hOn]
          rw [if_neg hReady, if_neg hBusy]
          exact startTransmit_drains airtimeUs
            { r with now := now } now starts
      · exact ⟨fun _ => true, true, 0, by
          simp [hOn, air, Air.drain]⟩

@[simp] theorem now_tick
    (d : Driver)
    (now : Millis)
    (done starts : Bool) :
    (d.tick airtimeUs now done starts).2.now = now := by
  cases d with
  | virtual r =>
      simp only [tick, VirtualRadio.tick]
      split <;> rfl
  | udp r =>
      simp only [tick, UdpRadio.tick]
      split <;> rfl
  | sx1262 r =>
      simp only [tick, Sx1262Radio.tick,
        Sx1262Radio.startTransmit]
      split_ifs
      · rfl
      · rfl
      · rfl
      · split <;> rfl

end Driver

------------------------------------------------------------
-- Traffic
------------------------------------------------------------

/- The calls a driver answers. -/
inductive DriverCall where
| send (frame : Bytes) (priority : TxPriority)
| tick (now : Millis) (done starts : Bool)
| canTransmitNow
| usedPermille
deriving DecidableEq, Repr

/- A driver, what it accepted and every turn it took. -/
structure Traffic where
  driver : Driver
  accepted : List (TxPriority × Bytes) := []
  turns : List (Transition Air Outcome) := []

/- What was on the air, and when. -/
def slotsOf (turns : List (Transition Air Outcome)) :
    List Slot :=
  turns.filterMap fun t =>
    match t.event with
    | .sent _ slot => some slot
    | _ => none

theorem slotsOf_append
    (turns more : List (Transition Air Outcome)) :
    slotsOf (turns ++ more) =
      slotsOf turns ++ slotsOf more :=
  List.filterMap_append

namespace Traffic

variable (airtimeUs : Nat → UInt32)

def call (s : Traffic) : DriverCall → Traffic
| .send frame P =>
    let sent := s.driver.send frame P
    { s with
      driver := sent.2
      accepted :=
        if sent.1 then s.accepted ++ [(P, frame)]
        else s.accepted }
| .tick now done starts =>
    let ticked := s.driver.tick airtimeUs now done starts
    { s with
      driver := ticked.2
      turns := s.turns ++ ticked.1 }
| .canTransmitNow =>
    { s with driver := (s.driver.canTransmitNow airtimeUs).2 }
| .usedPermille =>
    { s with driver := s.driver.usedPermille.2 }

/- The clock of a driver is its ticks: it never goes back. -/
def InTime (s : Traffic) : DriverCall → Prop
| .tick now _ _ => s.driver.now ≤ now
| _ => True

/- One call, at its time. -/
def Step
    (s : Traffic)
    (c : DriverCall)
    (s' : Traffic) :
    Prop :=
  s.InTime c ∧ s.call airtimeUs c = s'

------------------------------------------------------------
-- The Duty Cycle Of A Driver
------------------------------------------------------------

/-
  The duty cycle `duty` is reached by a run in which `log`
  was recorded, no call later than `now`.
-/
def Drives
    (percent : UInt8)
    (window now : Millis)
    (duty : DutyCycle)
    (log : List Slot) :
    Prop :=
  ∃ ts last,
    Run Drive.Step (Drive.start percent window) ts
        { duty := duty, log := log, last := last } ∧
      last ≤ now

variable {percent : UInt8} {window now : Millis}
variable {duty : DutyCycle} {log : List Slot}

/- A question carries the run on. -/
theorem Drives.allows
    (hDrives : Drives percent window now duty log)
    (airtime : UInt32) :
    Drives percent window now (duty.allows now airtime).2
      log := by
  rcases hDrives with ⟨ts, last, hRun, hLast⟩
  have hStep :
      Drive.Step
        { duty := duty, log := log, last := last }
        (.allows now airtime)
        { duty := (duty.allows now airtime).2
          log := log
          last := now } :=
    ⟨hLast, rfl⟩
  exact ⟨_, now, .step hRun hStep, UInt64.le_refl now⟩

theorem Drives.usedPermille
    (hDrives : Drives percent window now duty log) :
    Drives percent window now (duty.usedPermille now).2
      log := by
  rcases hDrives with ⟨ts, last, hRun, hLast⟩
  have hStep :
      Drive.Step
        { duty := duty, log := log, last := last }
        (.usedPermille now)
        { duty := (duty.usedPermille now).2
          log := log
          last := now } :=
    ⟨hLast, rfl⟩
  exact ⟨_, now, .step hRun hStep, UInt64.le_refl now⟩

/- So does a transmission that was allowed. -/
theorem Drives.transmit
    (hDrives : Drives percent window now duty log)
    {airtime : UInt32}
    (hAllowed : (duty.allows now airtime).1 = true) :
    Drives percent window now
      ((duty.allows now airtime).2.record now airtime)
      (log ++ [{ atMs := now, airtimeUs := airtime }]) := by
  rcases hDrives with ⟨ts, last, hRun, hLast⟩
  have hStep :
      Drive.Step
        { duty := duty, log := log, last := last }
        (.transmit now airtime)
        { duty :=
            (duty.allows now airtime).2.record now airtime
          log :=
            log ++ [{ atMs := now, airtimeUs := airtime }]
          last := now } := by
    refine ⟨hLast, ?_⟩
    simp only [Drive.call, hAllowed, if_true]
  exact ⟨_, now, .step hRun hStep, UInt64.le_refl now⟩

/- A turn records what it puts on the air. -/
theorem Drives.turn
    {air air' : Air} {outcome : Outcome}
    (usable : Bytes → Bool) (starts : Bool)
    (hDrives : Drives percent window now air.duty log)
    (hTurn :
      Air.turn airtimeUs usable starts now air =
        (outcome, air')) :
    Drives percent window now air'.duty
      (log ++ slotsOf [⟨air, outcome, air'⟩]) := by
  simp only [Air.turn] at hTurn
  cases hPop : air.queue.pop with
  | none =>
      simp only [hPop, Prod.mk.injEq] at hTurn
      rcases hTurn with ⟨rfl, rfl⟩
      simpa [slotsOf] using hDrives
  | some r =>
      rcases r with ⟨e, queue⟩
      simp only [hPop] at hTurn
      split_ifs at hTurn with hUsable hAllowed hStarts
      · rcases Prod.mk.inj hTurn with ⟨rfl, rfl⟩
        simpa [slotsOf] using hDrives
      · rcases Prod.mk.inj hTurn with ⟨rfl, rfl⟩
        simpa [slotsOf] using hDrives.allows _
      · rcases Prod.mk.inj hTurn with ⟨rfl, rfl⟩
        simpa [slotsOf] using hDrives.allows _
      · rcases Prod.mk.inj hTurn with ⟨rfl, rfl⟩
        apply hDrives.transmit
        simpa using hAllowed

theorem Drives.drain
    (usable : Bytes → Bool) (starts : Bool)
    (n : Nat)
    {air : Air}
    (hDrives : Drives percent window now air.duty log) :
    Drives percent window now
      (Air.drain airtimeUs usable starts now n air).2.duty
      (log ++
        slotsOf
          (Air.drain airtimeUs usable starts now n
            air).1) := by
  induction n generalizing air log with
  | zero => simpa [Air.drain, slotsOf] using hDrives
  | succ n ih =>
      rcases hTurn :
          Air.turn airtimeUs usable starts now air with
        ⟨outcome, air'⟩
      have hNext := hDrives.turn airtimeUs usable starts hTurn
      cases outcome with
      | idle => simpa only [Air.drain, hTurn] using hNext
      | refused e =>
          simpa only [Air.drain, hTurn] using hNext
      | dropped e =>
          have hMore := ih hNext
          rw [List.append_assoc, ← slotsOf_append] at hMore
          simp only [Air.drain, hTurn]
          exact hMore
      | sent e slot =>
          have hMore := ih hNext
          rw [List.append_assoc, ← slotsOf_append] at hMore
          simp only [Air.drain, hTurn]
          exact hMore

/- A driver that was just built. -/
def New
    (percent : UInt8)
    (window : Millis)
    (depth : Nat)
    (d : Driver) :
    Prop :=
  d.now = 0 ∧
    d.air =
      { duty := { percent := percent, window := window }
        queue := { depth := depth } }

/- Whatever is called, the duty cycle is driven in order. -/
theorem drives_duty
    {depth : Nat} {d : Driver} {s : Traffic}
    {ts : List (Transition Traffic DriverCall)}
    (hNew : New percent window depth d)
    (hRun :
      Run (Step airtimeUs) { driver := d } ts s) :
    Drives percent window s.driver.now s.driver.air.duty
      (slotsOf s.turns) := by
  apply hRun.invariant
    (I := fun s =>
      Drives percent window s.driver.now s.driver.air.duty
        (slotsOf s.turns))
  · simp only [hNew.1, hNew.2]
    exact ⟨[], 0, .start, UInt64.le_refl 0⟩
  · rintro s c _ hDrives ⟨hTime, rfl⟩
    cases c with
    | send frame P =>
        simpa only [call, Driver.send, Driver.air_withAir,
          Driver.now_withAir] using hDrives
    | canTransmitNow =>
        simp only [call, Driver.canTransmitNow]
        split_ifs
        · exact hDrives
        · simpa only [Driver.air_withAir,
            Driver.now_withAir] using hDrives.allows _
    | usedPermille =>
        simpa only [call, Driver.usedPermille,
          Driver.air_withAir, Driver.now_withAir]
          using hDrives.usedPermille
    | tick now done starts =>
        rcases Driver.tick_drains airtimeUs s.driver now
            done starts with ⟨usable, ok, n, hDrain⟩
        rcases Prod.mk.inj hDrain with ⟨hTurns, hAir⟩
        rcases hDrives with ⟨us, last, hBefore, hLast⟩
        have hHere :
            Drives percent window now s.driver.air.duty
              (slotsOf s.turns) :=
          ⟨us, last, hBefore, UInt64.le_trans hLast hTime⟩
        have hAfter :=
          hHere.drain airtimeUs usable ok n
        rw [← hTurns, ← hAir] at hAfter
        simp only [call, Driver.now_tick, slotsOf_append]
        exact hAfter

/-
  No driver overspends any window, as long as its clock
  stays clear of the end of its range.
-/
theorem never_overspent
    {depth : Nat} {d : Driver} {s : Traffic}
    {ts : List (Transition Traffic DriverCall)}
    (hPercent : percent < 100)
    (hNew : New percent window depth d)
    (hRun :
      Run (Step airtimeUs) { driver := d } ts s)
    (hClear :
      s.driver.now.toNat + window.toNat < 2 ^ 64)
    (t : Nat) :
    Window.spentIn
        (fun slot : Slot => slot.atMs.toNat)
        (fun slot => slot.airtimeUs.toNat)
        window.toNat (slotsOf s.turns) t ≤
      window.toNat * 1000 * percent.toNat / 100 := by
  rcases drives_duty airtimeUs hNew hRun with
    ⟨us, last, hDrive, hLast⟩
  rw [UInt64.le_iff_toNat_le] at hLast
  have hKept :=
    Drive.kept_of_run hPercent hDrive (by
      change last.toNat + window.toNat < 2 ^ 64
      omega)
  have hLedger := Drive.ledger_of_run hPercent hDrive
  have hThis := hKept t
  rw [hLedger.percent_eq, hLedger.window_eq] at hThis
  exact hThis

end Traffic

end MeshCore
