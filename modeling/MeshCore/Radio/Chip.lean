import MeshCore.Library.Typestate
import MeshCore.Radio.Conservation

/-
  The chip behind the half-duplex driver. Opening, a tick
  and closing are programs over the chip's commands, each
  answered by the chip as it likes; only the order in which
  they are given is the driver's.

  What may be commanded in which mode is a protocol: a frame
  that has come in is read before anything else happens to
  the chip, a transmission is never started over one that
  came in or over another transmission, and whatever leaves
  the chip unarmed is followed by an order to listen.

  Key definitions include:
    * `ChipOp`
    * `Sx1262.openRadio`, `Sx1262.tick`, `Sx1262.close`
    * `Sx1262.Mode`, `Sx1262.mayDo`
    * `Sx1262.Step`

  Key facts include:
    * `Sx1262.tick_obeys`
    * `Sx1262.half_duplex`
    * `Sx1262.never_waits_forever`
    * `Sx1262.chip_is_driven`
-/

namespace MeshCore

------------------------------------------------------------
-- Commands
------------------------------------------------------------

/- What the layers above are told beside a frame. -/
structure ChipMeta where
  rssi : Int16
  snr : Int16
  atMs : Millis
  airtimeUs : UInt32
deriving DecidableEq, Repr

/- How reading a frame out of the chip ended. -/
inductive ReadState where
| none
| crcMismatch
| failed
deriving DecidableEq, Repr

/- The pins of the switch in front of the antenna. -/
structure Sx1262Options where
  pinRxEnable : Int32 := 6
  pinTxEnable : Int32 := -1
  dio2AsRfSwitch : Bool := true
deriving DecidableEq, Repr

/- All ones for no pin, where the options say a negative. -/
def pinOrNone (pin : Int32) : UInt32 :=
  if pin < 0 then 0xffffffff else pin.toUInt32

/-
  The commands of the chip, and the call that hands a frame
  to the layers above.
-/
inductive ChipOp where
| begin
| setDio2AsRfSwitch (enable : Bool)
| setRfSwitchPins (rx tx : UInt32)
| setCurrentLimit
| startReceive
| rxDone
| getPacketLength
| readData (length : Nat)
| getRSSI
| getSNR
| onFrame (frame : Bytes) (info : ChipMeta)
| startTransmit (frame : Bytes)
| txDone
| finishTransmit
| standby
| sleep
| term
deriving DecidableEq, Repr

/-
  What each is answered by. The layers above answer a frame
  by the frames they send meanwhile.
-/
@[reducible] def ChipOp.Ans : ChipOp → Type
| .begin => Bool
| .setDio2AsRfSwitch _ => Bool
| .setRfSwitchPins _ _ => Unit
| .setCurrentLimit => Bool
| .startReceive => Bool
| .rxDone => Bool
| .getPacketLength => Nat
| .readData length => ReadState × Vector UInt8 length
| .getRSSI => Int16
| .getSNR => Int16
| .onFrame _ _ => List (TxPriority × Bytes)
| .startTransmit _ => Bool
| .txDone => Bool
| .finishTransmit => Unit
| .standby => Unit
| .sleep => Unit
| .term => Unit

abbrev ChipM := Program ChipOp ChipOp.Ans

abbrev ChipCall := Program.Answered ChipOp ChipOp.Ans

------------------------------------------------------------
-- The Driver
------------------------------------------------------------

namespace Sx1262

def send
    (r : Sx1262Radio)
    (P : TxPriority)
    (frame : Bytes) :
    Sx1262Radio :=
  { r with
    air :=
      { r.air with queue := (r.air.queue.push frame P).2 } }

def sendAll
    (r : Sx1262Radio)
    (frames : List (TxPriority × Bytes)) :
    Sx1262Radio :=
  frames.foldl (fun r f => send r f.1 f.2) r

def startListening : ChipM Bool :=
  .perform ChipOp.startReceive

/- The switch is commanded only where a pin drives it. -/
def openRadio
    (options : Sx1262Options)
    (r : Sx1262Radio) :
    ChipM (Bool × Sx1262Radio) := do
  let begun ← (.perform ChipOp.begin : ChipM Bool)
  if !begun then
    return (false, { r with device := false })
  let configured ←
    (.perform
      (ChipOp.setDio2AsRfSwitch options.dio2AsRfSwitch) :
      ChipM Bool)
  if !configured then
    return (false, { r with device := false })
  (if 0 ≤ options.pinRxEnable ||
        0 ≤ options.pinTxEnable then
      .perform
        (ChipOp.setRfSwitchPins
          (pinOrNone options.pinRxEnable)
          (pinOrNone options.pinTxEnable))
    else pure () : ChipM Unit)
  let limited ←
    (.perform ChipOp.setCurrentLimit : ChipM Bool)
  if !limited then
    return (false, { r with device := false })
  let listening ← startListening
  if !listening then
    return (false, { r with device := false })
  return (true, { r with device := true })

section Ticks

-- whether the layers above have given an address for frames
variable (sink : Bool)
variable (airtimeUs : Nat → UInt32)

def collect (r : Sx1262Radio) : ChipM Sx1262Radio := do
  let found ← (.perform ChipOp.rxDone : ChipM Bool)
  if !found then
    return r
  let told ← (.perform ChipOp.getPacketLength : ChipM Nat)
  -- the register can lie
  let length := min told maxPacketFrame
  let read ←
    (.perform (ChipOp.readData length) :
      ChipM (ReadState × Vector UInt8 length))
  -- whichever path reading took
  let _ ← startListening
  match read.1 with
  | .crcMismatch => return r
  | .failed => return r
  | .none =>
      if length == 0 || !sink then
        return r
      let rssi ← (.perform ChipOp.getRSSI : ChipM Int16)
      let snr ← (.perform ChipOp.getSNR : ChipM Int16)
      let frames ←
        (.perform
          (ChipOp.onFrame read.2.toList
            { rssi := rssi
              snr := snr
              atMs := r.now
              airtimeUs := airtimeUs length }) :
          ChipM (List (TxPriority × Bytes)))
      return sendAll r frames

def startTransmit
    (r : Sx1262Radio)
    (now : Millis) :
    ChipM Sx1262Radio :=
  match r.air.queue.pop with
  | none => return r
  | some (e, queue) => do
      let r := { r with air := { r.air with queue := queue } }
      if e.frame.isEmpty || maxPacketFrame < e.frame.length
      then
        return r
      let airtime := airtimeUs e.frame.length
      let answer := r.air.duty.allows now airtime
      let r := { r with air := { r.air with duty := answer.2 } }
      if !answer.1 then
        return send r e.priority e.frame
      let started ←
        (.perform (ChipOp.startTransmit e.frame) : ChipM Bool)
      if !started then
        let _ ← startListening
        return r
      let duty := r.air.duty.record now airtime
      return { r with
        air := { r.air with duty := duty }
        transmitting := true
        transmitDeadline :=
          now + (airtime / 1000).toUInt64 +
            transmitGraceMs }

def finishTransmit (r : Sx1262Radio) : ChipM Sx1262Radio := do
  (.perform ChipOp.finishTransmit : ChipM Unit)
  let _ ← startListening
  return { r with transmitting := false }

def tick
    (r : Sx1262Radio)
    (now : Millis) :
    ChipM Sx1262Radio := do
  let r := { r with now := now }
  if !r.device then
    return r
  if r.transmitting then
    let finished ← (.perform ChipOp.txDone : ChipM Bool)
    if finished then
      finishTransmit r
    else if r.transmitDeadline ≤ now then
      finishTransmit r
    else
      return r
  else
    let r ← collect sink airtimeUs r
    startTransmit airtimeUs r now

end Ticks

/- A keyed amplifier would outlive the process. -/
def close (r : Sx1262Radio) : ChipM Unit := do
  if !r.device then
    return
  (.perform ChipOp.standby : ChipM Unit)
  (.perform ChipOp.sleep : ChipM Unit)
  (.perform ChipOp.term : ChipM Unit)

------------------------------------------------------------
-- Modes
------------------------------------------------------------

/-
  What the commands so far have made of the chip. It is
  `full` once it said that a frame came in, and `deaf` when
  it refused to listen.
-/
inductive Mode where
| off
| standby
| listening
| deaf
| full
| sending
| asleep
deriving DecidableEq, Repr

/- Nothing came in, and nothing goes out. -/
def Mode.Armed (m : Mode) : Prop :=
  m = .listening ∨ m = .deaf

/-
  What may be commanded in which mode. Nothing but reading
  it follows a frame that came in, and nothing but waiting
  for its end a transmission.
-/
def mayDo : Program.Protocol ChipOp ChipOp.Ans Mode
| .off, .begin, false => some .off
| .off, .begin, true => some .standby
| .standby, .setDio2AsRfSwitch _, _ => some .standby
| .standby, .setRfSwitchPins _ _, _ => some .standby
| .standby, .setCurrentLimit, _ => some .standby
| .standby, .startReceive, true => some .listening
| .standby, .startReceive, false => some .deaf
| .listening, .rxDone, false => some .listening
| .deaf, .rxDone, false => some .deaf
| .listening, .rxDone, true => some .full
| .deaf, .rxDone, true => some .full
| .full, .getPacketLength, _ => some .full
| .full, .readData _, _ => some .standby
| .listening, .getRSSI, _ => some .listening
| .listening, .getSNR, _ => some .listening
| .listening, .onFrame _ _, _ => some .listening
| .deaf, .getRSSI, _ => some .deaf
| .deaf, .getSNR, _ => some .deaf
| .deaf, .onFrame _ _, _ => some .deaf
| .listening, .startTransmit _, true => some .sending
| .deaf, .startTransmit _, true => some .sending
| .listening, .startTransmit _, false => some .standby
| .deaf, .startTransmit _, false => some .standby
| .sending, .txDone, _ => some .sending
| .sending, .finishTransmit, _ => some .standby
| .listening, .standby, _ => some .standby
| .deaf, .standby, _ => some .standby
| .sending, .standby, _ => some .standby
| .standby, .sleep, _ => some .asleep
| .asleep, .term, _ => some .off
| _, _, _ => none

/- Between two ticks the mode is what the driver believes. -/
def Agree (m : Mode) (r : Sx1262Radio) : Prop :=
  r.device = true ∧
    if r.transmitting then m = .sending else m.Armed

theorem Agree.sending_iff
    {m : Mode} {r : Sx1262Radio}
    (hAgree : Agree m r) :
    r.transmitting = true ↔ m = .sending := by
  have hMode := hAgree.2
  split_ifs at hMode with hBusy
  · exact iff_of_true hBusy hMode
  · apply iff_of_false hBusy
    rcases hMode with rfl | rfl <;> simp

theorem Agree.armed_iff
    {m : Mode} {r : Sx1262Radio}
    (hAgree : Agree m r) :
    r.transmitting = false ↔ m.Armed := by
  have hMode := hAgree.2
  split_ifs at hMode with hBusy
  · apply iff_of_false (by simp [hBusy])
    rw [hMode]
    simp [Mode.Armed]
  · exact iff_of_true (by simpa using hBusy) hMode

@[simp] theorem transmitting_send
    (r : Sx1262Radio) (P : TxPriority) (frame : Bytes) :
    (send r P frame).transmitting = r.transmitting :=
  rfl

@[simp] theorem device_send
    (r : Sx1262Radio) (P : TxPriority) (frame : Bytes) :
    (send r P frame).device = r.device :=
  rfl

@[simp] theorem sendAll_nil (r : Sx1262Radio) :
    sendAll r [] = r :=
  rfl

@[simp] theorem sendAll_cons
    (r : Sx1262Radio)
    (f : TxPriority × Bytes)
    (frames : List (TxPriority × Bytes)) :
    sendAll r (f :: frames) =
      sendAll (send r f.1 f.2) frames :=
  rfl

@[simp] theorem transmitting_sendAll
    (r : Sx1262Radio)
    (frames : List (TxPriority × Bytes)) :
    (sendAll r frames).transmitting = r.transmitting := by
  induction frames generalizing r with
  | nil => rfl
  | cons f frames ih => rw [sendAll_cons, ih, transmitting_send]

@[simp] theorem device_sendAll
    (r : Sx1262Radio)
    (frames : List (TxPriority × Bytes)) :
    (sendAll r frames).device = r.device := by
  induction frames generalizing r with
  | nil => rfl
  | cons f frames ih => rw [sendAll_cons, ih, device_send]

------------------------------------------------------------
-- Obedience
------------------------------------------------------------

/- Whatever the answer, an order to listen arms the chip. -/
theorem startListening_obeys :
    startListening.Obeys mayDo
      (fun m listening =>
        if listening then m = .listening else m = .deaf)
      .standby := by
  intro listening
  cases listening with
  | false => exact ⟨.deaf, rfl, rfl⟩
  | true => exact ⟨.listening, rfl, rfl⟩

theorem armed_of_startListening
    {m : Mode} {listening : Bool}
    (hListening :
      if listening then m = .listening else m = .deaf) :
    m.Armed := by
  cases listening with
  | false => exact .inr hListening
  | true => exact .inl hListening

namespace Mode.Armed

variable {m : Mode}

theorem found (hArmed : m.Armed) :
    mayDo m .rxDone true = some .full := by
  rcases hArmed with rfl | rfl <;> rfl

theorem getRSSI (hArmed : m.Armed) (rssi : Int16) :
    mayDo m .getRSSI rssi = some m := by
  rcases hArmed with rfl | rfl <;> rfl

theorem getSNR (hArmed : m.Armed) (snr : Int16) :
    mayDo m .getSNR snr = some m := by
  rcases hArmed with rfl | rfl <;> rfl

theorem onFrame
    (hArmed : m.Armed)
    {frame : Bytes} {info : ChipMeta}
    (frames : List (TxPriority × Bytes)) :
    mayDo m (.onFrame frame info) frames = some m := by
  rcases hArmed with rfl | rfl <;> rfl

theorem starts (hArmed : m.Armed) (frame : Bytes) :
    mayDo m (.startTransmit frame) true = some .sending := by
  rcases hArmed with rfl | rfl <;> rfl

theorem startRefused (hArmed : m.Armed) (frame : Bytes) :
    mayDo m (.startTransmit frame) false =
      some .standby := by
  rcases hArmed with rfl | rfl <;> rfl

theorem standby (hArmed : m.Armed) :
    mayDo m .standby () = some .standby := by
  rcases hArmed with rfl | rfl <;> rfl

end Mode.Armed

section Ticks

variable {sink : Bool} {airtimeUs : Nat → UInt32}

/- What came in is read, and the chip listens again. -/
theorem collect_obeys
    (r : Sx1262Radio)
    {m : Mode}
    (hArmed : m.Armed) :
    (collect sink airtimeUs r).Obeys mayDo
      (fun m' r' =>
        m'.Armed ∧
          r'.transmitting = r.transmitting ∧
          r'.device = r.device)
      m := by
  rw [collect, Program.perform_bind]
  intro found
  cases found with
  | false =>
      rcases hArmed with rfl | rfl
      · exact ⟨.listening, rfl, .inl rfl, rfl, rfl⟩
      · exact ⟨.deaf, rfl, .inr rfl, rfl, rfl⟩
  | true =>
      refine ⟨.full, hArmed.found, ?_⟩
      simp only [Bool.not_true, Bool.false_eq_true, if_false,
        Program.perform_bind]
      intro told
      refine ⟨.full, rfl, ?_⟩
      intro read
      refine ⟨.standby, rfl, ?_⟩
      rw [Program.obeys_bind]
      apply startListening_obeys.mono
      intro armed listening hListening
      have hAgain := armed_of_startListening hListening
      rcases read with ⟨state, data⟩
      cases state with
      | crcMismatch => exact ⟨hAgain, rfl, rfl⟩
      | failed => exact ⟨hAgain, rfl, rfl⟩
      | none =>
          dsimp only
          split_ifs
          · exact ⟨hAgain, rfl, rfl⟩
          · intro rssi
            refine ⟨armed, hAgain.getRSSI rssi, ?_⟩
            intro snr
            refine ⟨armed, hAgain.getSNR snr, ?_⟩
            intro frames
            exact ⟨armed, hAgain.onFrame frames, hAgain,
              transmitting_sendAll r frames,
              device_sendAll r frames⟩

/- A refused start leaves the chip ordered to listen. -/
theorem startTransmit_obeys
    (r : Sx1262Radio)
    (now : Millis)
    {m : Mode}
    (hAgree : Agree m r)
    (hIdle : r.transmitting = false) :
    (startTransmit airtimeUs r now).Obeys mayDo Agree m := by
  have hArmed : m.Armed := by
    have hMode := hAgree.2
    rwa [hIdle] at hMode
  rw [startTransmit]
  cases hPop : r.air.queue.pop with
  | none => exact hAgree
  | some taken =>
      rcases taken with ⟨e, queue⟩
      dsimp only
      split_ifs
      · exact ⟨hAgree.1, by simpa [hIdle] using hArmed⟩
      · exact ⟨hAgree.1, by simpa [hIdle] using hArmed⟩
      · intro started
        cases started with
        | true =>
            exact ⟨.sending, hArmed.starts _, hAgree.1, rfl⟩
        | false =>
            refine ⟨.standby, hArmed.startRefused _, ?_⟩
            change
              (startListening >>= fun _ => _).Obeys _ _ _
            rw [Program.obeys_bind]
            apply startListening_obeys.mono
            intro armed listening hListening
            have hAgain := armed_of_startListening hListening
            exact ⟨hAgree.1, by simpa [hIdle] using hAgain⟩

theorem finishTransmit_obeys
    (r : Sx1262Radio)
    (hDevice : r.device = true) :
    (finishTransmit r).Obeys mayDo Agree .sending := by
  intro _
  refine ⟨.standby, rfl, ?_⟩
  change (startListening >>= fun _ => _).Obeys _ _ _
  rw [Program.obeys_bind]
  apply startListening_obeys.mono
  intro armed listening hListening
  exact ⟨hDevice, armed_of_startListening hListening⟩

/- Opened, the chip listens; a step refused opens nothing. -/
theorem openRadio_obeys
    (options : Sx1262Options)
    (r : Sx1262Radio) :
    (openRadio options r).Obeys mayDo
      (fun m opened =>
        opened.1 = true →
          m = .listening ∧
            opened.2 = { r with device := true })
      .off := by
  intro begun
  cases begun with
  | false => exact ⟨.off, rfl, by intro hOpen; cases hOpen⟩
  | true =>
      refine ⟨.standby, rfl, ?_⟩
      intro configured
      refine ⟨.standby, rfl, ?_⟩
      cases configured with
      | false => intro hOpen; cases hOpen
      | true =>
          change
            ((if _ then _ else _ : ChipM Unit) >>=
              fun _ => _).Obeys _ _ _
          rw [Program.obeys_bind]
          have hSwitch :
              (if 0 ≤ options.pinRxEnable ||
                    0 ≤ options.pinTxEnable then
                  .perform
                    (ChipOp.setRfSwitchPins
                      (pinOrNone options.pinRxEnable)
                      (pinOrNone options.pinTxEnable))
                else pure () : ChipM Unit).Obeys mayDo
                (fun m _ => m = .standby) .standby := by
            split_ifs
            · intro _
              exact ⟨.standby, rfl, rfl⟩
            · rfl
          apply hSwitch.mono
          rintro _ _ rfl
          intro limited
          refine ⟨.standby, rfl, ?_⟩
          cases limited with
          | false => intro hOpen; cases hOpen
          | true =>
              change
                (startListening >>= fun _ => _).Obeys _ _ _
              rw [Program.obeys_bind]
              apply startListening_obeys.mono
              intro m listening hListening
              cases listening with
              | false => intro hOpen; cases hOpen
              | true => exact fun _ => ⟨hListening, rfl⟩

/- A closed chip is asleep and let go. -/
theorem close_obeys
    (r : Sx1262Radio)
    {m : Mode}
    (hAgree : Agree m r) :
    (close r).Obeys mayDo (fun m' _ => m' = .off) m := by
  have hStandby : mayDo m .standby () = some .standby := by
    have hMode := hAgree.2
    split_ifs at hMode
    · rw [hMode]
      rfl
    · exact hMode.standby
  rw [close]
  have hOn : ¬ (!r.device) = true := by simp [hAgree.1]
  rw [if_neg hOn]
  intro _
  refine ⟨.standby, hStandby, ?_⟩
  intro _
  refine ⟨.asleep, rfl, ?_⟩
  intro _
  exact ⟨.off, rfl, rfl⟩

/- A tick leaves the chip as the driver believes it to be. -/
theorem tick_obeys
    (r : Sx1262Radio)
    (now : Millis)
    {m : Mode}
    (hAgree : Agree m r) :
    (tick sink airtimeUs r now).Obeys mayDo Agree m := by
  rw [tick]
  have hOn : ¬ (!r.device) = true := by simp [hAgree.1]
  rw [if_neg hOn]
  by_cases hBusy : r.transmitting = true
  · rw [if_pos hBusy]
    have hSending : m = .sending := by
      have hMode := hAgree.2
      rwa [if_pos hBusy] at hMode
    subst hSending
    intro finished
    refine ⟨.sending, rfl, ?_⟩
    cases finished with
    | true => exact finishTransmit_obeys _ hAgree.1
    | false =>
        split_ifs
        · exact finishTransmit_obeys _ hAgree.1
        · exact ⟨hAgree.1, by simp [hBusy]⟩
  · rw [if_neg hBusy]
    have hIdle : r.transmitting = false := by simpa using hBusy
    have hArmed : m.Armed := by
      have hMode := hAgree.2
      rwa [if_neg hBusy] at hMode
    rw [Program.obeys_bind]
    apply (collect_obeys { r with now := now } hArmed).mono
    rintro m' r' ⟨hAgain, hSame, hDevice⟩
    apply startTransmit_obeys
    · refine ⟨hDevice.trans hAgree.1, ?_⟩
      rw [hSame]
      simpa [hIdle] using hAgain
    · exact hSame.trans hIdle

end Ticks

------------------------------------------------------------
-- What A Tick Comes To
------------------------------------------------------------

/- What the layers above sent while they were handed frames. -/
def answersIn
    (calls : List ChipCall) :
    List (TxPriority × Bytes) :=
  calls.flatMap fun c =>
    match c with
    | ⟨.onFrame _ _, frames⟩ => frames
    | _ => []

/- The frames the chip took to send. -/
def startedIn (calls : List ChipCall) : List Bytes :=
  calls.filterMap fun c =>
    match c with
    | ⟨.startTransmit frame, true⟩ => some frame
    | _ => none

@[simp] theorem answersIn_append
    (calls more : List ChipCall) :
    answersIn (calls ++ more) =
      answersIn calls ++ answersIn more :=
  List.flatMap_append

@[simp] theorem startedIn_append
    (calls more : List ChipCall) :
    startedIn (calls ++ more) =
      startedIn calls ++ startedIn more :=
  List.filterMap_append

section Ticks

open Program

variable {sink : Bool} {airtimeUs : Nat → UInt32}

theorem startListening_exec
    {calls : List ChipCall} {listening : Bool}
    (hExec : Exec startListening calls listening) :
    answersIn calls = [] ∧ startedIn calls = [] := by
  rcases exec_call_iff.mp hExec with ⟨ans, rest, rfl, hRest⟩
  rcases exec_done_iff.mp hRest with ⟨rfl, -⟩
  exact ⟨rfl, rfl⟩

/- Receiving starts nothing; it queues the answers. -/
theorem collect_exec
    {r r' : Sx1262Radio} {calls : List ChipCall}
    (hExec : Exec (collect sink airtimeUs r) calls r') :
    r' = sendAll r (answersIn calls) ∧
      startedIn calls = [] := by
  rw [collect, perform_bind] at hExec
  rcases exec_call_iff.mp hExec with ⟨found, _, rfl, hFound⟩
  cases found with
  | false =>
      rcases exec_done_iff.mp hFound with ⟨rfl, rfl⟩
      exact ⟨rfl, rfl⟩
  | true =>
      simp only [Bool.not_true, Bool.false_eq_true, if_false,
        perform_bind] at hFound
      rcases exec_call_iff.mp hFound with
        ⟨told, _, rfl, hTold⟩
      rcases exec_call_iff.mp hTold with
        ⟨read, _, rfl, hRead⟩
      rcases exec_bind_iff.mp hRead with
        ⟨arm, listening, rest, rfl, hArm, hRest⟩
      rcases startListening_exec hArm with ⟨hNone, hStarted⟩
      have hAnswers :
          answersIn (⟨.rxDone, true⟩ ::
              ⟨.getPacketLength, told⟩ ::
                ⟨.readData _, read⟩ :: (arm ++ rest)) =
            answersIn rest := by
        change answersIn (arm ++ rest) = answersIn rest
        rw [answersIn_append, hNone, List.nil_append]
      have hStarts :
          startedIn (⟨.rxDone, true⟩ ::
              ⟨.getPacketLength, told⟩ ::
                ⟨.readData _, read⟩ :: (arm ++ rest)) =
            startedIn rest := by
        change startedIn (arm ++ rest) = startedIn rest
        rw [startedIn_append, hStarted, List.nil_append]
      rw [hAnswers, hStarts]
      rcases read with ⟨state, data⟩
      cases state with
      | crcMismatch =>
          rcases exec_done_iff.mp hRest with ⟨rfl, rfl⟩
          exact ⟨rfl, rfl⟩
      | failed =>
          rcases exec_done_iff.mp hRest with ⟨rfl, rfl⟩
          exact ⟨rfl, rfl⟩
      | none =>
          dsimp only at hRest
          split_ifs at hRest
          · rcases exec_done_iff.mp hRest with ⟨rfl, rfl⟩
            exact ⟨rfl, rfl⟩
          · rcases exec_call_iff.mp hRest with
              ⟨rssi, _, rfl, hRssi⟩
            rcases exec_call_iff.mp hRssi with
              ⟨snr, _, rfl, hSnr⟩
            rcases exec_call_iff.mp hSnr with
              ⟨frames, _, rfl, hFrames⟩
            rcases exec_done_iff.mp hFrames with ⟨rfl, rfl⟩
            refine ⟨?_, rfl⟩
            rw [show answersIn
                [⟨.getRSSI, rssi⟩, ⟨.getSNR, snr⟩,
                  ⟨.onFrame _ _, frames⟩] = frames from
              List.append_nil frames]

/- The two ways to say what cannot be a real frame. -/
theorem unreal_eq (frame : Bytes) :
    (!(!frame.isEmpty &&
        decide (frame.length ≤ maxPacketFrame))) =
      (frame.isEmpty ||
        decide (maxPacketFrame < frame.length)) := by
  rw [Bool.not_and, Bool.not_not, ← decide_not,
    decide_eq_decide.mpr Nat.not_le]

/- Sending is a turn, whose start the chip takes or not. -/
theorem startTransmit_exec
    {r r' : Sx1262Radio} {now : Millis}
    {calls : List ChipCall}
    (hExec : Exec (startTransmit airtimeUs r now) calls r') :
    answersIn calls = [] ∧
      ∃ starts,
        r' = (r.startTransmit airtimeUs now starts).2 ∧
          startedIn calls =
            (sentIn
              (r.startTransmit airtimeUs now starts).1).map
                Prod.snd := by
  rw [startTransmit] at hExec
  cases hPop : r.air.queue.pop with
  | none =>
      rw [hPop] at hExec
      rcases exec_done_iff.mp hExec with ⟨rfl, rfl⟩
      have hTurn :
          Air.turn airtimeUs
              (fun frame =>
                !frame.isEmpty &&
                  frame.length ≤ maxPacketFrame)
              false now r'.air =
            (.idle, r'.air) := by
        rw [Air.turn, hPop]
      refine ⟨rfl, false, ?_⟩
      rw [Sx1262Radio.startTransmit, hTurn]
      exact ⟨rfl, rfl⟩
  | some taken =>
      rcases taken with ⟨e, queue⟩
      rw [hPop] at hExec
      dsimp only at hExec
      split_ifs at hExec with hUnreal hRefused
      · rcases exec_done_iff.mp hExec with ⟨rfl, rfl⟩
        refine ⟨rfl, false, ?_⟩
        rw [Sx1262Radio.startTransmit, Air.turn, hPop]
        dsimp only
        rw [unreal_eq, if_pos hUnreal]
        exact ⟨rfl, rfl⟩
      · rcases exec_done_iff.mp hExec with ⟨rfl, rfl⟩
        refine ⟨rfl, false, ?_⟩
        rw [Sx1262Radio.startTransmit, Air.turn, hPop]
        dsimp only
        rw [unreal_eq, if_neg hUnreal, if_pos hRefused]
        exact ⟨rfl, rfl⟩
      · rcases exec_call_iff.mp hExec with
          ⟨started, rest, rfl, hRest⟩
        cases started with
        | true =>
            rcases exec_done_iff.mp hRest with ⟨rfl, rfl⟩
            refine ⟨rfl, true, ?_⟩
            rw [Sx1262Radio.startTransmit, Air.turn, hPop]
            dsimp only
            rw [unreal_eq, if_neg hUnreal, if_neg hRefused]
            exact ⟨rfl, rfl⟩
        | false =>
            change
              Exec (startListening >>= fun _ => _) rest r'
              at hRest
            rcases exec_bind_iff.mp hRest with
              ⟨arm, listening, _, rfl, hArm, hDone⟩
            rcases exec_done_iff.mp hDone with ⟨rfl, rfl⟩
            rcases startListening_exec hArm with
              ⟨hNone, hStarted⟩
            refine ⟨?_, false, ?_⟩
            · change answersIn (arm ++ []) = []
              rw [List.append_nil, hNone]
            · rw [Sx1262Radio.startTransmit, Air.turn, hPop]
              dsimp only
              rw [unreal_eq, if_neg hUnreal, if_neg hRefused]
              refine ⟨rfl, ?_⟩
              change startedIn (arm ++ []) = []
              rw [List.append_nil, hStarted]

theorem finishTransmit_exec
    {r r' : Sx1262Radio} {calls : List ChipCall}
    (hExec : Exec (finishTransmit r) calls r') :
    r' = { r with transmitting := false } ∧
      answersIn calls = [] ∧ startedIn calls = [] := by
  rcases exec_call_iff.mp hExec with ⟨_, rest, rfl, hRest⟩
  change
    Exec (startListening >>= fun _ => _) rest r' at hRest
  rcases exec_bind_iff.mp hRest with
    ⟨arm, listening, _, rfl, hArm, hDone⟩
  rcases exec_done_iff.mp hDone with ⟨rfl, rfl⟩
  rcases startListening_exec hArm with ⟨hNone, hStarted⟩
  refine ⟨rfl, ?_, ?_⟩
  · change answersIn (arm ++ []) = []
    rw [List.append_nil, hNone]
  · change startedIn (arm ++ []) = []
    rw [List.append_nil, hStarted]

/-
  A tick in three: off, waiting for a transmission to end,
  or receiving and then sending.
-/
theorem tick_cases
    {r r' : Sx1262Radio} {now : Millis}
    {calls : List ChipCall}
    (hExec : Exec (tick sink airtimeUs r now) calls r') :
    (r.device = false ∧ calls = [] ∧
        r' = { r with now := now }) ∨
      (r.device = true ∧ r.transmitting = true ∧
        answersIn calls = [] ∧ startedIn calls = [] ∧
          ∃ finished,
            r' =
              if finished || r.transmitDeadline ≤ now then
                { r with now := now, transmitting := false }
              else { r with now := now }) ∨
      (r.device = true ∧ r.transmitting = false ∧
        ∃ received sent,
          calls = received ++ sent ∧
            startedIn received = [] ∧ answersIn sent = [] ∧
              Exec
                (startTransmit airtimeUs
                  (sendAll { r with now := now }
                    (answersIn received)) now)
                sent r') := by
  rw [tick] at hExec
  by_cases hOn : r.device = true
  · rw [if_neg (by simp [hOn])] at hExec
    by_cases hBusy : r.transmitting = true
    · right; left
      rw [if_pos hBusy] at hExec
      rcases exec_call_iff.mp hExec with
        ⟨finished, rest, rfl, hRest⟩
      refine ⟨hOn, hBusy, ?_⟩
      change
        answersIn rest = [] ∧ startedIn rest = [] ∧ _
      cases finished with
      | true =>
          rcases finishTransmit_exec hRest with
            ⟨rfl, hNone, hStarted⟩
          exact ⟨hNone, hStarted, true, rfl⟩
      | false =>
          change
            Exec
              (if r.transmitDeadline ≤ now then _ else _)
              rest r' at hRest
          split_ifs at hRest with hLate
          · rcases finishTransmit_exec hRest with
              ⟨rfl, hNone, hStarted⟩
            exact ⟨hNone, hStarted, false, by simp [hLate]⟩
          · rcases exec_done_iff.mp hRest with ⟨rfl, rfl⟩
            exact ⟨rfl, rfl, false, by simp [hLate]⟩
    · right; right
      rw [if_neg hBusy] at hExec
      rcases exec_bind_iff.mp hExec with
        ⟨received, r₁, sent, rfl, hCollect, hStart⟩
      rcases collect_exec hCollect with ⟨rfl, hNone⟩
      exact ⟨hOn, by simpa using hBusy, received, sent, rfl,
        hNone, (startTransmit_exec hStart).1, hStart⟩
  · left
    have hOff : r.device = false := by simpa using hOn
    rw [if_pos (by simp [hOff])] at hExec
    rcases exec_done_iff.mp hExec with ⟨rfl, rfl⟩
    exact ⟨hOff, rfl, rfl⟩

/- What starts now has its slot now. -/
theorem slotsOf_startTransmit
    (r : Sx1262Radio)
    (now : Millis)
    (starts : Bool) :
    slotsOf (r.startTransmit airtimeUs now starts).1 =
      (sentIn (r.startTransmit airtimeUs now starts).1).map
        fun e =>
          { atMs := now
            airtimeUs := airtimeUs e.2.length } := by
  rw [Sx1262Radio.startTransmit, Air.turn]
  cases r.air.queue.pop with
  | none => rfl
  | some taken =>
      dsimp only
      split_ifs <;> rfl

/- What it would be to have started one. -/
theorem startTransmit_started
    {r : Sx1262Radio} {now : Millis} {starts : Bool}
    (hIdle : r.transmitting = false)
    (hBusy :
      (r.startTransmit airtimeUs now starts).2.transmitting =
        true) :
    ∃ e,
      sentIn (r.startTransmit airtimeUs now starts).1 = [e] ∧
        (r.startTransmit airtimeUs now
              starts).2.transmitDeadline =
          now + (airtimeUs e.2.length / 1000).toUInt64 +
            transmitGraceMs := by
  revert hBusy
  rw [Sx1262Radio.startTransmit, Air.turn]
  cases r.air.queue.pop with
  | none =>
      intro hBusy
      exact absurd hBusy (by simp [hIdle])
  | some taken =>
      rcases taken with ⟨e, queue⟩
      dsimp only
      split_ifs
      · intro hBusy
        exact absurd hBusy (by simp [hIdle])
      · intro hBusy
        exact absurd hBusy (by simp [hIdle])
      · intro hBusy
        exact absurd hBusy (by simp [hIdle])
      · intro _
        exact ⟨e.bare, rfl, rfl⟩

theorem startTransmit_same
    (r : Sx1262Radio) (now : Millis) (starts : Bool) :
    (r.startTransmit airtimeUs now starts).2.now = r.now ∧
      (r.startTransmit airtimeUs now starts).2.device =
        r.device := by
  rw [Sx1262Radio.startTransmit]
  split <;> exact ⟨rfl, rfl⟩

theorem now_sendAll
    (r : Sx1262Radio)
    (frames : List (TxPriority × Bytes)) :
    (sendAll r frames).now = r.now := by
  induction frames generalizing r with
  | nil => rfl
  | cons f frames ih =>
      rw [sendAll_cons, ih]
      rfl

theorem sendAll_now
    (r : Sx1262Radio)
    (now : Millis)
    (frames : List (TxPriority × Bytes)) :
    sendAll { r with now := now } frames =
      { sendAll r frames with now := now } := by
  induction frames generalizing r with
  | nil => rfl
  | cons f frames ih =>
      rw [sendAll_cons, sendAll_cons, ← ih]
      rfl

section DriverTick

variable {r : Sx1262Radio} {now : Millis}
variable {finished starts : Bool}

theorem driverTick_off (hOff : r.device = false) :
    r.tick airtimeUs now finished starts =
      ([], { r with now := now }) := by
  rw [Sx1262Radio.tick, if_pos (by simp [hOff])]

theorem driverTick_busy
    (hOn : r.device = true)
    (hBusy : r.transmitting = true) :
    r.tick airtimeUs now finished starts =
      ([],
        if finished || r.transmitDeadline ≤ now then
          { r with now := now, transmitting := false }
        else { r with now := now }) := by
  rw [Sx1262Radio.tick, if_neg (by simp [hOn]),
    if_pos hBusy]
  split_ifs <;> rfl

theorem driverTick_idle
    (hOn : r.device = true)
    (hIdle : r.transmitting = false) :
    r.tick airtimeUs now finished starts =
      Sx1262Radio.startTransmit airtimeUs
        { r with now := now } now starts := by
  rw [Sx1262Radio.tick, if_neg (by simp [hOn]),
    if_neg (by simp [hIdle])]

end DriverTick

/-
  A tick is the sends of the layers above and then a tick of
  the driver, to whom the chip said that it was finished, or
  that it would start, or not.
-/
theorem tick_exec
    {r r' : Sx1262Radio} {now : Millis}
    {calls : List ChipCall}
    (hExec : Exec (tick sink airtimeUs r now) calls r') :
    ∃ finished starts,
      r' =
          ((sendAll r (answersIn calls)).tick airtimeUs now
            finished starts).2 ∧
        startedIn calls =
          (sentIn
            ((sendAll r (answersIn calls)).tick airtimeUs now
              finished starts).1).map Prod.snd ∧
        slotsOf
            ((sendAll r (answersIn calls)).tick airtimeUs now
              finished starts).1 =
          (startedIn calls).map fun frame =>
            { atMs := now
              airtimeUs := airtimeUs frame.length } := by
  rcases tick_cases hExec with
    ⟨hOff, rfl, rfl⟩ |
      ⟨hOn, hBusy, hNone, hStarted, finished, rfl⟩ |
        ⟨hOn, hIdle, received, sent, rfl, hNone, hQuiet,
          hStart⟩
  · have hNothing : sendAll r (answersIn []) = r := rfl
    refine ⟨false, false, ?_⟩
    rw [hNothing, driverTick_off hOff]
    exact ⟨rfl, rfl, rfl⟩
  · refine ⟨finished, false, ?_⟩
    rw [hNone, hStarted, sendAll_nil,
      driverTick_busy hOn hBusy]
    exact ⟨rfl, rfl, rfl⟩
  · rcases startTransmit_exec hStart with
      ⟨-, starts, rfl, hSent⟩
    refine ⟨false, starts, ?_⟩
    rw [sendAll_now] at hSent ⊢
    rw [answersIn_append, hQuiet, List.append_nil,
      startedIn_append, hNone, List.nil_append, hSent,
      driverTick_idle
        (by rw [device_sendAll, hOn])
        (by rw [transmitting_sendAll, hIdle]),
      slotsOf_startTransmit, List.map_map]
    exact ⟨rfl, rfl, rfl⟩

end Ticks

------------------------------------------------------------
-- Runs
------------------------------------------------------------

/- A tick is told with everything the chip was asked in it. -/
inductive Event where
| send (P : TxPriority) (frame : Bytes)
| tick (now : Millis) (calls : List ChipCall)

def Event.calls : Event → List ChipCall
| .send _ _ => []
| .tick _ calls => calls

/- What it offers the driver to send. -/
def Event.offers : Event → List (TxPriority × Bytes)
| .send P frame => [(P, frame)]
| .tick _ calls => answersIn calls

/- When and for how long it puts something on the air. -/
def Event.slots
    (airtimeUs : Nat → UInt32) :
    Event → List Slot
| .send _ _ => []
| .tick now calls =>
    (startedIn calls).map fun frame =>
      { atMs := now, airtimeUs := airtimeUs frame.length }

def callsIn
    (ts : List (Transition Sx1262Radio Event)) :
    List ChipCall :=
  ts.flatMap fun t => t.event.calls

def offersIn
    (ts : List (Transition Sx1262Radio Event)) :
    List (TxPriority × Bytes) :=
  ts.flatMap fun t => t.event.offers

def slotsIn
    (airtimeUs : Nat → UInt32)
    (ts : List (Transition Sx1262Radio Event)) :
    List Slot :=
  ts.flatMap fun t => t.event.slots airtimeUs

/- The layers above send, or the loop comes round. -/
def Step
    (sink : Bool)
    (airtimeUs : Nat → UInt32)
    (r : Sx1262Radio)
    (e : Event)
    (r' : Sx1262Radio) :
    Prop :=
  match e with
  | .send P frame => r' = send r P frame
  | .tick now calls =>
      r.now ≤ now ∧
        Program.Exec (tick sink airtimeUs r now) calls r'

section Runs

open Program

variable {sink : Bool} {airtimeUs : Nat → UInt32}

/- What is sent and what is called keeps them agreed. -/
theorem agree_of_run
    {r₀ r : Sx1262Radio}
    {ts : List (Transition Sx1262Radio Event)}
    {m₀ : Mode}
    (hAgree : Agree m₀ r₀)
    (hRun : Run (Step sink airtimeUs) r₀ ts r) :
    ∃ m, Protocol.after mayDo m₀ (callsIn ts) = some m ∧
      Agree m r := by
  induction hRun with
  | start => exact ⟨m₀, rfl, hAgree⟩
  | @step ts r r' e _ hStep ih =>
      rcases ih with ⟨m, hAfter, hHere⟩
      have hCalls :
          callsIn (ts ++ [⟨r, e, r'⟩]) =
            callsIn ts ++ e.calls := by
        simp [callsIn]
      rw [hCalls, Protocol.after_append, hAfter,
        Option.bind_some]
      cases e with
      | send P frame =>
          subst hStep
          exact ⟨m, rfl, hHere⟩
      | tick now calls =>
          exact (tick_obeys r now hHere).exec hStep.2

/-
  From the first command to the last, whatever the chip
  answers, nothing is commanded that its mode forbids; and
  between two ticks it sends if and only if the driver
  believes so.
-/
theorem half_duplex
    {options : Sx1262Options}
    {r₀ r₁ r₂ : Sx1262Radio}
    {opening : List ChipCall}
    {ts : List (Transition Sx1262Radio Event)}
    (hIdle : r₀.transmitting = false)
    (hOpen : Exec (openRadio options r₀) opening (true, r₁))
    (hRun : Run (Step sink airtimeUs) r₁ ts r₂) :
    ∃ m,
      Protocol.after mayDo .off (opening ++ callsIn ts) =
          some m ∧
        (r₂.transmitting = true ↔ m = .sending) ∧
          (r₂.transmitting = false ↔ m.Armed) ∧
            ∀ closing, Exec (close r₂) closing () →
              Protocol.after mayDo m closing =
                some .off := by
  rcases (openRadio_obeys options r₀).exec hOpen with
    ⟨m₁, hOpened, hListening⟩
  rcases hListening rfl with ⟨rfl, hDevice⟩
  have hStart : Agree .listening r₁ := by
    rw [show r₁ = _ from hDevice]
    refine ⟨rfl, ?_⟩
    change if r₀.transmitting then _ else _
    rw [hIdle]
    exact .inl rfl
  rcases agree_of_run hStart hRun with ⟨m, hAfter, hAgree⟩
  refine ⟨m, ?_, ?_, ?_, ?_⟩
  · rw [Protocol.after_append, hOpened]
    exact hAfter
  · exact hAgree.sending_iff
  · exact hAgree.armed_iff
  · intro closing hClose
    rcases (close_obeys r₂ hAgree).exec hClose with
      ⟨_, hClosed, rfl⟩
    exact hClosed

/- The sends of the layers above, one call each. -/
theorem sends_run
    (s : Traffic) {r : Sx1262Radio}
    (hDriver : s.driver = .sx1262 r)
    (frames : List (TxPriority × Bytes)) :
    ∃ us s',
      Run (Traffic.Step airtimeUs) s us s' ∧
        s'.driver = .sx1262 (sendAll r frames) ∧
          s'.turns = s.turns ∧
            Traffic.offered us = frames := by
  induction frames generalizing s r with
  | nil => exact ⟨[], s, .start, hDriver, rfl, rfl⟩
  | cons f frames ih =>
      have hSent :
          (s.call airtimeUs (.send f.2 f.1)).driver =
            .sx1262 (send r f.1 f.2) := by
        simp only [Traffic.call, hDriver]
        rfl
      rcases ih (s.call airtimeUs (.send f.2 f.1)) hSent with
        ⟨us, s', hRun, hDriver', hTurns, hOffered⟩
      have hFirst :
          Traffic.Step airtimeUs s (.send f.2 f.1)
            (s.call airtimeUs (.send f.2 f.1)) :=
        ⟨trivial, rfl⟩
      refine
        ⟨_, s', (Run.single hFirst).trans hRun, hDriver',
          hTurns, ?_⟩
      rw [Traffic.offered_append, hOffered]
      rfl

/-
  Seen from above, the chip and its commands are the driver:
  a run of the one is a run of the other, in which the same
  frames are offered, and the frames the chip took to send,
  with their times, are those that the driver put on the air.
-/
theorem chip_is_driven
    {r₀ r : Sx1262Radio}
    {ts : List (Transition Sx1262Radio Event)}
    (hRun : Run (Step sink airtimeUs) r₀ ts r) :
    ∃ us s,
      Run (Traffic.Step airtimeUs) { driver := .sx1262 r₀ }
          us s ∧
        s.driver = .sx1262 r ∧
          Traffic.offered us = offersIn ts ∧
            (sentIn s.turns).map Prod.snd =
                startedIn (callsIn ts) ∧
              slotsOf s.turns = slotsIn airtimeUs ts := by
  induction hRun with
  | start => exact ⟨[], _, .start, rfl, rfl, rfl, rfl⟩
  | @step ts r r' e _ hStep ih =>
      rcases ih with
        ⟨us, s, hDriven, hDriver, hOffers, hSent, hSlots⟩
      have hCalls :
          callsIn (ts ++ [⟨r, e, r'⟩]) =
            callsIn ts ++ e.calls := by
        simp [callsIn]
      have hMore :
          offersIn (ts ++ [⟨r, e, r'⟩]) =
            offersIn ts ++ e.offers := by
        simp [offersIn]
      have hLater :
          slotsIn airtimeUs (ts ++ [⟨r, e, r'⟩]) =
            slotsIn airtimeUs ts ++ e.slots airtimeUs := by
        simp [slotsIn]
      rw [hCalls, hMore, hLater]
      rcases @sends_run airtimeUs s r hDriver e.offers with
        ⟨vs, s', hSends, hDriver', hTurns, hOffered⟩
      cases e with
      | send P frame =>
          subst hStep
          refine ⟨us ++ vs, s', hDriven.trans hSends,
            hDriver', ?_, ?_, ?_⟩
          · rw [Traffic.offered_append, hOffers, hOffered]
          · rw [hTurns, hSent, startedIn_append]
            exact (List.append_nil _).symm
          · rw [hTurns, hSlots]
            exact (List.append_nil _).symm
      | tick now calls =>
          rcases tick_exec hStep.2 with
            ⟨finished, starts, rfl, hStarted, hSlotsNow⟩
          have hTick :
              Traffic.Step airtimeUs s'
                (.tick now finished starts)
                (s'.call airtimeUs
                  (.tick now finished starts)) := by
            refine ⟨?_, rfl⟩
            change s'.driver.now ≤ now
            rw [hDriver']
            exact (now_sendAll r _).trans_le hStep.1
          have hTurn :
              (s'.call airtimeUs
                  (.tick now finished starts)).turns =
                s.turns ++
                  ((sendAll r (answersIn calls)).tick
                    airtimeUs now finished starts).1 := by
            simp only [Traffic.call, hDriver', hTurns]
            rfl
          refine
            ⟨us ++ vs ++ _, _,
              (hDriven.trans hSends).trans (.single hTick),
              ?_, ?_, ?_, ?_⟩
          · simp only [Traffic.call, hDriver']
            rfl
          · rw [Traffic.offered_append,
              Traffic.offered_append, hOffers, hOffered]
            exact List.append_nil _
          · rw [hTurn, sentIn_append, List.map_append, hSent,
              startedIn_append, ← hStarted]
            rfl
          · rw [hTurn, slotsOf_append, hSlots, hSlotsNow]
            rfl

/-
  The transmission under way is of a frame that the chip
  took in some tick, and no later one, and its time is not
  up or that tick was the last.
-/
def Underway
    (airtimeUs : Nat → UInt32)
    (ts : List (Transition Sx1262Radio Event))
    (r : Sx1262Radio) :
    Prop :=
  ∃ pre t post started calls frame,
    ts = pre ++ t :: post ∧
      t.event = .tick started calls ∧
      frame ∈ startedIn calls ∧
      startedIn (callsIn post) = [] ∧
      started ≤ r.now ∧
      r.transmitDeadline =
          started +
              (airtimeUs frame.length / 1000).toUInt64 +
            transmitGraceMs ∧
      (r.now = started ∨ r.now < r.transmitDeadline)

/- A tick that starts nothing keeps what is under way. -/
theorem Underway.keep
    {ts : List (Transition Sx1262Radio Event)}
    {t : Transition Sx1262Radio Event}
    {r r' : Sx1262Radio}
    (hUnderway : Underway airtimeUs ts r)
    (hNothing : startedIn t.event.calls = [])
    (hTime : r.now ≤ r'.now)
    (hSame : r'.transmitDeadline = r.transmitDeadline)
    (hKept : r'.now = r.now ∨ r'.now < r.transmitDeadline) :
    Underway airtimeUs (ts ++ [t]) r' := by
  rcases hUnderway with
    ⟨pre, u, post, started, calls, frame, rfl, hEvent,
      hFrame, hNone, hPast, hDeadline, hWithin⟩
  refine
    ⟨pre, u, post ++ [t], started, calls, frame, by simp,
      hEvent, hFrame, ?_, UInt64.le_trans hPast hTime,
      hSame.trans hDeadline, ?_⟩
  · have hCalls :
        callsIn (post ++ [t]) =
          callsIn post ++ t.event.calls := by
      simp [callsIn]
    rw [hCalls, startedIn_append, hNone, hNothing]
    rfl
  · rw [hSame]
    rcases hKept with hNow | hBefore
    · rw [hNow]
      exact hWithin
    · exact .inr hBefore

theorem underway_of_run
    {r₀ r : Sx1262Radio}
    {ts : List (Transition Sx1262Radio Event)}
    (hIdle : r₀.transmitting = false)
    (hRun : Run (Step sink airtimeUs) r₀ ts r) :
    r.transmitting = true →
      r.device = true ∧ Underway airtimeUs ts r := by
  induction hRun with
  | start =>
      intro hBusy
      rw [hIdle] at hBusy
      cases hBusy
  | @step ts r r' e _ hStep ih =>
      intro hBusy'
      cases e with
      | send P frame =>
          subst hStep
          rcases ih hBusy' with ⟨hOn, hUnderway⟩
          exact ⟨hOn,
            hUnderway.keep rfl (UInt64.le_refl _) rfl
              (.inl rfl)⟩
      | tick now calls =>
          rcases tick_cases hStep.2 with
            ⟨hOff, rfl, rfl⟩ |
              ⟨hOn, hBusy, hNone, hStarted, finished, rfl⟩ |
                ⟨hOn, hFree, received, sent, rfl, hNone,
                  hQuiet, hStart⟩
          · rcases ih hBusy' with ⟨hOn, -⟩
            rw [hOff] at hOn
            cases hOn
          · rcases ih hBusy with ⟨-, hUnderway⟩
            split_ifs at hBusy' ⊢ with hOver
            refine ⟨hOn,
              hUnderway.keep hStarted hStep.1 rfl ?_⟩
            have hBefore :
                finished = false ∧
                  now < r.transmitDeadline := by
              simpa using hOver
            exact .inr hBefore.2
          · rcases startTransmit_exec hStart with
              ⟨-, starts, rfl, hSent⟩
            have hIdle' :
                (sendAll { r with now := now }
                    (answersIn received)).transmitting =
                  false := by
              rw [transmitting_sendAll]
              exact hFree
            rcases startTransmit_started hIdle' hBusy' with
              ⟨e, hOne, hDeadline⟩
            rcases @startTransmit_same airtimeUs
                (sendAll { r with now := now }
                  (answersIn received)) now starts with
              ⟨hNow, hDevice⟩
            rw [now_sendAll] at hNow
            rw [device_sendAll] at hDevice
            refine ⟨hDevice.trans hOn,
              ts, _, [], now, _, e.2, rfl, rfl, ?_, rfl, ?_,
              hDeadline, .inl hNow⟩
            · rw [startedIn_append, hNone, hSent, hOne]
              exact List.mem_singleton_self _
            · rw [hNow]
              exact UInt64.le_refl now

/-
  The driver never waits for ever: whatever the chip says or
  leaves unsaid, a tick at which the frame's own airtime and
  the grace have passed is the last of its transmission.
-/
theorem never_waits_forever
    {r₀ r : Sx1262Radio}
    {ts : List (Transition Sx1262Radio Event)}
    (hIdle : r₀.transmitting = false)
    (hRun : Run (Step sink airtimeUs) r₀ ts r)
    (hClear : r.now.toNat + 2 ^ 32 < 2 ^ 64)
    (hBusy : r.transmitting = true) :
    ∃ pre t post started calls frame,
      ts = pre ++ t :: post ∧
        t.event = .tick started calls ∧
        frame ∈ startedIn calls ∧
        startedIn (callsIn post) = [] ∧
        started ≤ r.now ∧
        r.now.toNat <
          started.toNat +
            (airtimeUs frame.length).toNat / 1000 + 500 := by
  rcases underway_of_run hIdle hRun hBusy with
    ⟨-, pre, t, post, started, calls, frame, hSplit, hEvent,
      hFrame, hNone, hPast, hDeadline, hWithin⟩
  refine ⟨pre, t, post, started, calls, frame, hSplit,
    hEvent, hFrame, hNone, hPast, ?_⟩
  rcases hWithin with hNow | hBefore
  · rw [hNow]
    omega
  · rw [hDeadline, UInt64.lt_iff_toNat_lt,
      UInt64.toNat_add, UInt64.toNat_add] at hBefore
    have hAirtime := (airtimeUs frame.length).toNat_lt
    have hGrace : transmitGraceMs.toNat = 500 := rfl
    have hMs :
        ((airtimeUs frame.length / 1000).toUInt64).toNat =
          (airtimeUs frame.length).toNat / 1000 := by
      rw [UInt32.toNat_toUInt64, UInt32.toNat_div]
      rfl
    rw [hMs, hGrace] at hBefore
    rw [UInt64.le_iff_toNat_le] at hPast
    omega

end Runs

------------------------------------------------------------
-- A Chip
------------------------------------------------------------

section Example

/- One that does as it is told, and hears nothing. -/
def willing : Program.Handler ChipOp ChipOp.Ans Unit :=
  fun op _ =>
    match op with
    | .begin => (true, ())
    | .setDio2AsRfSwitch _ => (true, ())
    | .setRfSwitchPins _ _ => ((), ())
    | .setCurrentLimit => (true, ())
    | .startReceive => (true, ())
    | .rxDone => (false, ())
    | .getPacketLength => ((0 : Nat), ())
    | .readData length => ((.none, .replicate length 0), ())
    | .getRSSI => ((-60 : Int16), ())
    | .getSNR => ((8 : Int16), ())
    | .onFrame _ _ => ([], ())
    | .startTransmit _ => (true, ())
    | .txDone => (false, ())
    | .finishTransmit => ((), ())
    | .standby => ((), ())
    | .sleep => ((), ())
    | .term => ((), ())

def unopened : Sx1262Radio :=
  { air :=
      { duty := { percent := 10, window := 20000 }
        queue := { depth := 4 } } }

def opened : Sx1262Radio :=
  { unopened with device := true }

def openingCalls : List ChipCall :=
  Program.trace willing (openRadio {} unopened) ()

theorem opens :
    Program.Exec (openRadio {} unopened) openingCalls
      (true, opened) :=
  Program.run_exec willing (openRadio {} unopened) ()

/- It is given a frame, and sends it in the next tick. -/
def queued : Sx1262Radio :=
  send opened .normal [1, 2, 3]

def sendingTick : ChipM Sx1262Radio :=
  tick true Traffic.shortAirtimeUs queued 1

def sendingRadio : Sx1262Radio :=
  (Program.run willing sendingTick ()).1

def sendingRun : List (Transition Sx1262Radio Event) :=
  [⟨opened, .send .normal [1, 2, 3], queued⟩,
    ⟨queued, .tick 1 (Program.trace willing sendingTick ()),
      sendingRadio⟩]

theorem sends :
    Run (Step true Traffic.shortAirtimeUs) opened sendingRun
      sendingRadio :=
  .step (.step .start rfl)
    ⟨by decide, Program.run_exec willing sendingTick ()⟩

theorem first_frame_is_half_duplex :
    sendingRadio.transmitting = true ∧
      ∃ m,
        Program.Protocol.after mayDo .off
              (openingCalls ++ callsIn sendingRun) =
            some m ∧
          (sendingRadio.transmitting = true ↔
              m = .sending) ∧
            (sendingRadio.transmitting = false ↔ m.Armed) ∧
              ∀ closing,
                Program.Exec (close sendingRadio) closing
                    () →
                  Program.Protocol.after mayDo m closing =
                    some .off :=
  ⟨by decide, half_duplex rfl opens sends⟩

theorem first_frame_is_driven :
    ∃ us s,
      Run (Traffic.Step Traffic.shortAirtimeUs)
          { driver := .sx1262 opened } us s ∧
        s.driver = .sx1262 sendingRadio ∧
          Traffic.offered us = offersIn sendingRun ∧
            (sentIn s.turns).map Prod.snd =
                startedIn (callsIn sendingRun) ∧
              slotsOf s.turns =
                slotsIn Traffic.shortAirtimeUs sendingRun :=
  chip_is_driven sends

theorem first_frame_ends :
    ∃ pre t post started calls frame,
      sendingRun = pre ++ t :: post ∧
        t.event = .tick started calls ∧
        frame ∈ startedIn calls ∧
        startedIn (callsIn post) = [] ∧
        started ≤ sendingRadio.now ∧
        sendingRadio.now.toNat <
          started.toNat +
            (Traffic.shortAirtimeUs frame.length).toNat /
              1000 + 500 :=
  never_waits_forever rfl sends (by decide)
    (by decide)

end Example

end Sx1262

end MeshCore
