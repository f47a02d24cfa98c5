import MeshCore.Radio.PutBack

/-
  What a driver does with the frames it is given: it makes
  up none, doubles none and forgets none. Whatever is asked
  of it and in whatever order, each frame it was offered was
  turned away at a full queue, was on the air, was dropped
  as no real frame, or still waits.

  Key definitions include:
    * `DriverCall.offer`
    * `sentIn`, `droppedIn`, `TxQueue.contents`
    * `Traffic.Unsendable`

  Key facts include:
    * `Air.turn_conserves`
    * `Traffic.call_conserves`
    * `Traffic.nothing_is_lost`
-/

namespace MeshCore

------------------------------------------------------------
-- The Queue
------------------------------------------------------------

/- An entry without its number. -/
def TxEntry.bare (e : TxEntry) : TxPriority × Bytes :=
  (e.priority, e.frame)

namespace TxQueue

def contents (q : TxQueue) : List (TxPriority × Bytes) :=
  q.entries.map TxEntry.bare

/- What is popped was there, and the rest still is. -/
theorem contents_pop
    {q q' : TxQueue} {e : TxEntry}
    (hPop : q.pop = some (e, q')) :
    q.contents.Perm (e.bare :: q'.contents) := by
  rcases pop_eq_some hPop with ⟨as, bs, hEntries, rfl, -⟩
  simp only [contents, hEntries, List.map_append,
    List.map_cons]
  exact List.perm_middle

theorem contents_push
    {q : TxQueue}
    (hRoom : q.entries.length < q.depth)
    (frame : Bytes) (P : TxPriority) :
    (q.push frame P).2.contents =
      q.contents ++ [(P, frame)] := by
  rw [push_room hRoom]
  simp [contents, TxEntry.bare]

end TxQueue

------------------------------------------------------------
-- Turns
------------------------------------------------------------

def sentIn
    (turns : List (Transition Air Outcome)) :
    List (TxPriority × Bytes) :=
  turns.filterMap fun t =>
    match t.event with
    | .sent e _ => some e.bare
    | _ => none

def droppedIn
    (turns : List (Transition Air Outcome)) :
    List (TxPriority × Bytes) :=
  turns.filterMap fun t =>
    match t.event with
    | .dropped e => some e.bare
    | _ => none

theorem sentIn_append
    (turns more : List (Transition Air Outcome)) :
    sentIn (turns ++ more) = sentIn turns ++ sentIn more :=
  List.filterMap_append

theorem droppedIn_append
    (turns more : List (Transition Air Outcome)) :
    droppedIn (turns ++ more) =
      droppedIn turns ++ droppedIn more :=
  List.filterMap_append

namespace Air

open scoped List

variable {airtimeUs : Nat → UInt32}
variable {usable : Bytes → Bool} {starts : Bool}
variable {now : Millis}

/- A turn moves at most one frame, and loses none. -/
theorem turn_conserves
    {air air' : Air} {outcome : Outcome}
    (hFits : air.queue.Fits)
    (hTurn :
      turn airtimeUs usable starts now air =
        (outcome, air')) :
    air'.queue.Fits ∧
      air'.queue.depth = air.queue.depth ∧
      air.queue.contents.Perm
        (sentIn [⟨air, outcome, air'⟩] ++
          droppedIn [⟨air, outcome, air'⟩] ++
          air'.queue.contents) := by
  rcases turn_cases hTurn with
    ⟨rfl, rfl⟩ | ⟨e, hGone, hPop⟩ |
      ⟨e, queue, rfl, hPop, hQueue⟩
  · exact ⟨hFits, rfl, List.Perm.refl _⟩
  · have hDepth : air'.queue.depth = air.queue.depth := by
      rcases TxQueue.pop_eq_some hPop with ⟨_, _, -, hEq, -⟩
      rw [hEq]
    refine ⟨hFits.pop hPop, hDepth, ?_⟩
    have hMoved :
        sentIn [⟨air, outcome, air'⟩] ++
            droppedIn [⟨air, outcome, air'⟩] =
          [e.bare] := by
      rcases hGone with rfl | ⟨slot, rfl⟩ <;> rfl
    rw [hMoved]
    exact TxQueue.contents_pop hPop
  · have hDepth : queue.depth = air.queue.depth := by
      rcases TxQueue.pop_eq_some hPop with ⟨_, _, -, hEq, -⟩
      rw [hEq]
    -- a refused frame finds the place it has just left
    have hRoom := room_of_pop hFits hPop
    rw [hQueue]
    refine
      ⟨(hFits.pop hPop).push e.frame e.priority, ?_, ?_⟩
    · rw [TxQueue.push_room hRoom]
      exact hDepth
    · rw [TxQueue.contents_push hRoom]
      exact (TxQueue.contents_pop hPop).trans
        (List.perm_append_singleton _ _).symm

/- A frame is dropped if it is none or does not start. -/
theorem turn_dropped
    {air air' : Air} {e : TxEntry}
    (hTurn :
      turn airtimeUs usable starts now air =
        (.dropped e, air')) :
    usable e.frame = false ∨ starts = false := by
  simp only [turn] at hTurn
  cases hPop : air.queue.pop with
  | none => simp [hPop] at hTurn
  | some r =>
      rcases r with ⟨e', queue⟩
      simp only [hPop] at hTurn
      split_ifs at hTurn with hUsable hAllowed hStarts
      · simp only [Prod.mk.injEq, Outcome.dropped.injEq]
          at hTurn
        rw [← hTurn.1]
        exact .inl (by simpa using hUsable)
      · simp at hTurn
      · exact .inr (by simpa using hStarts)
      · simp at hTurn

/- What a turn moved, put before what the others do. -/
theorem regroup
    {α : Type}
    {rest sent dropped waiting : List α}
    (first : List α × List α)
    (hPerm : rest.Perm (sent ++ dropped ++ waiting)) :
    (first.1 ++ first.2 ++ rest).Perm
      (first.1 ++ sent ++ (first.2 ++ dropped) ++
        waiting) := by
  calc
    first.1 ++ first.2 ++ rest ~
        first.1 ++ first.2 ++ (sent ++ dropped ++ waiting) :=
      hPerm.append_left _
    _ = first.1 ++ (first.2 ++ sent) ++
          (dropped ++ waiting) := by simp
    _ ~ first.1 ++ (sent ++ first.2) ++
          (dropped ++ waiting) :=
      (List.perm_append_comm.append_left _).append_right _
    _ = first.1 ++ sent ++ (first.2 ++ dropped) ++
          waiting := by simp

variable (airtimeUs usable starts now)

/- Turn after turn. -/
theorem drain_conserves
    (n : Nat)
    {air : Air}
    (hFits : air.queue.Fits) :
    let drained := drain airtimeUs usable starts now n air
    drained.2.queue.Fits ∧
      drained.2.queue.depth = air.queue.depth ∧
      air.queue.contents.Perm
        (sentIn drained.1 ++ droppedIn drained.1 ++
          drained.2.queue.contents) ∧
      ∀ sent ∈ droppedIn drained.1,
        usable sent.2 = false ∨ starts = false := by
  induction n generalizing air with
  | zero =>
      exact ⟨hFits, rfl, List.Perm.refl _, by
        simp [drain, droppedIn]⟩
  | succ n ih =>
      rcases hTurn :
          turn airtimeUs usable starts now air with
        ⟨outcome, air'⟩
      rcases turn_conserves hFits hTurn with
        ⟨hNext, hDepth, hPerm⟩
      have hDropped :
          ∀ sent ∈ droppedIn [⟨air, outcome, air'⟩],
            usable sent.2 = false ∨ starts = false := by
        intro sent hSent
        cases outcome with
        | dropped e =>
            rw [List.mem_singleton.mp hSent]
            exact turn_dropped hTurn
        | idle => simp [droppedIn] at hSent
        | refused e => simp [droppedIn] at hSent
        | sent e slot => simp [droppedIn] at hSent
      -- where the tick goes on, the rest has its own turns
      have hOn :
          let more := drain airtimeUs usable starts now n air'
          let turns := ⟨air, outcome, air'⟩ :: more.1
          more.2.queue.Fits ∧
            more.2.queue.depth = air.queue.depth ∧
            air.queue.contents.Perm
              (sentIn turns ++ droppedIn turns ++
                more.2.queue.contents) ∧
            ∀ sent ∈ droppedIn turns,
              usable sent.2 = false ∨ starts = false := by
        intro more turns
        rcases ih hNext with ⟨hFit, hSame, hMore, hRest⟩
        have hSent :
            sentIn turns =
              sentIn [⟨air, outcome, air'⟩] ++
                sentIn more.1 :=
          sentIn_append [_] more.1
        have hGone :
            droppedIn turns =
              droppedIn [⟨air, outcome, air'⟩] ++
                droppedIn more.1 :=
          droppedIn_append [_] more.1
        refine ⟨hFit, hSame.trans hDepth, ?_, ?_⟩
        · rw [hSent, hGone]
          exact hPerm.trans (regroup (_, _) hMore)
        · intro sent hMem
          rw [hGone] at hMem
          rcases List.mem_append.mp hMem with hMem | hMem
          · exact hDropped sent hMem
          · exact hRest sent hMem
      cases outcome with
      | idle =>
          simp only [drain, hTurn]
          exact ⟨hNext, hDepth, hPerm, hDropped⟩
      | refused e =>
          simp only [drain, hTurn]
          exact ⟨hNext, hDepth, hPerm, hDropped⟩
      | dropped e =>
          simp only [drain, hTurn]
          exact hOn
      | sent e slot =>
          simp only [drain, hTurn]
          exact hOn

end Air

------------------------------------------------------------
-- Calls
------------------------------------------------------------

/- What a call asks the driver to send. -/
def DriverCall.offer :
    DriverCall → Option (TxPriority × Bytes)
| .send frame P => some (P, frame)
| _ => none

namespace Traffic

/- What was offered, call after call. -/
def offered
    (us : List (Transition Traffic DriverCall)) :
    List (TxPriority × Bytes) :=
  us.filterMap fun u => u.event.offer

/- What was offered while the queue was full. -/
def turnedAway
    (us : List (Transition Traffic DriverCall)) :
    List (TxPriority × Bytes) :=
  us.filterMap fun u =>
    if u.before.driver.air.queue.depth ≤
        u.before.driver.air.queue.entries.length then
      u.event.offer
    else none

end Traffic

namespace Driver

/- What a driver takes for a frame that can be sent. -/
def usable (d : Driver) (frame : Bytes) : Bool :=
  match d with
  | .virtual _ => true
  | .udp _ => frame.length ≤ maxPacketFrame
  | .sx1262 _ =>
      !frame.isEmpty && frame.length ≤ maxPacketFrame

/- Only a chip can fail to start a transmission. -/
def begins (d : Driver) (starts : Bool) : Bool :=
  match d with
  | .sx1262 _ => starts
  | _ => true

/- The same driver, at another time. -/
structure Same (d d' : Driver) : Prop where
  usable : d'.usable = d.usable
  begins : d'.begins = d.begins
  depth : d'.air.queue.depth = d.air.queue.depth

theorem same_withAir
    (d : Driver)
    {air : Air}
    (hDepth : air.queue.depth = d.air.queue.depth) :
    d.Same (d.withAir air) where
  usable := by cases d <;> rfl
  begins := by cases d <;> rfl
  depth := by
    rw [air_withAir]
    exact hDepth

variable (airtimeUs : Nat → UInt32)

/- What a tick does to the frames, whatever the driver. -/
theorem tick_conserves
    (d : Driver)
    (now : Millis)
    (done starts : Bool)
    (hFits : d.air.queue.Fits) :
    let ticked := d.tick airtimeUs now done starts
    d.Same ticked.2 ∧
      ticked.2.air.queue.Fits ∧
      d.air.queue.contents.Perm
        (sentIn ticked.1 ++ droppedIn ticked.1 ++
          ticked.2.air.queue.contents) ∧
      ∀ sent ∈ droppedIn ticked.1,
        d.usable sent.2 = false ∨
          d.begins starts = false := by
  intro ticked
  have hNone :
      ∀ d' : Driver,
        d'.air = d.air →
          d'.air.queue.Fits ∧
            d.air.queue.contents.Perm
              (sentIn [] ++ droppedIn [] ++
                d'.air.queue.contents) ∧
            ∀ sent ∈ droppedIn [],
              d.usable sent.2 = false ∨
                d.begins starts = false := by
    intro d' hAir
    rw [hAir]
    exact ⟨hFits, List.Perm.refl _, by simp [droppedIn]⟩
  cases d with
  | virtual r =>
      simp only [ticked, tick, VirtualRadio.tick]
      by_cases hOn : (!r.powered) = true
      · rw [if_pos hOn]
        exact ⟨⟨rfl, rfl, rfl⟩, hNone _ rfl⟩
      · rw [if_neg hOn]
        rcases Air.drain_conserves airtimeUs _ true now
            (turnsFor r.air) hFits with
          ⟨hFit, hDepth, hPerm, hGone⟩
        exact ⟨⟨rfl, rfl, hDepth⟩, hFit, hPerm, hGone⟩
  | udp r =>
      simp only [ticked, tick, UdpRadio.tick]
      by_cases hOn : (!r.socket) = true
      · rw [if_pos hOn]
        exact ⟨⟨rfl, rfl, rfl⟩, hNone _ rfl⟩
      · rw [if_neg hOn]
        rcases Air.drain_conserves airtimeUs _ true now
            (turnsFor r.air) hFits with
          ⟨hFit, hDepth, hPerm, hGone⟩
        exact ⟨⟨rfl, rfl, hDepth⟩, hFit, hPerm, hGone⟩
  | sx1262 r =>
      simp only [ticked, tick, Sx1262Radio.tick]
      by_cases hOn : (!r.device) = true
      · rw [if_pos hOn]
        exact ⟨⟨rfl, rfl, rfl⟩, hNone _ rfl⟩
      · rw [if_neg hOn]
        by_cases hBusy : r.transmitting = true
        · rw [if_pos hBusy]
          split
          · exact ⟨⟨rfl, rfl, rfl⟩, hNone _ rfl⟩
          · exact ⟨⟨rfl, rfl, rfl⟩, hNone _ rfl⟩
        · rw [if_neg hBusy]
          let r' : Sx1262Radio := { r with now := now }
          have hDrain :=
            startTransmit_drains airtimeUs r' now starts
          have hConserves :=
            Air.drain_conserves airtimeUs
              (fun frame =>
                !frame.isEmpty &&
                  frame.length ≤ maxPacketFrame)
              starts now 1
              (show r'.air.queue.Fits from hFits)
          rw [← hDrain] at hConserves
          rcases hConserves with
            ⟨hFit, hDepth, hPerm, hGone⟩
          exact ⟨⟨rfl, rfl, hDepth⟩, hFit, hPerm, hGone⟩

end Driver

namespace Traffic

variable (airtimeUs : Nat → UInt32)

/-
  What was offered is what was on the air, what was dropped,
  what still waits and what was turned away.
-/
structure Conserves
    (d : Driver)
    (us : List (Transition Traffic DriverCall))
    (s : Traffic) :
    Prop where
  same : d.Same s.driver
  fits : s.driver.air.queue.Fits
  conserved :
    (offered us).Perm
      (sentIn s.turns ++ droppedIn s.turns ++
        s.driver.air.queue.contents ++ turnedAway us)
  dropped :
    ∀ sent ∈ droppedIn s.turns,
      d.usable sent.2 = false ∨
        ∃ u ∈ us, ∃ now done starts,
          u.event = .tick now done starts ∧
            d.begins starts = false

variable {d : Driver} {s : Traffic}
variable {us : List (Transition Traffic DriverCall)}

theorem offered_append
    (us more : List (Transition Traffic DriverCall)) :
    offered (us ++ more) = offered us ++ offered more :=
  List.filterMap_append

theorem turnedAway_append
    (us more : List (Transition Traffic DriverCall)) :
    turnedAway (us ++ more) =
      turnedAway us ++ turnedAway more :=
  List.filterMap_append

/- A call that offers nothing and leaves the queue alone. -/
theorem Conserves.idle
    (hConserves : Conserves d us s)
    {c : DriverCall}
    (hOffer : c.offer = none)
    (hSame : s.driver.Same (s.call airtimeUs c).driver)
    (hQueue :
      (s.call airtimeUs c).driver.air.queue =
        s.driver.air.queue)
    (hTurns : (s.call airtimeUs c).turns = s.turns) :
    Conserves d (us ++ [⟨s, c, s.call airtimeUs c⟩])
      (s.call airtimeUs c) where
  same :=
    { usable := hSame.usable.trans hConserves.same.usable
      begins := hSame.begins.trans hConserves.same.begins
      depth := hSame.depth.trans hConserves.same.depth }
  fits := by
    rw [hQueue]
    exact hConserves.fits
  conserved := by
    have hNone :
        offered [⟨s, c, s.call airtimeUs c⟩] = [] ∧
          turnedAway [⟨s, c, s.call airtimeUs c⟩] = [] := by
      simp [offered, turnedAway, hOffer]
    rw [offered_append, turnedAway_append, hNone.1, hNone.2,
      List.append_nil, List.append_nil, hQueue, hTurns]
    exact hConserves.conserved
  dropped := by
    rw [hTurns]
    intro sent hSent
    rcases hConserves.dropped sent hSent with
      hNone | ⟨u, hu, hTick⟩
    · exact .inl hNone
    · exact .inr ⟨u, List.mem_append_left _ hu, hTick⟩

/- An offer goes into the queue, or is turned away. -/
theorem Conserves.send
    (hConserves : Conserves d us s)
    (frame : Bytes) (P : TxPriority) :
    Conserves d
      (us ++
        [⟨s, .send frame P,
          s.call airtimeUs (.send frame P)⟩])
      (s.call airtimeUs (.send frame P)) := by
  let c := DriverCall.send frame P
  have hOffered :
      offered [⟨s, c, s.call airtimeUs c⟩] = [(P, frame)] :=
    rfl
  have hQueue :
      (s.call airtimeUs c).driver.air.queue =
        (s.driver.air.queue.push frame P).2 := by
    simp only [c, call, Driver.send, Driver.air_withAir]
  have hDepth :
      (s.driver.air.queue.push frame P).2.depth =
        s.driver.air.queue.depth := by
    simp only [TxQueue.push]
    split <;> rfl
  have hSame : s.driver.Same (s.call airtimeUs c).driver :=
    Driver.same_withAir s.driver hDepth
  refine
    { same :=
        { usable :=
            hSame.usable.trans hConserves.same.usable
          begins :=
            hSame.begins.trans hConserves.same.begins
          depth := hSame.depth.trans hConserves.same.depth }
      fits := by
        rw [hQueue]
        exact hConserves.fits.push frame P
      conserved := ?_
      dropped := ?_ }
  · rw [offered_append, turnedAway_append, hOffered]
    have hBefore := hConserves.conserved.append_right
      [(P, frame)]
    by_cases hFull :
        s.driver.air.queue.depth ≤
          s.driver.air.queue.entries.length
    · have hAway :
          turnedAway [⟨s, c, s.call airtimeUs c⟩] =
            [(P, frame)] := by
        simp [turnedAway, hFull, c, DriverCall.offer]
      rw [hAway, hQueue, TxQueue.push_full hFull,
        ← List.append_assoc]
      exact hBefore
    · have hAway :
          turnedAway [⟨s, c, s.call airtimeUs c⟩] = [] := by
        simp [turnedAway, hFull]
      rw [hAway, hQueue,
        TxQueue.contents_push (Nat.not_le.mp hFull),
        List.append_nil]
      refine hBefore.trans ?_
      rw [← List.append_assoc, List.append_assoc]
      exact (List.perm_append_comm.append_left _).trans
        (.of_eq (List.append_assoc _ _ _).symm)
  · intro sent hSent
    rcases hConserves.dropped sent hSent with
      hNone | ⟨u, hu, hTick⟩
    · exact .inl hNone
    · exact .inr ⟨u, List.mem_append_left _ hu, hTick⟩

/- The step lemma. -/
theorem Conserves.call
    (hConserves : Conserves d us s)
    (c : DriverCall) :
    Conserves d (us ++ [⟨s, c, s.call airtimeUs c⟩])
      (s.call airtimeUs c) := by
  cases c with
  | send frame P => exact hConserves.send airtimeUs frame P
  | canTransmitNow =>
      have hAir :
          (s.driver.canTransmitNow airtimeUs).2.air.queue =
              s.driver.air.queue ∧
            s.driver.Same
              (s.driver.canTransmitNow airtimeUs).2 := by
        simp only [Driver.canTransmitNow]
        split_ifs
        · exact ⟨rfl, rfl, rfl, rfl⟩
        · exact ⟨by simp, s.driver.same_withAir rfl⟩
      exact hConserves.idle airtimeUs rfl hAir.2 hAir.1 rfl
  | usedPermille =>
      exact hConserves.idle airtimeUs rfl
        (s.driver.same_withAir rfl)
        (by simp [Traffic.call, Driver.usedPermille]) rfl
  | tick now done starts =>
      rcases Driver.tick_conserves airtimeUs s.driver now
          done starts hConserves.fits with
        ⟨hSame, hFits, hPerm, hDropped⟩
      let ticked := s.driver.tick airtimeUs now done starts
      have hKind := hConserves.same
      refine
        { same :=
            { usable := hSame.usable.trans hKind.usable
              begins := hSame.begins.trans hKind.begins
              depth := hSame.depth.trans hKind.depth }
          fits := hFits
          conserved := ?_
          dropped := ?_ }
      · rw [offered_append, turnedAway_append]
        have hNone :
            offered
                  [⟨s, .tick now done starts,
                    s.call airtimeUs
                      (.tick now done starts)⟩] =
                [] ∧
              turnedAway
                  [⟨s, .tick now done starts,
                    s.call airtimeUs
                      (.tick now done starts)⟩] =
                [] := by
          simp [offered, turnedAway, DriverCall.offer]
        rw [hNone.1, hNone.2, List.append_nil,
          List.append_nil]
        refine hConserves.conserved.trans
          (List.Perm.append_right _ ?_)
        simp only [Traffic.call]
        rw [sentIn_append, droppedIn_append]
        exact Air.regroup (sentIn s.turns, droppedIn s.turns)
          hPerm
      · intro sent hSent
        simp only [Traffic.call, droppedIn_append,
          List.mem_append] at hSent
        rcases hSent with hSent | hSent
        · rcases hConserves.dropped sent hSent with
            hNone | ⟨u, hu, hTick⟩
          · exact .inl hNone
          · exact .inr
              ⟨u, List.mem_append_left _ hu, hTick⟩
        · rcases hDropped sent hSent with hNone | hFails
          · rw [hKind.usable] at hNone
            exact .inl hNone
          · rw [hKind.begins] at hFails
            exact .inr ⟨_, List.mem_append_right _
              (List.mem_singleton.mpr rfl), now, done, starts,
              rfl, hFails⟩

/- A new driver has taken nothing and lost nothing. -/
theorem conserves_new
    {depth : Nat}
    (hNew : d.air.queue = { depth := depth }) :
    Conserves d [] { driver := d } where
  same := ⟨rfl, rfl, rfl⟩
  fits := by
    rw [hNew]
    exact Nat.zero_le _
  conserved := by
    rw [TxQueue.contents, hNew]
    exact List.Perm.refl _
  dropped := by simp [droppedIn]

/- The run lemma. -/
theorem Conserves.run
    {vs : List (Transition Traffic DriverCall)}
    {s' : Traffic}
    (hConserves : Conserves d us s)
    (hRun :
      Run (fun s c s' => s.call airtimeUs c = s') s vs s') :
    Conserves d (us ++ vs) s' := by
  induction hRun with
  | start => rwa [List.append_nil]
  | step _ hStep ih =>
      subst hStep
      rw [← List.append_assoc]
      exact ih.call airtimeUs _

/-
  Over any calls at all, what was offered to a new driver is
  what was on the air, what was dropped, what waits and what
  was turned away at a full queue, each as often as it was
  offered. Only what is no frame is dropped, or what the
  chip did not start to send.
-/
theorem nothing_is_lost
    {depth : Nat}
    (hNew : d.air.queue = { depth := depth })
    (hRun :
      Run (fun s c s' => s.call airtimeUs c = s')
        { driver := d } us s) :
    Conserves d us s := by
  have hAll := (conserves_new hNew).run airtimeUs hRun
  rwa [List.nil_append] at hAll

/- A driver with room for one frame. -/
def narrow : Driver :=
  .udp
    { air :=
        { duty := { percent := 10, window := 20000 }
          queue := { depth := 1 } }
      socket := true }

/- Three frames, the second of them too long for the air. -/
def threeFrames : List DriverCall :=
  [.send [1] .normal, .send [2] .high, .tick 0 false true,
    .send (List.replicate 256 3) .low, .tick 1 false true]

/- One is on the air, one turned away and one dropped. -/
theorem three_ways_to_go :
    let us :=
      replay (call shortAirtimeUs) { driver := narrow }
        threeFrames
    let s :=
      threeFrames.foldl (call shortAirtimeUs)
        { driver := narrow }
    sentIn s.turns = [(.normal, [1])] ∧
      turnedAway us = [(.high, [2])] ∧
      (droppedIn s.turns).length = 1 ∧
      Conserves narrow us s :=
  ⟨by decide +kernel, by decide +kernel, by decide +kernel,
    nothing_is_lost shortAirtimeUs (d := narrow) rfl
      (run_replay (call shortAirtimeUs) _ _)⟩

end Traffic

end MeshCore
