import MeshCore.Library.Cyclic
import MeshCore.Room.Sound

/-
  The order of the pushes starves nobody: while the rows of
  a room stay the same ones, a client that could be pushed to
  at every tick is pushed to within as many ticks as there
  are rows.

  Key definitions include:
    * `Room.SameTurn`, `Room.SameRows`
    * `Room.asked`

  Key facts include:
    * `Room.nextClientToPush_fst`
    * `Room.perform_sameTurn`
    * `Room.push_order_starves_nobody`
-/

namespace MeshCore

namespace Room

variable {η : Type}

------------------------------------------------------------
-- The Scan
------------------------------------------------------------

/- The scan for a row to push to is a cyclic one. -/
theorem nextClientToPush_fst (room : Room η) :
    room.nextClientToPush.1 =
      Cyclic.serve room.clients.length room.nextClientIdx
        room.pushable := by
  unfold nextClientToPush Cyclic.serve Cyclic.scan
  simp only
  split
  next hNone => exact hNone.symm
  next row hSome => exact hSome.symm

/- The index moves behind the row that is pushed to. -/
theorem nextClientToPush_snd (room : Room η) :
    room.nextClientToPush.2 =
      match room.nextClientToPush.1 with
      | none => room
      | some row =>
          { room with
            nextClientIdx :=
              (row + 1) % room.clients.length } := by
  unfold nextClientToPush
  simp only
  split
  next hNone => rfl
  next row hSome => rfl

theorem nextClientToPush_eq_none_iff (room : Room η) :
    room.nextClientToPush.1 = none ↔
      ∀ row < room.clients.length,
        room.pushable row = false := by
  rw [nextClientToPush_fst]
  exact Cyclic.serve_eq_none_iff

------------------------------------------------------------
-- What Moves The Index
------------------------------------------------------------

/- The index stands where it stood. -/
def SameTurn (room room' : Room η) : Prop :=
  room'.nextClientIdx = room.nextClientIdx

theorem enterClient_sameTurn
    (room : Room η)
    (pk : PublicKey) :
    room.SameTurn (room.enterClient pk).2 := by
  rcases room.enterClient_cases pk with
    ⟨row, -, hEnter⟩ | ⟨-, kept, -, hEnter⟩
  · rw [hEnter]
    exact rfl
  · rw [hEnter]
    exact rfl

theorem login_sameTurn
    (room : Room η)
    (pk : PublicKey)
    (plain : Bytes) :
    room.SameTurn (room.login pk plain).2 := by
  rcases room.login_cases pk plain with
    ⟨room₁, ⟨failures, rfl⟩,
      hRefused | ⟨access, timestamp, hTaken⟩⟩
  · rw [hRefused]
    exact rfl
  · rw [hTaken]
    exact enterClient_sameTurn
      { room with failures := failures } pk

theorem handleCommand_sameTurn
    (room : Room η)
    (row : Nat)
    (timestamp : UInt32)
    (line : Bytes) :
    (room.handleCommand row timestamp line).Ensures
      (fun _ => True) fun result => room.SameTurn result.2 := by
  unfold handleCommand
  refine Program.ensures_ite (fun _ => ?_) fun _ => ?_
  · have hReply :
        (room.reply (room.client row).pk
            (ascii "ERR - admin rights required")).Ensures
          SenderOp.Answers room.SameTurn :=
      reply_ensures _ _ rfl
    exact (refused_ensures hReply).mono
      (fun _ _ => trivial) fun _ h => h
  refine Program.ensures_ite (fun _ => rfl) fun _ => ?_
  exact (runCommand_keeps _ _ line).mono
    (fun _ _ => trivial) fun _ hKeeps => hKeeps.nextClientIdx

section Handlers

variable [CryptoCore]

theorem handleText_sameTurn
    (room : Room η)
    (contact : Contact)
    (plain : Bytes) :
    (room.handleText contact plain).Ensures
      (fun _ => True) fun result => room.SameTurn result.2 := by
  unfold handleText
  split
  next message row hText hRow =>
    split
    · refine Program.ensures_ite (fun _ => rfl) fun _ => ?_
      refine Program.ensures_bind.mpr ?_
      exact (Program.ensures_trivial _).mono
        (fun _ h => h) fun _ _ => rfl
    · exact room.handleCommand_sameTurn _ _ _
    · exact rfl
  next => exact rfl

theorem handleRequest_sameTurn
    (room : Room η)
    (row : Nat)
    (plain : Bytes) :
    (room.handleRequest row plain).Ensures
      (fun _ => True) fun result => room.SameTurn result.2 := by
  unfold handleRequest
  refine Program.ensures_ite (fun _ => rfl) fun _ => ?_
  refine Program.ensures_ite (fun _ => rfl) fun _ => ?_
  refine Program.ensures_ite (fun _ => rfl) fun _ => ?_
  split
  · refine Program.ensures_bind.mpr ?_
    refine (Program.ensures_trivial _).mono
      (fun _ h => h) fun _ _ => ?_
    unfold moveBookmark
    split <;> exact rfl
  · refine Program.ensures_bind.mpr ?_
    exact (Program.ensures_trivial _).mono
      (fun _ h => h) fun _ _ => rfl
  · exact rfl

/- Nothing but a tick moves the index. -/
theorem perform_sameTurn
    (room : Room η)
    (e : Event η)
    (hTick : ∀ now, e ≠ .tick now) :
    (room.perform e).Ensures (fun _ => True)
      room.SameTurn := by
  cases e with
  | setServerTime unixSeconds => exact rfl
  | setRadioLoad permille => exact rfl
  | anon pk plain =>
      have hLogin := room.login_sameTurn pk plain
      rw [perform, onAnon]
      generalize room.login pk plain = result at hLogin ⊢
      rcases result with ⟨none | row, room'⟩
      · exact hLogin
      · refine Program.ensures_bind.mpr ?_
        exact (Program.ensures_trivial _).mono
          (fun _ h => h) fun _ _ => hLogin
  | payload contact type plain =>
      cases type with
      | txtMsg =>
          exact Program.ensures_bind.mpr
            (room.handleText_sameTurn contact plain)
      | req =>
          simp only [perform, onPayload]
          cases room.findClient contact.pk with
          | none => exact rfl
          | some row =>
              exact Program.ensures_bind.mpr
                (room.handleRequest_sameTurn row plain)
      | _ => exact rfl
  | group type payload =>
      simp only [perform, onGroup]
      split <;> exact rfl
  | forward p =>
      simp only [perform, shouldForward]
      split
      · exact rfl
      · split <;> exact rfl
  | ack id =>
      simp only [perform, onAck, settle]
      split <;> exact rfl
  | failed id =>
      simp only [perform, onDeliveryFailed, settle]
      split <;> exact rfl
  | tick now => exact absurd rfl (hTick now)
  | host host => exact rfl

omit [CryptoCore] in
/- A tick leaves the index where the scan has put it. -/
theorem tick_nextClientIdx
    (room : Room η)
    (now : Millis) :
    (room.tick now).Ensures (fun _ => True)
      { room with now := now }.nextClientToPush.2.SameTurn
        := by
  unfold tick
  simp only
  split
  next left hNobody =>
    rw [hNobody]
    exact rfl
  next row left hSomebody =>
    rw [hSomebody]
    unfold pushNextPost
    simp only
    split
    · exact rfl
    · refine ⟨trivial, fun store => ?_⟩
      simp only [Program.bind]
      split
      · exact rfl
      · exact ⟨trivial, fun id => rfl⟩

end Handlers

------------------------------------------------------------
-- The Rows
------------------------------------------------------------

section Runs

variable [CryptoCore]

/- A step under which the rows are those of the same keys. -/
def SameRows (t : Turn η) : Prop :=
  ∀ pk, pk ∈ t.after.keys ↔ pk ∈ t.before.keys

theorem keys_of_sameRows
    {t : Turn η}
    (hStep : Step t.before t.event t.after)
    (hSame : SameRows t) :
    t.after.keys = t.before.keys := by
  rcases (step_changes hStep).2.keys with
    hKeys | ⟨pk, _, -, hNow, hThen⟩
  · exact hKeys
  · exact absurd ((hSame pk).mp hNow) hThen

/- The room as the scan of a tick finds it. -/
def askedOf (t : Turn η) : Option (Room η) :=
  match t.event.1 with
  | .tick now => some { t.before with now := now }
  | _ => none

/- The rooms that were asked for a client to push to. -/
def asked (ts : List (Turn η)) : List (Room η) :=
  ts.filterMap askedOf

/- A tick asks for a client, and moves the index behind it. -/
theorem step_turn_of_tick
    {room room' : Room η}
    {now : Millis}
    {calls : Calls}
    (hStep : Step room (.tick now, calls) room') :
    room'.nextClientIdx =
      match { room with now := now }.nextClientToPush.1 with
      | none => room.nextClientIdx
      | some row => (row + 1) % room.clients.length := by
  have hTurn :
      SameTurn { room with now := now }.nextClientToPush.2
        room' :=
    ((room.tick_nextClientIdx now).exec hStep).2
  rw [hTurn, nextClientToPush_snd]
  split <;> rfl

/- The scans of a run are rounds, each behind the last. -/
theorem asked_rounds
    {room room' : Room η}
    {ts : List (Turn η)}
    (hRun : Run Step room ts room')
    (hSame : ∀ t ∈ ts, SameRows t) :
    (asked ts).map (·.nextClientToPush.1) =
      Cyclic.rounds room.clients.length room.nextClientIdx
        ((asked ts).map pushable) := by
  induction ts generalizing room with
  | nil => rfl
  | cons t ts ih =>
      rcases hRun.split_first with ⟨rfl, hStep, hRest⟩
      have hKeys := keys_of_sameRows hStep
        (hSame t List.mem_cons_self)
      have hLength :
          t.after.clients.length =
            t.before.clients.length := by
        simpa [keys] using congrArg List.length hKeys
      have hLater := ih hRest fun u hu =>
        hSame u (List.mem_cons_of_mem _ hu)
      rw [hLength] at hLater
      rcases t with ⟨room, ⟨e, calls⟩, room''⟩
      by_cases hTick : ∃ now, e = .tick now
      · rcases hTick with ⟨now, rfl⟩
        have hTurn := step_turn_of_tick hStep
        have hServed :=
          nextClientToPush_fst { room with now := now }
        rw [hTurn, hServed] at hLater
        have hAsked :
            asked (⟨room, (.tick now, calls), room''⟩ :: ts) =
              { room with now := now } :: asked ts :=
          rfl
        rw [hAsked, List.map_cons, List.map_cons, hServed,
          hLater, Cyclic.rounds]
        simp only
        split
        next hNobody => rw [hNobody]
        next served hSomebody => rw [hSomebody]
      · have hTurn :
            room''.nextClientIdx = room.nextClientIdx :=
          ((room.perform_sameTurn e fun now hNow =>
            hTick ⟨now, hNow⟩).exec hStep).2
        rw [hTurn] at hLater
        have hAsked :
            asked (⟨room, (e, calls), room''⟩ :: ts) =
              asked ts := by
          cases e with
          | tick now => exact absurd ⟨now, rfl⟩ hTick
          | _ => rfl
        rw [hAsked]
        exact hLater

/-
  Nobody is pushed to where nobody can be; and while the
  rows are those of the same keys, a row that can be pushed
  to whenever the room asks is pushed to within as many
  ticks as there are rows, whatever happens to the others.
-/
theorem push_order_starves_nobody :
    (∀ room : Room η,
      room.nextClientToPush.1 = none ↔
        ∀ row < room.clients.length,
          room.pushable row = false) ∧
      ∀ (room : Room η) {room' : Room η}
        {ts : List (Turn η)} {row : Nat},
        Run Step room ts room' →
        (∀ t ∈ ts, SameRows t) →
        row < room.clients.length →
        room.clients.length ≤ (asked ts).length →
        (∀ there ∈ asked ts, there.pushable row = true) →
        ∃ there ∈ asked ts,
          there.nextClientToPush.1 = some row := by
  refine ⟨nextClientToPush_eq_none_iff, ?_⟩
  intro room room' ts row hRun hSame hRow hMany hReady
  have hServed :
      some row ∈
        Cyclic.rounds room.clients.length room.nextClientIdx
          ((asked ts).map pushable) := by
    apply Cyclic.mem_rounds hRow
    · simpa using hReady
    · simpa using hMany
  rw [← asked_rounds hRun hSame] at hServed
  exact List.mem_map.mp hServed

end Runs

section Example

open Sample

/- Two guests who have read nothing, and a post for both. -/
def twoReaders : Room Unit :=
  { quietRoom with
    clients :=
      [{ pk := key 1, access := .guest },
        { pk := key 2, access := .guest }]
    posts :=
      [{ seq := 1
         timestamp := 9
         author := authorPrefixOf anonymous
         text := ascii "x" }] }

/- The first guest gets its push between the ticks. -/
def twoTicks : List (Turn Unit) :=
  script numbering (twoReaders, 1) [.tick 1, .ack 1, .tick 2]

theorem second_reader_has_its_turn :
    ∃ there ∈ asked twoTicks,
      there.nextClientToPush.1 = some 1 := by
  refine push_order_starves_nobody.2 twoReaders
    (run_script numbering (twoReaders, 1) _) ?_
    (by decide) (by decide +kernel) (by decide +kernel)
  have hKeys :
      ∀ t ∈ twoTicks, t.after.keys = t.before.keys := by
    decide +kernel
  intro t ht pk
  rw [hKeys t ht]

end Example

end Room

end MeshCore
