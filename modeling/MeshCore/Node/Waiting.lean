import MeshCore.Library.Tickets
import MeshCore.Node.Loop
import MeshCore.Room.Sizes
import MeshCore.Routing.Deadlines
import MeshCore.Routing.Outcomes

/-
  Who waits for the fate of a push, and whether anybody is
  left to tell it.

  A row of the room waits for the id that its push was
  answered with; the router tells the fate of a send as long
  as it has an entry for its id. Both stay in step except in
  one place: a push that finds the router's table full, or
  no secret for the client, is answered with an id as well.

  Key definitions include:
    * `Track.ticket`, `Room.tickets`
    * `Room.dueClient`, `Router.CanKeep`
    * `Node.NoneWedged`, `Node.PushKept`

  Key facts include:
    * `Room.TrackChange.keeps`
    * `Room.tick_waits`
    * `Node.apply_keeps_tickets`, `Node.wedged_of_not_kept`
    * `Node.none_is_wedged_while_pushes_are_kept`
-/

namespace MeshCore

------------------------------------------------------------
-- Rows That Wait
------------------------------------------------------------

/- The send whose fate a row waits for. -/
def Track.ticket (track : Track) : Option SendId :=
  if track.pending then some track.pendingId else none

theorem Track.ticket_of_awaits
    {id : SendId} {track : Track}
    (hAwaits : track.awaits id = true) :
    track.ticket = some id := by
  simp only [awaits, decide_eq_true_eq] at hAwaits
  rw [ticket, if_pos hAwaits.1, hAwaits.2]

theorem Track.awaits_of_ticket
    {id : SendId} {track : Track}
    (hTicket : track.ticket = some id) :
    track.awaits id = true := by
  unfold ticket at hTicket
  split at hTicket
  next hPending =>
    rw [Option.some.injEq] at hTicket
    simp [awaits, hPending, hTicket]
  next => contradiction

namespace Room

variable {η : Type}

/- The sends whose fate rows wait for, row by row. -/
def tickets (room : Room η) : List SendId :=
  Tickets.waited Track.ticket room.tracks

/- Nobody waits for a send that no row is found for. -/
theorem not_mem_tickets
    {room : Room η} {id : SendId}
    (hNone :
      room.tracks.findIdx? (Track.awaits id) = none) :
    id ∉ room.tickets := by
  intro hMem
  rcases List.mem_filterMap.mp hMem with
    ⟨track, hTrack, hTicket⟩
  rw [List.findIdx?_eq_none_iff] at hNone
  have hNot := hNone track hTrack
  rw [Track.awaits_of_ticket hTicket] at hNot
  contradiction

/- The row that is found for a send, settled. -/
theorem tickets_settled
    {room room' : Room η} {id : SendId} {row : Nat}
    {box : List SendId} {f : Track → Track}
    (hKept : Tickets.Kept room.tickets box)
    (hRow :
      room.tracks.findIdx? (Track.awaits id) = some row)
    (hTracks : room'.tracks = room.tracks.modify row f)
    (hIdle : ∀ track, (f track).pending = false) :
    Tickets.Kept room'.tickets (box.erase id) := by
  rcases List.findIdx?_eq_some_iff_getElem.mp hRow with
    ⟨hInside, hAwaits, -⟩
  rcases Tickets.waited_modify Track.ticket
      (List.getElem?_eq_getElem hInside) f with
    ⟨before, after, hBefore, hAfter⟩
  rw [Track.ticket_of_awaits hAwaits] at hBefore
  rw [Track.ticket, hIdle] at hAfter
  rw [tickets, hBefore] at hKept
  rw [tickets, hTracks, hAfter]
  rw [List.append_assoc] at hKept
  rw [if_neg Bool.false_ne_true, Option.toList_none,
    List.append_nil]
  exact hKept.settle

/- The row that is pushed to starts to wait. -/
theorem tickets_pushed
    {room room' : Room η} {id : SendId} {row : Nat}
    {seq : UInt32}
    (hRow : row < room.clients.length)
    (hIdle : (room.client row).pending = false)
    (hTracks :
      room'.tracks =
        room.tracks.modify row (Track.pushed id seq)) :
    ∃ before after,
      room.tickets = before ++ after ∧
        room'.tickets = before ++ id :: after := by
  have hHere :
      room.tracks[row]? = some (room.client row).track := by
    rw [tracks, List.getElem?_map, Room.client,
      List.getD_eq_getElem _ _ hRow,
      List.getElem?_eq_getElem hRow]
    rfl
  rcases Tickets.waited_modify Track.ticket hHere
      (Track.pushed id seq) with
    ⟨before, after, hBefore, hAfter⟩
  have hNone : (room.client row).track.ticket = none := by
    rw [Track.ticket, if_neg (by simp [Client.track, hIdle])]
  rw [hNone, Option.toList_none, List.append_nil] at hBefore
  refine ⟨before, after, hBefore, ?_⟩
  rw [tickets, hTracks, hAfter, List.append_assoc]
  rfl

theorem TrackChange.waits
    {room room' : Room η} {e : Event η} {id : SendId}
    (hChange : TrackChange room room' e (some id)) :
    id ∈ room'.tickets := by
  cases hChange with
  | pushed hRow hIdle hPost hTracks =>
      rcases tickets_pushed hRow hIdle hTracks with
        ⟨before, after, -, hAfter⟩
      rw [hAfter]
      exact List.mem_append_right _ List.mem_cons_self

/- The rows that wait are those that are pending. -/
theorem mem_tickets_iff
    {room : Room η} {id : SendId} :
    id ∈ room.tickets ↔
      ∃ client ∈ room.clients,
        client.pending = true ∧ client.pendingId = id := by
  simp only [tickets, Tickets.waited, tracks,
    List.mem_filterMap, List.mem_map,
    exists_exists_and_eq_and]
  refine exists_congr fun client => ?_
  refine and_congr_right fun _ => ?_
  rw [Track.ticket, Client.track,
    Option.ite_none_right_eq_some, Option.some.injEq]

/- The tickets that an event leaves in the box. -/
def boxAfter
    (e : Event η)
    (push : Option SendId)
    (box : List SendId) :
    List SendId :=
  match e.fateOf with
  | some id => box.erase id
  | none => box ++ push.toList

/-
  Whatever a step does to the rows, tickets that are kept
  stay kept, where that of a push is put into the box.
-/
theorem TrackChange.keeps
    {room room' : Room η} {e : Event η}
    {push : Option SendId} {box : List SendId}
    (hChange : TrackChange room room' e push)
    (hKept : Tickets.Kept room.tickets box) :
    Tickets.Kept room'.tickets (boxAfter e push box) := by
  have hMarked :
      ∀ b track,
        (Track.marked b track).ticket = track.ticket :=
    fun _ _ => rfl
  cases hChange with
  | idle hTracks hNone hUnknown =>
      have hSame : room'.tickets = room.tickets := by
        rw [tickets, hTracks, tickets]
      rw [hSame, boxAfter]
      cases hFate : e.fateOf with
      | none => simpa using hKept
      | some id =>
          exact hKept.discard
            (not_mem_tickets (hUnknown id hFate))
  | @marked e pk row b hMark hOthers hRow hTracks =>
      have hSame : room'.tickets = room.tickets := by
        rw [tickets, hTracks,
          Tickets.waited_modify_same (hMarked b), tickets]
      have hFate : e.fateOf = none := by
        cases e <;> simp_all [Event.fateOf, bookmarkOf]
      rw [hSame, boxAfter, hFate]
      simpa using hKept
  | @entered e pk b kept hMark hOthers hNewRow hTables
      hTracks =>
      have hFewer : room'.tickets.Sublist room.tickets := by
        have hFresh :
            room'.tickets =
              Tickets.waited Track.ticket kept := by
          rw [tickets, hTracks, Tickets.waited,
            List.filterMap_append]
          exact List.append_nil _
        have hKeptRows : kept.Sublist room.tracks := by
          rcases hTables with rfl | ⟨victim, rfl⟩
          · exact .refl _
          · exact List.eraseIdx_sublist _ _
        rw [hFresh]
        exact hKeptRows.filterMap _
      have hFate : e.fateOf = none := by
        cases e <;> simp_all [Event.fateOf, bookmarkOf]
      rw [boxAfter, hFate]
      simpa using hKept.fewer hFewer
  | @pushed now row post id hRow hIdle hPost hTracks =>
      rcases tickets_pushed hRow hIdle hTracks with
        ⟨before, after, hBefore, hAfter⟩
      rw [hBefore] at hKept
      rw [hAfter]
      exact hKept.issue id
  | @acked id row hRow hTracks =>
      exact tickets_settled hKept hRow hTracks fun _ => rfl
  | @failed id row hRow hTracks =>
      exact tickets_settled hKept hRow hTracks fun _ => rfl

/- An event that tells no fate and pushes nothing. -/
theorem TrackChange.leaves
    {room room' : Room η} {e : Event η} {box : List SendId}
    (hChange : TrackChange room room' e none)
    (hFate : e.fateOf = none)
    (hKept : Tickets.Kept room.tickets box) :
    Tickets.Kept room'.tickets box := by
  have hAfter := hChange.keeps hKept
  rw [boxAfter, hFate, Option.toList_none,
    List.append_nil] at hAfter
  exact hAfter

end Room

------------------------------------------------------------
-- Entries That Can Tell
------------------------------------------------------------

namespace Router

/- The sends whose fate the router will tell. -/
def pendingIds (r : Router) : List SendId :=
  r.pending.map Pending.id

/- An entry that goes takes its id out of the table once. -/
theorem erase_id
    (before after : List Pending)
    (entry : Pending) :
    (((before ++ entry :: after).map Pending.id).erase
        entry.id).Perm
      ((before ++ after).map Pending.id) := by
  have hFirst :
      ((before ++ entry :: after).map Pending.id).Perm
        ((entry :: (before ++ after)).map Pending.id) :=
    List.perm_middle.map _
  have hErased := hFirst.erase entry.id
  rw [List.map_cons, List.erase_cons_head] at hErased
  exact hErased

theorem pendingIds_eraseP
    {r : Router} {value : UInt32} {entry : Pending}
    (hFound :
      r.pending.find? (·.expectedAck == value) =
        some entry) :
    (r.pendingIds.erase entry.id).Perm
      ((r.pending.eraseP (·.expectedAck == value)).map
        Pending.id) := by
  rcases List.find?_eq_some_iff_append.mp hFound with
    ⟨hHere, before, after, hSplit, hBefore⟩
  have hOthers :
      ∀ other ∈ before,
        ¬ (other.expectedAck == value) = true := by
    intro other hOther
    simpa using hBefore other hOther
  rw [pendingIds, hSplit,
    List.eraseP_append_right _ hOthers,
    List.eraseP_cons_of_pos
      (p := fun other : Pending =>
        other.expectedAck == value) hHere]
  exact erase_id before after entry

variable [CryptoCore]

/- A send gets an entry if it is kept, sealed and has room. -/
theorem sendDirect_entry
    (r : Router)
    (dest : PublicKey)
    (type : PayloadType)
    (payload : Bytes)
    (wantAck : Bool) :
    ∃ entry : Pending,
      entry.id = r.nextId ∧
      (r.sendDirect dest type payload wantAck).2.pending =
        if (r.sealFor dest payload).isSome = true ∧
            wantAck = true ∧
            r.pending.length < r.config.maxPending then
          r.pending ++ [entry]
        else r.pending := by
  have hSelf :
      ((r.issueId dest type payload wantAck).2.secretFor
          dest).2.store.selfHash =
        r.store.selfHash :=
    (secretFor_does r dest).selfHash
  have hSame :
      ((r.issueId dest type payload wantAck).2.secretFor
          dest).1 =
        (r.secretFor dest).1 :=
    rfl
  cases hSealed : r.sealFor dest payload with
  | none =>
      rw [sealFor] at hSealed
      refine ⟨r.directEntry dest type payload []
        { dest := dest, path := [] }, rfl, ?_⟩
      simp only [sendDirect, hSelf, hSame, hSealed]
      rw [if_neg (by simp)]
      rfl
  | some wire =>
      rw [sealFor] at hSealed
      simp only [sendDirect, hSelf, hSame, hSealed]
      rw [(transmitNow_calm _ _ _).pending, keepPending]
      have hPending :
          ((r.issueId dest type payload wantAck).2.secretFor
              dest).2.pending =
            r.pending :=
        rfl
      have hConfig :
          ((r.issueId dest type payload wantAck).2.secretFor
              dest).2.config =
            r.config :=
        rfl
      rw [hPending, hConfig]
      by_cases hKept :
          wantAck = true ∧
            r.pending.length < r.config.maxPending
      · rw [if_pos hKept]
        refine ⟨_, ?_, (if_pos ⟨rfl, hKept⟩).symm⟩
        rfl
      · rw [if_neg hKept]
        refine ⟨r.directEntry dest type payload wire
          { dest := dest, path := [] }, rfl, ?_⟩
        exact (if_neg fun h => hKept h.2).symm

/- Every send is answered with an id, kept or not. -/
theorem sendDirect_answers
    (r : Router)
    (dest : PublicKey)
    (type : PayloadType)
    (payload : Bytes)
    (wantAck : Bool) :
    (r.sendDirect dest type payload wantAck).1 =
      r.nextId := by
  unfold sendDirect
  simp only
  split
  · rfl
  · rfl

/- Only a send that asks for an answer gets an entry. -/
theorem sender_pending
    {op : SenderOp}
    (hUnacked : op.Unacked)
    (r : Router) :
    (sender op r).2.pending = r.pending := by
  cases op with
  | sendDirect dest type payload wantAck =>
      rcases r.sendDirect_entry dest type payload wantAck with
        ⟨entry, -, hPending⟩
      rw [sender, hPending, if_neg]
      rintro ⟨-, hAck, -⟩
      rw [show wantAck = false from hUnacked] at hAck
      contradiction
  | sendAck dest value extra =>
      exact (transmitNow_calm r _ _).pending
  | sendFlood type payload =>
      exact (transmitNow_calm r _ _).pending
  | randomBytes n => rfl
  | store => rfl

theorem run_pending
    {α : Type} {task : SenderM α} {post : α → Prop}
    (hTask : task.Ensures SenderOp.Unacked post)
    (r : Router) :
    post (task.run sender r).1 ∧
      (task.run sender r).2.pending = r.pending :=
  Program.run_ensures (I := fun r' => r'.pending = r.pending)
    (fun _ r' hUnacked hSame =>
      (sender_pending hUnacked r').trans hSame)
    hTask rfl

variable {η : Type}

/-
  What the room is told leaves the tickets in their box: it
  is an acknowledgement, whose entry goes with its row, or
  an event that is no send's fate.
-/
theorem told_keeps
    {room : Room η} {r : Router} {u : Option Upcall}
    (hKept : Tickets.Kept room.tickets r.pendingIds)
    (hAcked :
      ∀ entry, u = some (.acked entry) →
        r.pending.find?
            (·.expectedAck == entry.expectedAck) =
          some entry) :
    Tickets.Kept
      (told Room.delegate room (u, r)).1.tickets
      (told Room.delegate room (u, r)).2.pendingIds := by
  -- an event that tells no fate, and a router that waits on
  have hEvent :
      ∀ (e : Room.Event η) (s : Room η × Router),
        room.TrackChange s.1 e none →
          e.fateOf = none →
          s.2.pending = r.pending →
          Tickets.Kept s.1.tickets s.2.pendingIds := by
    intro e s hChange hFate hPending
    rw [pendingIds, hPending]
    exact hChange.leaves hFate hKept
  cases u with
  | none => exact hKept
  | some u =>
      cases u with
      | payload contact type plain =>
          rcases run_pending
              (room.onPayload_ensures contact type plain) r with
            ⟨hChanges, hPending⟩
          simp only [told, answer, acknowledge]
          split
          · exact hEvent _ _ hChanges.tracks rfl
              ((transmitNow_calm _ _ _).pending.trans hPending)
          · exact hEvent _ _ hChanges.tracks rfl hPending
      | anon peer plain =>
          rcases run_pending
              ((room.onAnon_ensures peer plain).mono
                (fun _ h => h.unacked) fun _ h => h) r with
            ⟨hChanges, hPending⟩
          exact hEvent _ _ hChanges.tracks rfl hPending
      | group type payload =>
          exact hEvent (.group type payload) _
            (room.onGroup_changes type payload).tracks rfl rfl
      | trace trace path => exact hKept
      | acked entry =>
          have hAfter :=
            (room.onAck_changes entry.id).tracks.keeps hKept
          exact hAfter.sorted
            (pendingIds_eraseP (hAcked entry rfl))

/-
  An entry that is given up goes, and its row is settled;
  the others stay, with the ids they have.
-/
theorem retryPending_keeps_tickets
    (earlier entries : List Pending)
    {room : Room η}
    (r : Router)
    (hKept :
      Tickets.Kept room.tickets
        ((earlier ++ entries).map Pending.id)) :
    Tickets.Kept
      (retryPending Room.delegate entries
        (room, r)).2.1.tickets
      ((earlier ++
          (retryPending Room.delegate entries (room, r)).1).map
        Pending.id) := by
  induction entries generalizing earlier room r with
  | nil => exact hKept
  | cons entry rest ih =>
      unfold retryPending
      split
      · have hNext :=
          ih (earlier ++ [entry]) r (by simpa using hKept)
        simpa using hNext
      · split
        · have hAfter :=
            (room.onDeliveryFailed_changes
              entry.id).tracks.keeps hKept
          exact ih earlier _
            (hAfter.sorted (erase_id earlier rest entry))
        · have hNext :=
            ih
              (earlier ++
                [{ entry with
                    attempts := entry.attempts + 1
                    deadline :=
                      r.now +
                        (if entry.viaFlood then
                          r.config.floodAckTimeout
                        else r.config.directAckBase) }])
              (r.handToRadio entry.frame .normal)
              (by simpa using hKept)
          simpa using hNext

theorem tick_keeps_tickets
    (now : Millis)
    {s : Room η × Router}
    (hKept : Tickets.Kept s.1.tickets s.2.pendingIds) :
    Tickets.Kept (tick Room.delegate now s).1.tickets
      (tick Room.delegate now s).2.pendingIds := by
  have hDrained :
      (drainQueue { s.2 with now := now }).pending =
        s.2.pending := by
    rw [drainQueue_eq]
  have hWalked :=
    retryPending_keeps_tickets []
      (drainQueue { s.2 with now := now }).pending
      (drainQueue { s.2 with now := now })
      (by rw [List.nil_append, hDrained]; exact hKept)
  exact hWalked

end Router

------------------------------------------------------------
-- A Push And Its Entry
------------------------------------------------------------

section Pushes

variable {η : Type}

/- Whom a turn of the main loop would push to. -/
def Room.dueClient
    (room : Room η)
    (now : Millis) :
    Option PublicKey :=
  ({ room with now := now }.nextClientToPush.1).map
    fun row => (room.client row).pk

variable [CryptoCore]

/- Room for one more entry, and a secret for the peer. -/
def Router.CanKeep (r : Router) (dest : PublicKey) : Prop :=
  r.pending.length < r.config.maxPending ∧
    (r.secretFor dest).1.isSome = true

instance (r : Router) (dest : PublicKey) :
    Decidable (r.CanKeep dest) := by
  unfold Router.CanKeep
  infer_instance

/- A text that has room is sealed under any secret. -/
theorem Router.sealFor_isSome
    {plain : Bytes}
    (hFits : plain.length ≤ maxPlaintext)
    (r : Router)
    (dest : PublicKey) :
    (r.sealFor dest plain).isSome =
      (r.secretFor dest).1.isSome := by
  unfold sealFor
  cases (r.secretFor dest).1 with
  | none => rfl
  | some secret =>
      rcases exists_envelopeFor r.store.selfHash secret dest
          ((envelope_fits_iff plain.length).mpr hFits) with
        ⟨wire, hWire⟩
      rw [Option.bind_some, hWire]
      rfl

/-
  A tick leaves rows and router as they are, or its one push
  has a row wait for an id; whether an entry is kept for it
  is another matter.
-/
theorem Room.tick_waits
    (room : Room η)
    (now : Millis)
    (r : Router) :
    (room.dueClient now = none ∧
        ((room.tick now).run Router.sender r).1.tracks =
          room.tracks ∧
        ((room.tick now).run Router.sender r).2 = r) ∨
      ∃ pk entry,
        room.dueClient now = some pk ∧
          entry.id = r.nextId ∧
          room.TrackChange
            ((room.tick now).run Router.sender r).1
            (.tick now) (some r.nextId) ∧
          ((room.tick now).run Router.sender r).2.pending =
            if r.CanKeep pk then r.pending ++ [entry]
            else r.pending := by
  unfold dueClient
  rcases nextClientToPush_cases { room with now := now } with
    hNobody | ⟨turn, row, hRow, hPushable, hSomebody⟩
  · have hTick :
        room.tick now = .done { room with now := now } := by
      unfold tick
      simp only [hNobody]
      rfl
    rw [hNobody, hTick]
    exact .inl ⟨rfl, rfl, rfl⟩
  · simp only [pushable, decide_eq_true_eq,
      Bool.not_eq_true] at hPushable
    rcases tick_of_found (congrArg Prod.fst hSomebody) with
      ⟨turn', post, hPost, hTick⟩
    rcases exists_pushPlain r.store post with
      ⟨plain, hPlain, -, hFits⟩
    rcases r.sendDirect_entry (room.client row).pk .txtMsg
        plain true with
      ⟨entry, hId, hPending⟩
    have hHere :
        nextPostFor
            { room with now := now, nextClientIdx := turn' }
            (client
              { room with now := now, nextClientIdx := turn' }
              row) =
          some post :=
      hPost
    refine .inr ⟨(room.client row).pk, entry, ?_, hId, ?_⟩
    · rw [hSomebody]
      rfl
    · rw [hTick]
      unfold pushNextPost
      simp only [hHere, Router.run_readStore, hPlain,
        Router.run_sendDirect]
      constructor
      · refine .pushed hRow hPushable.1 hPost ?_
        rw [← r.sendDirect_answers (room.client row).pk
          .txtMsg plain true]
        exact tracks_modifyClient _ row fun _ => rfl
      · rw [Router.sealFor_isSome hFits] at hPending
        refine hPending.trans ?_
        simp only [Router.CanKeep, true_and]
        congr 1
        exact propext And.comm

end Pushes

------------------------------------------------------------
-- Runs
------------------------------------------------------------

namespace Node

variable {η : Type}

/- Whoever waits for a send can still be told its fate. -/
def NoneWedged (s : Node η) : Prop :=
  ∀ client ∈ s.1.clients,
    client.pending = true →
      ∃ entry ∈ s.2.pending, entry.id = client.pendingId

instance (s : Node η) : Decidable (NoneWedged s) := by
  unfold NoneWedged
  infer_instance

theorem noneWedged_of_kept
    {s : Node η}
    (hKept : Tickets.Kept s.1.tickets s.2.pendingIds) :
    NoneWedged s := by
  intro client hClient hPending
  have hTicket : client.pendingId ∈ s.1.tickets :=
    Room.mem_tickets_iff.mpr
      ⟨client, hClient, hPending, rfl⟩
  exact List.mem_map.mp (hKept.held hTicket)

/- Nobody waits where no row is pending. -/
theorem kept_of_idle
    {s : Node η}
    (hIdle :
      ∀ client ∈ s.1.clients, client.pending = false) :
    Tickets.Kept s.1.tickets s.2.pendingIds := by
  have hNone : s.1.tickets = [] := by
    rw [List.eq_nil_iff_forall_not_mem]
    intro id hId
    rcases Room.mem_tickets_iff.mp hId with
      ⟨client, hClient, hPending, -⟩
    rw [hIdle client hClient] at hPending
    contradiction
  rw [hNone]
  exact Tickets.kept_nil _

section Steps

variable [CryptoCore]

/- A push that is due finds an entry and a secret. -/
def PushKept (s : Node η) : Event η → Prop
| .board now => ∀ pk ∈ s.1.dueClient now, s.2.CanKeep pk
| _ => True

instance (s : Node η) :
    (e : Event η) → Decidable (PushKept s e)
| .board now =>
    inferInstanceAs
      (Decidable
        (∀ pk ∈ s.1.dueClient now, s.2.CanKeep pk))
| .frame _ _ _ => .isTrue trivial
| .routing _ => .isTrue trivial
| .serverTime _ => .isTrue trivial
| .radioLoad _ => .isTrue trivial
| .advert _ => .isTrue trivial
| .host _ => .isTrue trivial

/-
  An acknowledgement takes an entry with its row, and what
  else a frame brings touches neither.
-/
theorem onFrame_keeps_tickets
    (frame : Bytes)
    (rx : RxMeta)
    {s : Node η}
    (hKept : Tickets.Kept s.1.tickets s.2.pendingIds) :
    Tickets.Kept
      (Router.onFrame Room.delegate frame rx s).1.tickets
      (Router.onFrame Room.delegate frame rx
        s).2.pendingIds := by
  rcases Router.onFrame_cases (D := Room.delegate) frame rx s
    with
    ⟨hSame, -⟩ |
    ⟨-, ⟨hTaken, -⟩ | ⟨p, r, -, hUpcall, hFrame⟩⟩
  · rw [hSame]
    exact hKept
  · rw [hTaken]
    exact hKept
  · have hCalm :=
      Router.upcall_calm (D := Room.delegate) p
        (s.1, s.2.takeIn frame)
    rw [hUpcall] at hCalm
    have hHere : Tickets.Kept s.1.tickets r.pendingIds := by
      rw [Router.pendingIds, hCalm.pending]
      exact hKept
    have hTold :=
      Router.told_keeps hHere
        (u := Router.opened Room.delegate frame s) ?_
    · rw [hFrame, Router.considerForwarding_told,
        Router.pendingIds,
        (Router.considerForwarding_calm p rx _).pending]
      exact (Room.shouldForward_changes _ p).tracks.leaves rfl
        hTold
    · intro entry hAcked
      have hFound :
          r.completedBy p.payload = some entry := by
        rw [← show
          (Router.upcall Room.delegate p
            (s.1, s.2.takeIn frame)).2 = r from
          congrArg Prod.snd hUpcall]
        apply Router.upcall_acked
        rw [hUpcall]
        exact hAcked
      unfold Router.completedBy at hFound
      split at hFound
      next => contradiction
      next =>
        have hNumber :
            entry.expectedAck =
              readUint32 p.payload 0 := by
          simpa using List.find?_some hFound
        rw [hNumber]
        exact hFound

/- What any step keeps, but for a push that is not kept. -/
theorem apply_keeps_tickets
    {s : Node η} {e : Event η}
    (hPush : PushKept s e)
    (hKept : Tickets.Kept s.1.tickets s.2.pendingIds) :
    Tickets.Kept (apply s e).1.tickets
      (apply s e).2.pendingIds := by
  cases e with
  | frame frame rx wall =>
      exact onFrame_keeps_tickets frame rx hKept
  | routing now => exact Router.tick_keeps_tickets now hKept
  | serverTime unixSeconds => exact hKept
  | radioLoad permille => exact hKept
  | board now =>
      simp only [apply]
      rcases s.1.tick_waits now s.2 with
        ⟨-, hTracks, hRouter⟩ |
        ⟨pk, entry, hDue, hId, hChange, hPending⟩
      · rw [Room.tickets, hTracks, hRouter]
        exact hKept
      · rw [if_pos (hPush pk hDue)] at hPending
        rw [Router.pendingIds, hPending, List.map_append,
          List.map_singleton, hId]
        exact hChange.keeps hKept
  | advert payload => exact hKept
  | host host => exact hKept

/-
  A push that is not kept leaves its row waiting for an id
  that only an older entry could have.
-/
theorem wedged_of_not_kept
    {s : Node η} {e : Event η}
    (hPush : ¬ PushKept s e)
    (hFresh : s.2.nextId ∉ s.2.pendingIds) :
    ¬ NoneWedged (apply s e) := by
  intro hNone
  cases e with
  | board now =>
      rcases s.1.tick_waits now s.2 with
        ⟨hNobody, -, -⟩ |
        ⟨pk, entry, hDue, -, hChange, hPending⟩
      · refine hPush fun pk hDue => ?_
        rw [hNobody] at hDue
        contradiction
      · have hNotKept : ¬ s.2.CanKeep pk := by
          intro hCan
          refine hPush fun other hOther => ?_
          rw [hDue] at hOther
          cases hOther
          exact hCan
        rw [if_neg hNotKept] at hPending
        rcases Room.mem_tickets_iff.mp hChange.waits with
          ⟨client, hClient, hWaits, hId⟩
        rcases hNone client hClient hWaits with
          ⟨older, hOlder, hSame⟩
        simp only [apply] at hOlder
        rw [hPending] at hOlder
        refine hFresh (List.mem_map.mpr ⟨older, hOlder, ?_⟩)
        exact hSame.trans hId
  | _ => exact hPush trivial

/-
  As long as every push that is due is kept, whoever waits
  can be told. A push that is not has its client wait for
  nothing, unless an old entry happens to have its id.
-/
theorem none_is_wedged_while_pushes_are_kept
    {start s : Node η} {ts : List (Turn η)}
    (hRun : Run Step start ts s)
    (hIdle :
      ∀ client ∈ start.1.clients, client.pending = false) :
    ((∀ t ∈ ts, PushKept t.before t.event) →
      ∀ t ∈ ts,
        NoneWedged t.before ∧ NoneWedged t.after) ∧
    ∀ t ∈ ts,
      t.before.2.nextId ∉ t.before.2.pendingIds →
        ¬ PushKept t.before t.event →
          ¬ NoneWedged t.after := by
  constructor
  · intro hPushes t ht
    have hKept :=
      hRun.invariant_mem_of_forall
        (I := fun s =>
          Tickets.Kept s.1.tickets s.2.pendingIds)
        (kept_of_idle hIdle) hPushes
        (by
          rintro s e _ hHere rfl hPush
          exact apply_keeps_tickets hPush hHere)
        ht
    exact ⟨noneWedged_of_kept hKept.1,
      noneWedged_of_kept hKept.2⟩
  · intro t ht hFresh hPush
    rw [← show apply t.before t.event = t.after from
      hRun.step_of_mem ht]
    exact wedged_of_not_kept hPush hFresh

end Steps

section Example

open Sample

/- Guests who have a post to read, and a router started. -/
def hall (guests : Nat) : Node Unit :=
  ({ quietRoom with
      clients :=
        (List.range guests).map fun i =>
          { pk := key (.ofNat i), access := .guest }
      posts := [quietRoom.makePost (key 99) 5 [72]]
      nextSeq := 2 }.reboot quietRoom.config (),
    .ofByte 2)

/- Turns of the loop, a millisecond apart. -/
def turns (n : Nat) : List (Event Unit) :=
  (List.range n).map fun i => .board (.ofNat (i + 1))

/- Two pushes are kept, and given up when nobody answers. -/
def giveUp : List (Event Unit) :=
  turns 2 ++
    [.routing 100000, .routing 200000, .routing 300000]

theorem two_guests_are_told :
    (∃ t ∈ replay apply (hall 2) giveUp,
      ∃ client ∈ t.after.1.clients,
        client.pending = true) ∧
      ∀ t ∈ replay apply (hall 2) giveUp,
        NoneWedged t.before ∧ NoneWedged t.after :=
  ⟨by decide +kernel,
    (none_is_wedged_while_pushes_are_kept
      (run_replay apply (hall 2) giveUp)
      (by decide +kernel)).1 (by decide +kernel)⟩

/-
  There is room for 64 clients and for 32 entries: the push
  to the 33rd guest is sent, and its row waits for nothing.
-/
theorem the_last_guest_is_wedged :
    ¬ ∀ {start s : Node Unit} {ts : List (Turn Unit)},
        Run Step start ts s →
          (∀ client ∈ start.1.clients,
            client.pending = false) →
            NoneWedged s := by
  intro hAll
  have hNone :=
    hAll (run_replay apply (hall 33) (turns 33))
      (by decide +kernel)
  revert hNone
  decide +kernel

end Example

end Node

end MeshCore
