import Mathlib.Data.List.InsertIdx
import MeshCore.Library.Run
import MeshCore.Room.Effects

/-
  Runs of a room under whatever the layers around it do: its
  events arrive in any order, and what it asks of routing is
  answered in any way.

  Key definitions include:
    * `Room.Event`, `Room.perform`
    * `Room.Step`, `Room.script`
    * `Room.bookmarkOf`, `Room.bookmarkTime`
    * `Room.postOf`
    * `Room.BoardChange`, `Room.TrackChange`

  Key facts include:
    * `Room.step_changes`
-/

namespace MeshCore

namespace Room

variable {η : Type}

------------------------------------------------------------
-- Events
------------------------------------------------------------

inductive Event (η : Type) where
| setServerTime (unixSeconds : UInt32)
| setRadioLoad (permille : UInt32)
| anon (pk : PublicKey) (plain : Bytes)
| payload
    (contact : Contact)
    (type : PayloadType)
    (plain : Bytes)
| group (type : PayloadType) (payload : Bytes)
| forward (p : Packet)
| ack (id : SendId)
| failed (id : SendId)
| tick (now : Millis)
| host (host : η)

/- The send whose fate an event tells, if it tells one. -/
def Event.fateOf : Event η → Option SendId
| .ack id => some id
| .failed id => some id
| _ => none

/- What a room asked of routing, and what it was told. -/
abbrev Calls :=
  List (Program.Answered SenderOp SenderOp.Ans)

/- The ids that sends were answered with. -/
def sendIds : Calls → List SendId
| [] => []
| ⟨.sendDirect _ _ _ _, id⟩ :: rest => id :: sendIds rest
| _ :: rest => sendIds rest

/- The id of the first send that asks for an answer. -/
def pushId : Calls → Option SendId
| [] => none
| ⟨.sendDirect _ _ _ true, id⟩ :: _ => some id
| _ :: rest => pushId rest

theorem pushId_of_unacked
    {calls : Calls}
    (hUnacked : ∀ call ∈ calls, call.op.Unacked) :
    pushId calls = none := by
  induction calls with
  | nil => rfl
  | cons call calls ih =>
      have hRest := ih fun call hCall =>
        hUnacked call (List.mem_cons_of_mem _ hCall)
      have hFirst := hUnacked call List.mem_cons_self
      rcases call with ⟨op, ans⟩
      cases op with
      | sendDirect dest type payload wantAck =>
          cases (hFirst : wantAck = false)
          exact hRest
      | _ => exact hRest

section Steps

variable [CryptoCore]

def perform (room : Room η) : Event η → SenderM (Room η)
| .setServerTime unixSeconds =>
    return room.setServerTime unixSeconds
| .setRadioLoad permille =>
    return room.setRadioLoad permille
| .anon pk plain => room.onAnon pk plain
| .payload contact type plain =>
    room.onPayload contact type plain
| .group type payload => return room.onGroup type payload
| .forward p => return (room.shouldForward p).2
| .ack id => return room.onAck id
| .failed id => return room.onDeliveryFailed id
| .tick now => room.tick now
| .host host => return { room with host := host }

def Step
    (room : Room η)
    (e : Event η × Calls)
    (room' : Room η) :
    Prop :=
  (room.perform e.1).Exec e.2 room'

/- One step of a run of a room. -/
abbrev Turn (η : Type) :=
  Transition (Room η) (Event η × Calls)

/- What is done on an event, where a handler answers. -/
def under
    {σ : Type}
    (h : Program.Handler SenderOp SenderOp.Ans σ)
    (s : Room η × σ)
    (e : Event η) :
    Room η × σ :=
  (s.1.perform e).run h s.2

def turn
    {σ : Type}
    (h : Program.Handler SenderOp SenderOp.Ans σ)
    (s : Room η × σ)
    (e : Event η) :
    Turn η :=
  ⟨s.1, (e, (s.1.perform e).trace h s.2), (under h s e).1⟩

theorem step_turn
    {σ : Type}
    (h : Program.Handler SenderOp SenderOp.Ans σ)
    (s : Room η × σ)
    (e : Event η) :
    Step s.1 (turn h s e).event (under h s e).1 :=
  Program.run_exec h (s.1.perform e) s.2

/- The run that given events make where a handler answers. -/
def script
    {σ : Type}
    (h : Program.Handler SenderOp SenderOp.Ans σ)
    (s : Room η × σ) :
    List (Event η) → List (Turn η)
| [] => []
| e :: es => turn h s e :: script h (under h s e) es

theorem run_script
    {σ : Type}
    (h : Program.Handler SenderOp SenderOp.Ans σ)
    (s : Room η × σ)
    (es : List (Event η)) :
    Run Step s.1 (script h s es)
      (es.foldl (under h) s).1 := by
  induction es generalizing s with
  | nil => exact .start
  | cons e es ih =>
      have hFirst := Run.single (step_turn h s e)
      exact hFirst.trans (ih (under h s e))

theorem script_append
    {σ : Type}
    (h : Program.Handler SenderOp SenderOp.Ans σ)
    (s : Room η × σ)
    (es fs : List (Event η)) :
    script h s (es ++ fs) =
      script h s es ++ script h (es.foldl (under h) s) fs := by
  induction es generalizing s with
  | nil => rfl
  | cons e es ih =>
      rw [List.cons_append, script, ih]
      rfl

end Steps

------------------------------------------------------------
-- What An Event Is About
------------------------------------------------------------

/- A request that is neither old nor without rights. -/
def acceptsRequest
    (room : Room η)
    (row : Nat)
    (plain : Bytes) :
    Bool :=
  requestPrefixSize ≤ plain.length ∧
    (room.client row).lastRequest ≤ readUint32 plain 0 ∧
    room.can (room.client row) .read

/- The bookmark that an accepted request sets. -/
def requestBookmark
    (room : Room η)
    (row : Nat)
    (plain : Bytes) :
    Option UInt32 :=
  if room.acceptsRequest row plain ∧
      requestTypeOf (plain.getD 4 0) = some .keepAlive ∧
      carriesBookmark plain then
    some
      (room.seqFromTimestamp
        (readUint32 plain requestPrefixSize))
  else none

/- The bookmark that an event sets for a client, if any. -/
def bookmarkOf
    (room : Room η)
    (pk : PublicKey) :
    Event η → Option UInt32
| .anon peer plain =>
    if peer = pk then
      (room.login peer plain).1.map fun _ =>
        room.seqFromTimestamp (readUint32 plain 4)
    else none
| .payload contact .req plain =>
    if contact.pk = pk then
      (room.findClient pk).bind fun row =>
        room.requestBookmark row plain
    else none
| _ => none

/- The time that an event would have a client read from. -/
def bookmarkTime : Event η → Option UInt32
| .anon _ plain => some (readUint32 plain 4)
| .payload _ .req plain =>
    some (readUint32 plain requestPrefixSize)
| _ => none

/- The text that a direct message posts. -/
def directText
    (room : Room η)
    (pk : PublicKey)
    (plain : Bytes) :
    Option TextMsg :=
  (decodeText plain).bind fun message =>
    (room.findClient pk).bind fun row =>
      if textTypeOf message.txtType = some .plain ∧
          room.can (room.client row) .post then
        some message
      else none

/- What an event posts, and in whose name. -/
def postOf
    [CryptoCore]
    (room : Room η) :
    Event η → Option (PublicKey × TextMsg)
| .payload contact .txtMsg plain =>
    (room.directText contact.pk plain).map
      fun message => (contact.pk, message)
| .group type payload =>
    (room.channelText type payload).map
      fun message => (anonymous, message)
| _ => none

------------------------------------------------------------
-- What A Step Changes
------------------------------------------------------------

/- A step posts, or leaves the board be, or clears it. -/
inductive BoardChange
    (room room' : Room η) :
    Option (PublicKey × TextMsg) → Prop where
| posted
    {pk : PublicKey}
    {message : TextMsg}
    (hPosts :
      room'.posts =
        (room.addPost pk message.timestamp
          message.message).2.posts)
    (hSeq : room'.nextSeq = room.nextSeq + 1) :
    BoardChange room room' (some (pk, message))
| same
    (hPosts : room'.posts = room.posts)
    (hSeq : room'.nextSeq = room.nextSeq) :
    BoardChange room room' none
| cleared
    (hPosts : room'.posts = [])
    (hSeq : room'.nextSeq = room.nextSeq) :
    BoardChange room room' none

/- What is on the board was there, or has just been made. -/
theorem BoardChange.mem
    {room room' : Room η}
    {posted : Option (PublicKey × TextMsg)}
    (hBoard : BoardChange room room' posted)
    {post : Post}
    (hPost : post ∈ room'.posts) :
    post ∈ room.posts ∨
      ∃ pk message,
        posted = some (pk, message) ∧
          post =
            room.makePost pk message.timestamp
              message.message := by
  cases hBoard with
  | same hPosts _ => exact .inl (hPosts ▸ hPost)
  | cleared hPosts _ => simp [hPosts] at hPost
  | @posted pk message hPosts _ =>
      rw [hPosts] at hPost
      rcases List.mem_append.mp hPost with hKept | hNew
      · refine .inl ?_
        revert hKept
        split
        · exact List.mem_of_mem_drop
        · exact id
      · exact .inr ⟨pk, message, rfl,
          List.mem_singleton.mp hNew⟩

/-
  A step changes one row at most. Only a push asks for an
  acknowledgement, and waits for the send with its id.
-/
inductive TrackChange
    (room room' : Room η) :
    Event η → Option SendId → Prop where
| idle
    {e : Event η}
    (hTracks : room'.tracks = room.tracks)
    (hNone : ∀ pk, room.bookmarkOf pk e = none)
    (hUnknown :
      ∀ id, e.fateOf = some id →
        room.tracks.findIdx? (Track.awaits id) = none) :
    TrackChange room room' e none
| marked
    {e : Event η} {pk : PublicKey} {row : Nat} {b : UInt32}
    (hMark : room.bookmarkOf pk e = some b)
    (hOthers :
      ∀ other, other ≠ pk → room.bookmarkOf other e = none)
    (hRow : room.findClient pk = some row)
    (hTracks :
      room'.tracks =
        room.tracks.modify row (Track.marked b)) :
    TrackChange room room' e none
| entered
    {e : Event η} {pk : PublicKey} {b : UInt32}
    {kept : List Track}
    (hMark : room.bookmarkOf pk e = some b)
    (hOthers :
      ∀ other, other ≠ pk → room.bookmarkOf other e = none)
    (hNew : room.findClient pk = none)
    (hKept :
      kept = room.tracks ∨
        ∃ victim, kept = room.tracks.eraseIdx victim)
    (hTracks :
      room'.tracks = kept ++ [{ pk := pk, syncSeq := b }]) :
    TrackChange room room' e none
| pushed
    {now : Millis} {row : Nat} {post : Post} {id : SendId}
    (hRow : row < room.clients.length)
    (hIdle : (room.client row).pending = false)
    (hPost : room.nextPostFor (room.client row) = some post)
    (hTracks :
      room'.tracks =
        room.tracks.modify row (Track.pushed id post.seq)) :
    TrackChange room room' (.tick now) (some id)
| acked
    {id : SendId} {row : Nat}
    (hRow :
      room.tracks.findIdx? (Track.awaits id) = some row)
    (hTracks :
      room'.tracks = room.tracks.modify row Track.acked) :
    TrackChange room room' (.ack id) none
| failed
    {id : SendId} {row : Nat}
    (hRow :
      room.tracks.findIdx? (Track.awaits id) = some row)
    (hTracks :
      room'.tracks = room.tracks.modify row Track.failed) :
    TrackChange room room' (.failed id) none

/- An event that marks no row and tells no send's fate. -/
theorem TrackChange.quiet
    [CryptoCore]
    {room room' : Room η} {e : Event η}
    (hTracks : room'.tracks = room.tracks)
    (hNone : ∀ pk, room.bookmarkOf pk e = none)
    (hFate : e.fateOf = none) :
    TrackChange room room' e none :=
  .idle hTracks hNone fun id hTold => by
    rw [hFate] at hTold
    contradiction

/- Everything a step that sends no push can change. -/
structure Changes
    [CryptoCore]
    (room : Room η)
    (e : Event η)
    (room' : Room η) :
    Prop where
  board : BoardChange room room' (room.postOf e)
  tracks : TrackChange room room' e none

------------------------------------------------------------
-- Handlers
------------------------------------------------------------

/- A command leaves the rows and may clear the board. -/
theorem handleCommand_ensures
    (room : Room η)
    (row : Nat)
    (timestamp : UInt32)
    (line : Bytes) :
    (room.handleCommand row timestamp line).Ensures
      SenderOp.Answers
      fun result =>
        BoardChange room result.2 none ∧
          result.2.tracks = room.tracks := by
  unfold handleCommand
  refine Program.ensures_ite (fun _ => ?_) fun _ => ?_
  · have hReply :
        (room.reply (room.client row).pk
            (ascii "ERR - admin rights required")).Ensures
          SenderOp.Answers
          fun room' =>
            BoardChange room room' none ∧
              room'.tracks = room.tracks :=
      reply_ensures _ _ ⟨.same rfl rfl, rfl⟩
    exact refused_ensures hReply
  refine Program.ensures_ite (fun _ => ?_) fun _ => ?_
  · exact ⟨.same rfl rfl, rfl⟩
  refine (runCommand_keeps _ _ line).mono (fun _ h => h)
    fun result hKeeps => ⟨?_, ?_⟩
  · rcases hKeeps.posts with hPosts | hPosts
    · exact .same hPosts hKeeps.nextSeq
    · exact .cleared hPosts hKeeps.nextSeq
  · have hTracks :=
      room.tracks_modifyClient_same row
        (f := fun client =>
          { client with lastCommand := timestamp })
        fun _ => rfl
    rw [← hTracks, tracks, tracks, hKeeps.clients]

section Handlers

variable [CryptoCore]

theorem publishTo_ensures
    (plain : Bytes)
    (channels : List Channel)
    {post : Unit → Prop}
    (hPost : post ()) :
    (publishTo plain channels).Ensures
      SenderOp.Unacked post := by
  induction channels with
  | nil => exact hPost
  | cons channel rest ih =>
      rw [publishTo]
      cases channelPayload channel plain with
      | none => exact ih
      | some payload => exact ⟨trivial, fun _ => ih⟩

/- Only a plain text of a client that may post is posted. -/
theorem handleText_ensures
    (room : Room η)
    (contact : Contact)
    (plain : Bytes) :
    (room.handleText contact plain).Ensures
      SenderOp.Unacked
      fun result =>
        BoardChange room result.2
            ((room.directText contact.pk plain).map
              fun message => (contact.pk, message)) ∧
          result.2.tracks = room.tracks := by
  unfold handleText directText
  cases decodeText plain with
  | none => exact ⟨.same rfl rfl, rfl⟩
  | some message =>
      cases room.findClient contact.pk with
      | none => exact ⟨.same rfl rfl, rfl⟩
      | some row =>
          simp only [Option.bind_some]
          cases textTypeOf message.txtType with
          | none =>
              rw [if_neg (by simp)]
              exact ⟨.same rfl rfl, rfl⟩
          | some type =>
              cases type with
              | plain =>
                  refine Program.ensures_ite
                    (fun hRefused => ?_) fun hPost => ?_
                  · rw [if_neg fun hBoth =>
                      hRefused hBoth.2]
                    exact ⟨.same rfl rfl, rfl⟩
                  · rw [if_pos ⟨rfl, not_not.mp hPost⟩,
                      Program.ensures_bind]
                    unfold publishToChannels
                    split
                    · exact ⟨.posted rfl rfl, rfl⟩
                    · exact publishTo_ensures _ _
                        ⟨.posted rfl rfl, rfl⟩
              | cli =>
                  rw [if_neg (by simp)]
                  exact (room.handleCommand_ensures row
                    message.timestamp message.message).mono
                    (fun _ h => h.unacked) fun _ h => h
              | signed =>
                  rw [if_neg (by simp)]
                  exact ⟨.same rfl rfl, rfl⟩

omit [CryptoCore] in
/- A change of a row that leaves the rights of all alone. -/
theorem can_modifyClient
    (room : Room η)
    (row : Nat)
    (action : Action)
    {f : Client → Client}
    (hAccess :
      ∀ client, (f client).access = client.access) :
    (room.modifyClient row f).can
        ((room.modifyClient row f).client row) action =
      room.can (room.client row) action := by
  have hSame :
      ((room.modifyClient row f).client row).access =
        (room.client row).access := by
    simp only [client, modifyClient, List.getD_eq_getElem?_getD,
      List.getElem?_modify_eq]
    cases room.clients[row]? with
    | none => rfl
    | some client => exact hAccess client
  cases action with
  | read => simp only [can, hSame]
  | post =>
      simp only [can, hSame]
      rfl
  | command => simp only [can, hSame]

/- A request moves a bookmark, or nothing. -/
theorem handleRequest_ensures
    (room : Room η)
    (row : Nat)
    (plain : Bytes) :
    (room.handleRequest row plain).Ensures
      SenderOp.Answers
      fun result =>
        BoardChange room result.2 none ∧
          result.2.tracks =
            match room.requestBookmark row plain with
            | none => room.tracks
            | some b =>
                room.tracks.modify row
                  (Track.marked b) := by
  unfold handleRequest requestBookmark acceptsRequest
  refine Program.ensures_ite (fun hShort => ?_)
    fun hLong => ?_
  · rw [if_neg (by simp; omega)]
    exact ⟨.same rfl rfl, rfl⟩
  refine Program.ensures_ite (fun hOld => ?_)
    fun hNew => ?_
  · rw [if_neg (by simp; grind)]
    exact ⟨.same rfl rfl, rfl⟩
  generalize hNoted :
    (room.modifyClient row fun client =>
      { client with
        lastRequest := readUint32 plain 0 }) = noted
  have hTracks : noted.tracks = room.tracks := by
    rw [← hNoted]
    exact room.tracks_modifyClient_same row fun _ => rfl
  have hPosts : noted.posts = room.posts := by rw [← hNoted]; rfl
  have hSeq : noted.nextSeq = room.nextSeq := by
    rw [← hNoted]; rfl
  have hCan :
      noted.can (noted.client row) .read =
        room.can (room.client row) .read := by
    rw [← hNoted]
    exact room.can_modifyClient row .read fun _ => rfl
  refine Program.ensures_ite (fun hRights => ?_)
    fun hRights => ?_
  · rw [hCan] at hRights
    rw [if_neg (by simp_all)]
    exact ⟨.same hPosts hSeq, hTracks⟩
  rw [hCan, not_not] at hRights
  cases requestTypeOf (plain.getD 4 0) with
  | none =>
      rw [if_neg (by simp)]
      exact ⟨.same hPosts hSeq, hTracks⟩
  | some type =>
      cases type with
      | status =>
          rw [if_neg (by simp)]
          exact ⟨trivial, fun _ =>
            ⟨rfl, fun _ => ⟨.same hPosts hSeq, hTracks⟩⟩⟩
      | keepAlive =>
          have hAwake :=
            noted.tracks_modifyClient_same row
              (f := fun client =>
                { client with retryAfter := 0 })
              fun _ => rfl
          unfold moveBookmark
          by_cases hMark : carriesBookmark plain = true
          · rw [if_pos (by simp_all)]
            simp only [if_pos hMark]
            refine ⟨trivial, fun _ =>
              ⟨.same hPosts hSeq, ?_⟩⟩
            rw [← hTracks, ← hAwake]
            have hPast :
                noted.seqFromTimestamp =
                  room.seqFromTimestamp := by
              funext bookmark
              simp only [seqFromTimestamp, hPosts]
            simp only
            rw [← hPast]
            exact tracks_modifyClient _ _ fun _ => rfl
          · rw [if_neg (by simp [hMark])]
            simp only [if_neg hMark]
            exact ⟨trivial, fun _ =>
              ⟨.same hPosts hSeq, hAwake.trans hTracks⟩⟩

theorem onPayload_ensures
    (room : Room η)
    (contact : Contact)
    (type : PayloadType)
    (plain : Bytes) :
    (room.onPayload contact type plain).Ensures
      SenderOp.Unacked
      (room.Changes (.payload contact type plain)) := by
  cases type with
  | txtMsg =>
      refine Program.ensures_bind.mpr ?_
      refine (room.handleText_ensures contact plain).mono
        (fun _ h => h) fun result hResult => ?_
      exact ⟨hResult.1,
        .quiet hResult.2 (fun _ => rfl) rfl⟩
  | req =>
      have hOthers :
          ∀ other, other ≠ contact.pk →
            room.bookmarkOf other
              (.payload contact .req plain) = none :=
        fun other hOther => if_neg hOther.symm
      simp only [onPayload]
      cases hRow : room.findClient contact.pk with
      | none =>
          refine ⟨.same rfl rfl,
            .quiet rfl (fun pk => ?_) rfl⟩
          by_cases hPk : contact.pk = pk
          · subst hPk
            simp [bookmarkOf, hRow]
          · exact if_neg hPk
      | some row =>
          have hMark :
              room.bookmarkOf contact.pk
                  (.payload contact .req plain) =
                room.requestBookmark row plain := by
            simp [bookmarkOf, hRow]
          refine Program.ensures_bind.mpr ?_
          refine (room.handleRequest_ensures row plain).mono
            (fun _ h => h.unacked) fun result hResult => ?_
          rcases hResult with ⟨hBoard, hTracks⟩
          refine ⟨hBoard, ?_⟩
          cases hRequest : room.requestBookmark row plain with
          | none =>
              rw [hRequest] at hTracks hMark
              refine .quiet hTracks (fun pk => ?_) rfl
              by_cases hPk : pk = contact.pk
              · rw [hPk, hMark]
              · exact hOthers pk hPk
          | some b =>
              rw [hRequest] at hTracks hMark
              exact .marked hMark hOthers hRow hTracks
  | _ => exact ⟨.same rfl rfl, .quiet rfl (fun _ => rfl) rfl⟩

/- A message that is posted, where there are no channels. -/
theorem onPayload_text
    {room : Room η}
    (contact : Contact)
    {plain : Bytes} {message : TextMsg}
    (hText : room.directText contact.pk plain = some message)
    (hChannels : room.config.channels = []) :
    room.onPayload contact .txtMsg plain =
      .done (room.addPost contact.pk message.timestamp
        message.message).2 := by
  unfold directText at hText
  rcases Option.bind_eq_some_iff.mp hText with
    ⟨decoded, hDecode, hText⟩
  rcases Option.bind_eq_some_iff.mp hText with
    ⟨row, hRow, hText⟩
  split at hText
  next hRights =>
    cases hText
    have hNobody :
        (room.addPost contact.pk message.timestamp
            message.message).2.publishToChannels
          (room.makePost contact.pk message.timestamp
            message.message) = .done () := by
      unfold publishToChannels
      split
      · rfl
      · rw [addPost, hChannels]
        rfl
    simp only [onPayload, handleText, hDecode, hRow,
      hRights.1, hRights.2, hNobody]
    rfl
  next => cases hText

omit [CryptoCore] in
/- Refused, or let in with a bookmark of the client's own. -/
theorem login_cases
    (room : Room η)
    (pk : PublicKey)
    (plain : Bytes) :
    ∃ room₁, room.OnlyFailures room₁ ∧
      (room.login pk plain = (none, room₁) ∨
        ∃ access timestamp,
          room.login pk plain =
            (some (room₁.enterClient pk).1,
              ((room₁.enterClient pk).2.modifyClient
                (room₁.enterClient pk).1
                fun client =>
                  { client with
                    access := access
                    lastLogin := timestamp }).modifyClient
                (room₁.enterClient pk).1
                fun client =>
                  { client with
                    syncSeq :=
                      (room₁.enterClient pk).2.seqFromTimestamp
                        (readUint32 plain 4) })) := by
  unfold login
  split
  · exact ⟨room, ⟨room.failures, rfl⟩, .inl rfl⟩
  · simp only
    rcases room.authenticate_cases pk
        (trimmed
          ((plain.drop loginRequestPrefixSize).take
            maxPassword))
        (readUint32 plain 0) with
      ⟨room₁, hOnly, hRefused | ⟨access, hTaken⟩⟩
    · rw [hRefused]
      exact ⟨room₁, hOnly, .inl rfl⟩
    · rw [hTaken]
      exact ⟨room₁, hOnly, .inr ⟨access, _, rfl⟩⟩

theorem login_changes
    (room : Room η)
    (pk : PublicKey)
    (plain : Bytes) :
    room.Changes (.anon pk plain) (room.login pk plain).2 := by
  have hOthers :
      ∀ other, other ≠ pk →
        room.bookmarkOf other (.anon pk plain) = none :=
    fun other hOther => if_neg hOther.symm
  have hMark :
      room.bookmarkOf pk (.anon pk plain) =
        (room.login pk plain).1.map fun _ =>
          room.seqFromTimestamp (readUint32 plain 4) :=
    if_pos rfl
  rcases room.login_cases pk plain with
    ⟨room₁, ⟨failures, rfl⟩, hLogin⟩
  generalize hRoom₁ :
    { room with failures := failures } = room₁ at hLogin
  have hTracks₁ : room₁.tracks = room.tracks := by
    rw [← hRoom₁]; rfl
  have hFind₁ : room₁.findClient pk = room.findClient pk := by
    rw [← hRoom₁]; rfl
  have hPosts₁ : room₁.posts = room.posts := by
    rw [← hRoom₁]
  have hSeq₁ : room₁.nextSeq = room.nextSeq := by
    rw [← hRoom₁]
  rcases hLogin with hRefused | ⟨access, timestamp, hTaken⟩
  · rw [hRefused] at hMark ⊢
    refine ⟨.same hPosts₁ hSeq₁,
      .quiet hTracks₁ (fun other => ?_) rfl⟩
    by_cases hOther : other = pk
    · rw [hOther, hMark]
      rfl
    · exact hOthers other hOther
  · rcases room₁.enterClient_cases pk with
      ⟨row, hRow, hEnter⟩ | ⟨hNew, kept, hKept, hEnter⟩
    · rw [hTaken] at hMark ⊢
      simp only [hEnter]
      refine ⟨.same hPosts₁ hSeq₁,
        .marked hMark hOthers (hFind₁ ▸ hRow) ?_⟩
      rw [tracks_modifyClient _ _
          (g := Track.marked
            (room.seqFromTimestamp (readUint32 plain 4)))
          fun client => by
            simp only [seqFromTimestamp, hPosts₁]; rfl,
        tracks_modifyClient_same room₁ row
          (f := fun client =>
            { client with
              access := access
              lastLogin := timestamp })
          fun _ => rfl,
        hTracks₁]
    · have hKept' :
          kept.map Client.track = room.tracks ∨
            ∃ victim,
              kept.map Client.track =
                room.tracks.eraseIdx victim := by
        rw [← hTracks₁]
        rcases hKept with ⟨rfl, -⟩ | ⟨victim, -, rfl⟩
        · exact .inl rfl
        · exact .inr ⟨victim,
            (List.eraseIdx_map _ _ _).symm⟩
      rw [hTaken] at hMark ⊢
      simp only [hEnter]
      refine ⟨.same hPosts₁ hSeq₁,
        .entered hMark hOthers (hFind₁ ▸ hNew) hKept' ?_⟩
      simp only [modifyClient, tracks, Table.modify_length_append,
        seqFromTimestamp, hPosts₁]
      simp [Client.track]

theorem onAnon_ensures
    (room : Room η)
    (pk : PublicKey)
    (plain : Bytes) :
    (room.onAnon pk plain).Ensures SenderOp.Answers
      (room.Changes (.anon pk plain)) := by
  have hLogin := room.login_changes pk plain
  unfold onAnon
  generalize room.login pk plain = result at hLogin ⊢
  rcases result with ⟨row, left⟩
  cases row with
  | none => exact hLogin
  | some row =>
      exact ⟨trivial, fun _ => ⟨rfl, fun _ => hLogin⟩⟩

omit [CryptoCore] in
theorem settle_tracks
    (room : Room η)
    (id : SendId)
    {f : Client → Client}
    {g : Track → Track}
    (hTrack : ∀ client, (f client).track = g client.track) :
    (room.tracks.findIdx? (Track.awaits id) = none ∧
        (room.settle id f).tracks = room.tracks) ∨
      ∃ row,
        room.tracks.findIdx? (Track.awaits id) = some row ∧
          (room.settle id f).tracks =
            room.tracks.modify row g := by
  have hFind :
      room.tracks.findIdx? (Track.awaits id) =
        room.clients.findIdx? (Awaits id ·) := by
    simp only [tracks, List.findIdx?_map, Function.comp_def,
      Track.awaits, Awaits, Client.track]
    rfl
  rw [hFind]
  unfold settle
  cases room.clients.findIdx? (Awaits id ·) with
  | none => exact .inl ⟨rfl, rfl⟩
  | some row =>
      exact .inr ⟨row, rfl,
        tracks_modifyClient room row hTrack⟩

theorem onAck_changes
    (room : Room η)
    (id : SendId) :
    room.Changes (.ack id) (room.onAck id) := by
  refine ⟨?_, ?_⟩
  · unfold onAck settle
    split <;> exact .same rfl rfl
  · rcases settle_tracks room id
        (f := fun client =>
          { client with
            syncSeq := client.pendingSeq
            pending := false
            retryAfter := 0 })
        (g := Track.acked) fun _ => rfl with
      ⟨hNone, hTracks⟩ | ⟨row, hRow, hTracks⟩
    · refine .idle hTracks (fun _ => rfl) fun other hFate => ?_
      cases hFate
      exact hNone
    · exact .acked hRow hTracks

theorem onDeliveryFailed_changes
    (room : Room η)
    (id : SendId) :
    room.Changes (.failed id) (room.onDeliveryFailed id) := by
  refine ⟨?_, ?_⟩
  · unfold onDeliveryFailed settle
    split <;> exact .same rfl rfl
  · rcases settle_tracks room id
        (f := fun client =>
          { client with
            pending := false
            retryAfter := room.now + room.config.retryDelay })
        (g := Track.failed) fun _ => rfl with
      ⟨hNone, hTracks⟩ | ⟨row, hRow, hTracks⟩
    · refine .idle hTracks (fun _ => rfl) fun other hFate => ?_
      cases hFate
      exact hNone
    · exact .failed hRow hTracks

theorem onGroup_changes
    (room : Room η)
    (type : PayloadType)
    (payload : Bytes) :
    room.Changes (.group type payload)
      (room.onGroup type payload) := by
  have hPost :
      room.postOf (.group type payload) =
        (room.channelText type payload).map
          fun message => (anonymous, message) :=
    rfl
  unfold onGroup
  cases hText : room.channelText type payload with
  | none =>
      rw [hText] at hPost
      exact ⟨hPost ▸ .same rfl rfl, .quiet rfl (fun _ => rfl) rfl⟩
  | some message =>
      rw [hText] at hPost
      exact ⟨hPost ▸ .posted rfl rfl, .quiet rfl (fun _ => rfl) rfl⟩

theorem shouldForward_changes
    (room : Room η)
    (p : Packet) :
    room.Changes (.forward p) (room.shouldForward p).2 := by
  unfold shouldForward
  split
  · exact ⟨.same rfl rfl, .quiet rfl (fun _ => rfl) rfl⟩
  · split <;>
      exact ⟨.same rfl rfl, .quiet rfl (fun _ => rfl) rfl⟩

/- Nothing but a tick asks for an acknowledgement. -/
theorem perform_ensures
    (room : Room η)
    (e : Event η)
    (hTick : ∀ now, e ≠ .tick now) :
    (room.perform e).Ensures SenderOp.Unacked
      (room.Changes e) := by
  cases e with
  | setServerTime unixSeconds =>
      exact ⟨.same rfl rfl, .quiet rfl (fun _ => rfl) rfl⟩
  | setRadioLoad permille =>
      exact ⟨.same rfl rfl, .quiet rfl (fun _ => rfl) rfl⟩
  | anon pk plain =>
      exact (room.onAnon_ensures pk plain).mono
        (fun _ h => h.unacked) fun _ h => h
  | payload contact type plain =>
      exact room.onPayload_ensures contact type plain
  | group type payload => exact room.onGroup_changes type payload
  | forward p => exact room.shouldForward_changes p
  | ack id => exact room.onAck_changes id
  | failed id => exact room.onDeliveryFailed_changes id
  | tick now => exact absurd rfl (hTick now)
  | host host =>
      exact ⟨.same rfl rfl, .quiet rfl (fun _ => rfl) rfl⟩

end Handlers

------------------------------------------------------------
-- Pushes
------------------------------------------------------------

theorem nextClientToPush_cases (room : Room η) :
    room.nextClientToPush = (none, room) ∨
      ∃ turn row,
        row < room.clients.length ∧
          room.pushable row = true ∧
          room.nextClientToPush =
            (some row, { room with nextClientIdx := turn }) := by
  unfold nextClientToPush
  simp only
  split
  next hNone => exact .inl rfl
  next row hSome =>
    right
    refine ⟨_, row, ?_, List.find?_some hSome, rfl⟩
    have hMem := List.mem_of_find?_eq_some hSome
    rcases List.mem_map.mp hMem with ⟨step, hStep, rfl⟩
    have hStep := List.mem_range.mp hStep
    exact Nat.mod_lt _ (by omega)

/-
  A tick that finds nobody to push to does nothing; another
  pushes the oldest post that is new for an idle client.
-/
theorem tick_cases
    (room : Room η)
    (now : Millis) :
    (∃ turn,
      room.tick now =
        .done { room with now := now, nextClientIdx := turn }) ∨
      ∃ turn row post,
        row < room.clients.length ∧
          (room.client row).pending = false ∧
          room.can (room.client row) .read = true ∧
          room.nextPostFor (room.client row) = some post ∧
          room.tick now =
            .call .store fun store =>
              match pushPlain store post with
              | none =>
                  .done { room with
                    now := now
                    nextClientIdx := turn }
              | some payload =>
                  .call
                    (.sendDirect (room.client row).pk .txtMsg
                      payload true)
                    fun id =>
                      .done ({ room with
                        now := now
                        nextClientIdx := turn }.modifyClient
                        row fun client =>
                          { client with
                            pendingId := id
                            pending := true
                            pendingSeq := post.seq }) := by
  unfold tick
  rcases nextClientToPush_cases { room with now := now } with
    hNobody | ⟨turn, row, hRow, hPushable, hSomebody⟩
  · simp only [hNobody]
    exact .inl ⟨room.nextClientIdx, rfl⟩
  · simp only [hSomebody]
    simp only [pushable, decide_eq_true_eq,
      Bool.not_eq_true] at hPushable
    rcases hPushable with ⟨hIdle, _, hRead, hNew⟩
    rcases Option.isSome_iff_exists.mp hNew with
      ⟨post, hPost⟩
    refine .inr ⟨turn, row, post, hRow, hIdle, hRead,
      hPost, ?_⟩
    unfold pushNextPost
    have hPost :
        nextPostFor
          { room with now := now, nextClientIdx := turn }
          (client
            { room with now := now, nextClientIdx := turn }
            row) = some post :=
      hPost
    simp only [hPost]
    rfl

/- What any step does to the board and to the rows. -/
theorem step_changes
    [CryptoCore]
    {room room' : Room η}
    {e : Event η}
    {calls : Calls}
    (hStep : Step room (e, calls) room') :
    BoardChange room room' (room.postOf e) ∧
      TrackChange room room' e (pushId calls) := by
  by_cases hTick : ∃ now, e = .tick now
  · rcases hTick with ⟨now, rfl⟩
    rcases room.tick_cases now with
      ⟨turn, hNobody⟩ |
      ⟨turn, row, post, hRow, hIdle, hRead, hPost, hPush⟩
    · simp only [Step, perform, hNobody,
        Program.exec_done_iff] at hStep
      rcases hStep with ⟨rfl, rfl⟩
      exact ⟨.same rfl rfl, .quiet rfl (fun _ => rfl) rfl⟩
    · simp only [Step, perform, hPush] at hStep
      rcases Program.exec_call_iff.mp hStep with
        ⟨store, rest, rfl, hAsked⟩
      cases hPlain : pushPlain store post with
      | none =>
          simp only [hPlain] at hAsked
          rcases Program.exec_done_iff.mp hAsked with
            ⟨rfl, rfl⟩
          exact ⟨.same rfl rfl, .quiet rfl (fun _ => rfl) rfl⟩
      | some payload =>
          simp only [hPlain] at hAsked
          rcases Program.exec_call_iff.mp hAsked with
            ⟨id, rest, rfl, hSent⟩
          rcases Program.exec_done_iff.mp hSent with
            ⟨rfl, rfl⟩
          refine ⟨.same rfl rfl,
            .pushed hRow hIdle hPost ?_⟩
          exact tracks_modifyClient _ row fun _ => rfl
  · have hEnsures := room.perform_ensures e fun now hNow =>
      hTick ⟨now, hNow⟩
    rcases hEnsures.exec hStep with ⟨hUnacked, hChanges⟩
    rw [pushId_of_unacked hUnacked]
    exact ⟨hChanges.board, hChanges.tracks⟩

end Room

------------------------------------------------------------
-- A Room To Evaluate With
------------------------------------------------------------

namespace Sample

/- The key that consists of one byte throughout. -/
def key (n : UInt8) : PublicKey :=
  Vector.replicate packetPublicKeySize n

/- A room that lets guests in for the password `g`. -/
def quietRoom : Room Unit :=
  .create { guestPassword := ascii "g" } ()

/- Routing that numbers the sends, and does nothing else. -/
def numbering :
    Program.Handler SenderOp SenderOp.Ans UInt32
| .sendDirect _ _ _ _, n => (n, n + 1)
| .sendAck _ _ _, n => ((), n)
| .sendFlood _ _, n => ((), n)
| .randomBytes k, n => (List.replicate k 0, n)
| .store, n => (Store.ofByte 0, n)

/- A guest logs in with a bookmark. -/
def loginOf
    (n : UInt8)
    (timestamp bookmark : UInt32) :
    Room.Event Unit :=
  .anon (key n)
    (writeUint32 timestamp ++ writeUint32 bookmark ++
      ascii "g")

/- A guest sends a message for the board. -/
def messageOf
    (n : UInt8)
    (timestamp : UInt32)
    (text : Bytes) :
    Room.Event Unit :=
  .payload (.bare (key n)) .txtMsg
    (writeUint32 timestamp ++ TextType.plain.value :: text)

/- A guest asks for everything since a time. -/
def keepAliveOf
    (n : UInt8)
    (timestamp bookmark : UInt32) :
    Room.Event Unit :=
  .payload (.bare (key n)) .req
    (writeUint32 timestamp ++
      RequestType.keepAlive.value :: writeUint32 bookmark)

end Sample

end MeshCore
