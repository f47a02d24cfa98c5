import MeshCore.Room.Rights

/-
  Channel traffic becomes a post at most, and does not loop:
  what comes in on a channel causes nothing to be sent, and
  what goes out on one was sent to the room directly.

  Key definitions include:
    * `Room.OnlyPosts`
    * `Room.groupFloods`, `Room.acceptsDirect`
    * `Together`

  Key facts include:
    * `Room.step_floods`
    * `Together.channels_do_not_loop`
-/

namespace MeshCore

namespace Room

variable {η : Type}

------------------------------------------------------------
-- What Comes In
------------------------------------------------------------

/-
  One post more at most, for which the oldest one may have
  to go, in nobody's name. All the rest stays.
-/
structure OnlyPosts (room room' : Room η) : Prop where
  posts :
    room'.posts = room.posts ∨
      ∃ dropped ≤ 1,
        ∃ post : Post,
          room'.posts = room.posts.drop dropped ++ [post] ∧
            ∀ b ∈ post.author.toList, b = 0
  rest :
    { room' with
      posts := room.posts
      nextSeq := room.nextSeq } = room

section Handlers

variable [CryptoCore]

theorem onGroup_onlyPosts
    (room : Room η)
    (type : PayloadType)
    (payload : Bytes) :
    room.OnlyPosts (room.onGroup type payload) := by
  unfold onGroup
  cases room.channelText type payload with
  | none => exact ⟨.inl rfl, rfl⟩
  | some message =>
      simp only
      have hNobody :
          ∀ b ∈ (authorPrefixOf anonymous).toList, b = 0 := by
        decide +kernel
      refine ⟨.inr ?_, rfl⟩
      rw [addPost]
      simp only
      split
      · exact ⟨1, le_rfl, _, rfl, hNobody⟩
      · exact ⟨0, Nat.zero_le 1, _, rfl, hNobody⟩

/- A step on channel traffic only posts, and calls nobody. -/
theorem step_group
    {room room' : Room η}
    {type : PayloadType} {payload : Bytes} {calls : Calls}
    (hStep : Step room (.group type payload, calls) room') :
    calls = [] ∧ room.OnlyPosts room' := by
  rcases Program.exec_done_iff.mp hStep with ⟨hCalls, rfl⟩
  exact ⟨hCalls, onGroup_onlyPosts room type payload⟩

end Handlers

------------------------------------------------------------
-- What Goes Out
------------------------------------------------------------

def isGroupFlood
    (call : Program.Answered SenderOp SenderOp.Ans) :
    Bool :=
  match call.op with
  | .sendFlood .grpTxt _ => true
  | _ => false

/- The floods of channel traffic among some calls. -/
def groupFloods (calls : Calls) : Nat :=
  calls.countP isGroupFlood

/- A direct message that is taken as a post. -/
def acceptsDirect (room : Room η) : Event η → Bool
| .payload contact .txtMsg plain =>
    (room.directText contact.pk plain).isSome
| _ => false

theorem groupFloods_append (calls more : Calls) :
    groupFloods (calls ++ more) =
      groupFloods calls + groupFloods more :=
  List.countP_append

/- An answer is no flood. -/
theorem groupFloods_of_answers
    {calls : Calls}
    (hAnswers : ∀ call ∈ calls, call.op.Answers) :
    groupFloods calls = 0 := by
  unfold groupFloods
  rw [List.countP_eq_zero]
  intro call hCall
  have hAnswer := hAnswers call hCall
  unfold isGroupFlood
  cases hOp : call.op with
  | sendFlood type payload =>
      rw [hOp] at hAnswer
      exact hAnswer.elim
  | _ => simp

/- A command is answered, and the channels stay. -/
theorem handleCommand_answers
    (room : Room η)
    (row : Nat)
    (timestamp : UInt32)
    (line : Bytes) :
    (room.handleCommand row timestamp line).Ensures
      SenderOp.Answers
      fun result =>
        result.2.config.channels = room.config.channels := by
  unfold handleCommand
  refine Program.ensures_ite (fun _ => ?_) fun _ => ?_
  · have hReply :
        (room.reply (room.client row).pk
            (ascii "ERR - admin rights required")).Ensures
          SenderOp.Answers
          fun room' =>
            room'.config.channels = room.config.channels :=
      reply_ensures _ _ rfl
    exact refused_ensures hReply
  refine Program.ensures_ite (fun _ => ?_) fun _ => ?_
  · exact rfl
  · exact (runCommand_keeps _ _ line).mono (fun _ h => h)
      fun _ hKeeps => hKeeps.channels

section Handlers

variable [CryptoCore]

/- Every channel is flooded to once at most. -/
theorem publishTo_floods
    {plain : Bytes} {channels : List Channel}
    {calls : Calls}
    (hExec : (publishTo plain channels).Exec calls ()) :
    groupFloods calls ≤ channels.length := by
  induction channels generalizing calls with
  | nil =>
      rcases Program.exec_done_iff.mp hExec with ⟨rfl, -⟩
      exact Nat.zero_le _
  | cons channel rest ih =>
      rw [publishTo] at hExec
      cases hPayload : channelPayload channel plain with
      | none =>
          rw [hPayload] at hExec
          exact (ih hExec).trans (Nat.le_succ _)
      | some payload =>
          rw [hPayload] at hExec
          rcases Program.exec_call_iff.mp hExec with
            ⟨ans, more, rfl, hMore⟩
          have hRest := ih hMore
          rw [groupFloods, List.countP_cons_of_pos rfl]
          exact Nat.succ_le_succ hRest

theorem publishToChannels_floods
    {room : Room η} {post : Post} {calls : Calls}
    (hExec : (room.publishToChannels post).Exec calls ()) :
    groupFloods calls ≤ room.config.channels.length := by
  unfold publishToChannels at hExec
  split at hExec
  · rcases Program.exec_done_iff.mp hExec with ⟨rfl, -⟩
    exact Nat.zero_le _
  · exact publishTo_floods hExec

/- The floods that an event allows for. -/
def allowance (room : Room η) (e : Event η) : Nat :=
  if room.acceptsDirect e then room.config.channels.length
  else 0

/- A text is published if it is posted, and else answered. -/
theorem handleText_floods
    {room : Room η} {contact : Contact} {plain : Bytes}
    {calls : Calls} {result : Bool × Room η}
    (hExec :
      (room.handleText contact plain).Exec calls result) :
    groupFloods calls ≤
        room.allowance (.payload contact .txtMsg plain) ∧
      result.2.config.channels = room.config.channels := by
  have hNothing :
      ∀ answer : Bool,
        (Program.done (answer, room) :
          SenderM (Bool × Room η)).Exec calls result →
        groupFloods calls ≤
            room.allowance (.payload contact .txtMsg plain) ∧
          result.2.config.channels =
            room.config.channels := by
    intro answer hDone
    rcases Program.exec_done_iff.mp hDone with ⟨rfl, rfl⟩
    exact ⟨Nat.zero_le _, rfl⟩
  unfold handleText at hExec
  cases hText : decodeText plain with
  | none =>
      simp only [hText] at hExec
      exact hNothing false hExec
  | some message =>
      cases hRow : room.findClient contact.pk with
      | none =>
          simp only [hText, hRow] at hExec
          exact hNothing false hExec
      | some row =>
          simp only [hText, hRow] at hExec
          cases hType : textTypeOf message.txtType with
          | none =>
              simp only [hType] at hExec
              exact hNothing false hExec
          | some type =>
              simp only [hType] at hExec
              cases type with
              | plain =>
                  simp only at hExec
                  by_cases hCan :
                      room.can (room.client row) .post = true
                  · rw [if_neg (not_not.mpr hCan)] at hExec
                    rcases Program.exec_bind_iff.mp hExec with
                      ⟨first, _, rest, rfl, hFirst, hRest⟩
                    rcases Program.exec_done_iff.mp hRest with
                      ⟨rfl, rfl⟩
                    have hAccepts :
                        room.acceptsDirect
                            (.payload contact .txtMsg
                              plain) = true := by
                      simp [acceptsDirect, directText, hText,
                        hRow, hType, hCan]
                    rw [List.append_nil, allowance,
                      if_pos hAccepts]
                    exact ⟨publishToChannels_floods hFirst,
                      rfl⟩
                  · rw [if_pos hCan] at hExec
                    exact hNothing false hExec
              | cli =>
                  rcases (handleCommand_answers room row
                      message.timestamp
                      message.message).exec hExec with
                    ⟨hAnswers, hChannels⟩
                  rw [groupFloods_of_answers hAnswers]
                  exact ⟨Nat.zero_le _, hChannels⟩
              | signed => exact hNothing false hExec

omit [CryptoCore] in
/- A tick pushes, and a push goes to one client. -/
theorem tick_floods
    {room room' : Room η} {now : Millis} {calls : Calls}
    (hExec : (room.tick now).Exec calls room') :
    groupFloods calls = 0 := by
  rcases room.tick_cases now with
    ⟨turn, hNobody⟩ | ⟨turn, row, post, -, -, -, -, hPush⟩
  · rw [hNobody] at hExec
    rcases Program.exec_done_iff.mp hExec with ⟨rfl, -⟩
    rfl
  · rw [hPush] at hExec
    rcases Program.exec_call_iff.mp hExec with
      ⟨store, more, rfl, hMore⟩
    cases hPlain : pushPlain store post with
    | none =>
        rw [hPlain] at hMore
        rcases Program.exec_done_iff.mp hMore with ⟨rfl, -⟩
        rfl
    | some payload =>
        rw [hPlain] at hMore
        rcases Program.exec_call_iff.mp hMore with
          ⟨id, rest, rfl, hRest⟩
        rcases Program.exec_done_iff.mp hRest with ⟨rfl, -⟩
        rfl

/- What keeps the settings and only answers is no flood. -/
theorem floods_of_answers
    {room room' : Room η} {e : Event η} {calls : Calls}
    (hStep : Step room (e, calls) room')
    (hAnswers :
      (room.perform e).Ensures SenderOp.Answers
        fun _ => True)
    (hConfig :
      (room.perform e).Ensures (fun _ => True)
        fun room' =>
          room'.config.channels = room.config.channels) :
    groupFloods calls ≤ room.allowance e ∧
      room'.config.channels = room.config.channels := by
  rw [groupFloods_of_answers (hAnswers.exec hStep).1]
  exact ⟨Nat.zero_le _, (hConfig.exec hStep).2⟩

/-
  The step lemma: channels are flooded to only on a direct
  message that is posted, and stay what they are.
-/
theorem step_floods
    {room room' : Room η} {e : Event η} {calls : Calls}
    (hStep : Step room (e, calls) room') :
    groupFloods calls ≤ room.allowance e ∧
      room'.config.channels = room.config.channels := by
  cases e with
  | anon pk plain =>
      apply floods_of_answers hStep
      · exact (room.onAnon_ensures pk plain).mono
          (fun _ h => h) fun _ _ => trivial
      · have hOnly := login_onlyLogins room pk plain
        rw [perform, onAnon]
        generalize room.login pk plain = result at hOnly ⊢
        rcases result with ⟨none | row, room'⟩
        · exact congrArg RoomConfig.channels hOnly.config
        · simp only
          rw [Program.ensures_bind]
          exact (Program.ensures_trivial _).mono
            (fun _ h => h) fun _ _ =>
              congrArg RoomConfig.channels hOnly.config
  | payload contact type plain =>
      cases type with
      | txtMsg =>
          rcases Program.exec_bind_iff.mp hStep with
            ⟨first, result, rest, rfl, hFirst, hRest⟩
          rcases Program.exec_done_iff.mp hRest with
            ⟨rfl, rfl⟩
          rw [List.append_nil]
          exact handleText_floods hFirst
      | req =>
          simp only [Step, perform, onPayload] at hStep
          cases hRow : room.findClient contact.pk with
          | none =>
              simp only [hRow] at hStep
              rcases Program.exec_done_iff.mp hStep with
                ⟨rfl, rfl⟩
              exact ⟨Nat.zero_le _, rfl⟩
          | some row =>
              simp only [hRow] at hStep
              rcases Program.exec_bind_iff.mp hStep with
                ⟨first, result, rest, rfl, hFirst, hRest⟩
              rcases Program.exec_done_iff.mp hRest with
                ⟨rfl, rfl⟩
              have hAnswers :=
                (room.handleRequest_ensures row plain).exec
                  hFirst
              have hRows :=
                (handleRequest_onlyRows room row plain).exec
                  hFirst
              rw [List.append_nil,
                groupFloods_of_answers hAnswers.1]
              exact ⟨Nat.zero_le _,
                congrArg RoomConfig.channels hRows.2.config⟩
      | _ =>
          rcases Program.exec_done_iff.mp hStep with
            ⟨rfl, rfl⟩
          exact ⟨Nat.zero_le _, rfl⟩
  | group type payload =>
      rcases step_group hStep with ⟨rfl, hOnly⟩
      have hConfig :=
        congrArg (fun r : Room η => r.config.channels)
          hOnly.rest
      exact ⟨Nat.zero_le _, hConfig⟩
  | forward p =>
      apply floods_of_answers hStep
      · exact trivial
      · rw [perform, shouldForward]
        split
        · exact rfl
        · split <;> exact rfl
  | ack id =>
      have hRows := onAck_onlyRows room id
      exact floods_of_answers hStep trivial
        (congrArg RoomConfig.channels hRows.config)
  | failed id =>
      have hRows := onDeliveryFailed_onlyRows room id
      exact floods_of_answers hStep trivial
        (congrArg RoomConfig.channels hRows.config)
  | tick now =>
      have hRows := (tick_onlyRows room now).exec hStep
      rw [tick_floods hStep]
      exact ⟨Nat.zero_le _,
        congrArg RoomConfig.channels hRows.2.config⟩
  | _ => exact floods_of_answers hStep trivial rfl

end Handlers

end Room

------------------------------------------------------------
-- Rooms That Share Channels
------------------------------------------------------------

/- Some rooms, each in a state of its own. -/
abbrev Together (ι η : Type) :=
  ι → Room η

namespace Together

variable {ι η : Type} [DecidableEq ι]

/-
  What happens to one of the rooms, and what it then calls.
  Nothing is said of where the event comes from: it may be
  what any of the rooms has flooded, at any time later on,
  any number of times.
-/
structure Happening (ι η : Type) where
  who : ι
  event : Room.Event η
  calls : Room.Calls

abbrev Turn (ι η : Type) :=
  Transition (Together ι η) (Happening ι η)

/- The floods of channel traffic that a room originates. -/
def floodsBy (i : ι) (ts : List (Turn ι η)) : Nat :=
  Room.groupFloods
    (ts.flatMap fun t =>
      if t.event.who = i then t.event.calls else [])

/- The direct messages that a room takes as posts. -/
def directPosts (i : ι) (ts : List (Turn ι η)) : Nat :=
  ts.countP fun t =>
    decide (t.event.who = i) &&
      (t.before i).acceptsDirect t.event.event

theorem floodsBy_snoc
    (i : ι)
    (ts : List (Turn ι η))
    (t : Turn ι η) :
    floodsBy i (ts ++ [t]) =
      floodsBy i ts +
        if t.event.who = i then
          Room.groupFloods t.event.calls
        else 0 := by
  unfold floodsBy
  rw [List.flatMap_append, Room.groupFloods_append,
    List.flatMap_singleton]
  split <;> rfl

theorem directPosts_snoc
    (i : ι)
    (ts : List (Turn ι η))
    (t : Turn ι η) :
    directPosts i (ts ++ [t]) =
      directPosts i ts +
        if t.event.who = i ∧
            (t.before i).acceptsDirect t.event.event then
          1
        else 0 := by
  unfold directPosts
  rw [List.countP_append, List.countP_singleton]
  simp only [Bool.and_eq_true, decide_eq_true_eq]

section Steps

variable [CryptoCore]

def Step
    (rooms : Together ι η)
    (h : Happening ι η)
    (rooms' : Together ι η) :
    Prop :=
  Room.Step (rooms h.who) (h.event, h.calls)
      (rooms' h.who) ∧
    ∀ i, i ≠ h.who → rooms' i = rooms i

theorem step_channels
    {rooms rooms' : Together ι η} {h : Happening ι η}
    (hStep : Step rooms h rooms')
    (i : ι) :
    (rooms' i).config.channels =
      (rooms i).config.channels := by
  by_cases hWho : i = h.who
  · rw [hWho]
    exact (Room.step_floods hStep.1).2
  · rw [hStep.2 i hWho]

/- Every flood of a run is owed to a direct message. -/
theorem run_floods
    {rooms₀ rooms : Together ι η} {ts : List (Turn ι η)}
    (hRun : Run Step rooms₀ ts rooms)
    (i : ι) :
    floodsBy i ts ≤
        directPosts i ts *
          (rooms₀ i).config.channels.length ∧
      (rooms i).config.channels =
        (rooms₀ i).config.channels := by
  induction hRun with
  | start => exact ⟨Nat.zero_le _, rfl⟩
  | @step ts rooms rooms' h hRun hStep ih =>
      rcases ih with ⟨hFloods, hChannels⟩
      refine ⟨?_, (step_channels hStep i).trans hChannels⟩
      rw [floodsBy_snoc, directPosts_snoc]
      by_cases hWho : h.who = i
      · have hOwed := (Room.step_floods hStep.1).1
        rw [hWho, Room.allowance, hChannels] at hOwed
        simp only [hWho, true_and, if_true]
        rw [Nat.add_mul]
        apply Nat.add_le_add hFloods
        refine hOwed.trans ?_
        split <;> simp
      · simp only [hWho, false_and, if_false,
          Nat.add_zero]
        exact hFloods

/-
  Whatever comes in on a channel makes a post at most, and
  nothing is sent. So among any rooms, whoever hears what
  they flood, a room floods its channels no more often than
  it takes direct messages.
-/
theorem channels_do_not_loop
    {rooms₀ rooms : Together ι η} {ts : List (Turn ι η)}
    (hRun : Run Step rooms₀ ts rooms) :
    (∀ (room room' : Room η) (type : PayloadType)
        (payload : Bytes) (calls : Room.Calls),
      Room.Step room (.group type payload, calls) room' →
        calls = [] ∧ room.OnlyPosts room') ∧
      ∀ i,
        floodsBy i ts ≤
          directPosts i ts *
            (rooms₀ i).config.channels.length := by
  constructor
  · intro room room' type payload calls hStep
    exact Room.step_group hStep
  · intro i
    exact (run_floods hRun i).1

/- What the rooms do on given events, one after another. -/
def script
    {σ : Type}
    (h : Program.Handler SenderOp SenderOp.Ans σ)
    (rooms : Together ι η)
    (s : σ) :
    List (ι × Room.Event η) → List (Turn ι η)
| [] => []
| (who, e) :: es =>
    let turn := Room.turn h (rooms who, s) e
    let after := Function.update rooms who turn.after
    ⟨rooms, ⟨who, e, turn.event.2⟩, after⟩ ::
      script h after (Room.under h (rooms who, s) e).2 es

theorem run_script
    {σ : Type}
    (h : Program.Handler SenderOp SenderOp.Ans σ)
    (rooms : Together ι η)
    (s : σ)
    (es : List (ι × Room.Event η)) :
    ∃ rooms', Run Step rooms (script h rooms s es) rooms' := by
  induction es generalizing rooms s with
  | nil => exact ⟨rooms, .start⟩
  | cons a es ih =>
      rcases a with ⟨who, e⟩
      let turn := Room.turn h (rooms who, s) e
      let after := Function.update rooms who turn.after
      rcases ih after (Room.under h (rooms who, s) e).2 with
        ⟨rooms', hRest⟩
      have hFirst :
          Step rooms ⟨who, e, turn.event.2⟩ after := by
        constructor
        · have hTurn := Room.step_turn h (rooms who, s) e
          simp only [after, Function.update_self]
          exact hTurn
        · intro i hi
          exact Function.update_of_ne hi _ _
      exact ⟨rooms', (Run.single hFirst).trans hRest⟩

end Steps

end Together

section Example

open Sample

/- Two rooms on one channel, each with a guest. -/
def channelRooms : Together Bool Unit :=
  fun _ =>
    { Room.create
        { channels := [⟨Vector.replicate _ 7, 7⟩] } () with
      clients := [{ pk := key 1, access := .guest }] }

/- What the first room floods when its guest posts. -/
def channelFlood : Bytes :=
  ((encodeText
      { timestamp := 5
        txtType := TextType.plain.value
        attempt := 0
        message := ascii "hello" }
      maxPacketPayload).bind
    (Room.channelPayload ⟨Vector.replicate _ 7, 7⟩)).getD []

/- The guest posts, and both rooms hear the flood. -/
def channelTalk : List (Together.Turn Bool Unit) :=
  Together.script numbering channelRooms 1
    [(true, messageOf 1 5 (ascii "hello")),
      (false, .group .grpTxt channelFlood),
      (true, .group .grpTxt channelFlood)]

theorem channel_talk_ends :
    (∀ (room room' : Room Unit) (type : PayloadType)
        (payload : Bytes) (calls : Room.Calls),
      Room.Step room (.group type payload, calls) room' →
        calls = [] ∧ room.OnlyPosts room') ∧
      ∀ i,
        Together.floodsBy i channelTalk ≤
          Together.directPosts i channelTalk *
            (channelRooms i).config.channels.length :=
  (Together.run_script numbering channelRooms 1 _).elim
    fun _ hRun => Together.channels_do_not_loop hRun

end Example

end MeshCore
