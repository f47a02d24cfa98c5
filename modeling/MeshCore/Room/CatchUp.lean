import MeshCore.Room.Sizes
import MeshCore.Room.Fairness

/-
  How a room works off what its clients have not read. While
  nothing is posted and no bookmark is moved, an unread post
  is lost to the count in one way only: a push of it is
  acknowledged. And a tick pushes as long as there is
  somebody to push to; so everybody who may read catches up
  in as many acknowledged pushes as there are unread posts.

  Key definitions include:
    * `Room.backlog`, `Room.Steady`, `Room.Quiet`
    * `Room.unreadByReaders`, `Room.Round`

  Key facts include:
    * `Track.unreadIn_acked`
    * `Room.acks_work_off_the_backlog`
    * `Room.everybody_catches_up`
-/

namespace MeshCore

------------------------------------------------------------
-- What A Row Has Not Had
------------------------------------------------------------

namespace Track

/- What a post is to a client is told by the track alone. -/
def isNew (track : Track) (post : Post) : Bool :=
  track.syncSeq < post.seq ∧
    post.author ≠ authorPrefixOf track.pk

def unreadIn (track : Track) (posts : List Post) : Nat :=
  posts.countP track.isNew

/- A bookmark moved to the first new post passes only it. -/
theorem unreadIn_acked
    {track acked : Track} {posts : List Post} {post : Post}
    (hAscending : posts.Pairwise (·.seq < ·.seq))
    (hNext : posts.find? track.isNew = some post)
    (hPk : acked.pk = track.pk)
    (hSeq : acked.syncSeq = post.seq) :
    acked.unreadIn posts + 1 = track.unreadIn posts := by
  rcases List.find?_eq_some_iff_append.mp hNext with
    ⟨hNew, before, after, rfl, hOld⟩
  rw [List.pairwise_append, List.pairwise_cons]
    at hAscending
  rcases hAscending with ⟨-, ⟨hAfter, -⟩, hBefore⟩
  have hHad : before.countP track.isNew = 0 := by
    rw [List.countP_eq_zero]
    intro p hp hIs
    simpa [hIs] using hOld p hp
  have hStill : before.countP acked.isNew = 0 := by
    rw [List.countP_eq_zero]
    intro p hp hIs
    simp only [isNew, decide_eq_true_eq, hSeq] at hIs
    exact UInt32.lt_asymm hIs.1
      (hBefore p hp post List.mem_cons_self)
  have hThis : acked.isNew post = false := by
    simp [isNew, hSeq]
  have hSame :
      after.countP acked.isNew =
        after.countP track.isNew := by
    apply List.countP_congr
    intro p hp
    simp only [isNew, decide_eq_true_eq] at hNew ⊢
    rw [hPk, hSeq]
    have hLater := hAfter p hp
    exact and_congr_left fun _ =>
      ⟨fun _ => UInt32.lt_trans hNew.1 hLater,
        fun _ => hLater⟩
  simp only [unreadIn, List.countP_append,
    List.countP_cons, hHad, hStill, hThis, hNew, hSame]
  simp

end Track

namespace Room

variable {η : Type}

section Changes

variable {room room' : Room η}

variable {row : Nat} {track : Track} {g : Track → Track}

end Changes

section Runs

variable [CryptoCore]

/- Nothing is posted or cleared, and no bookmark is moved. -/
def Quiet (t : Turn η) : Prop :=
  t.after.posts = t.before.posts ∧
    ∀ pk, t.before.bookmarkOf pk t.event.1 = none

/- Whether a push is acknowledged that somebody waits for. -/
def settles (t : Turn η) : Bool :=
  match t.event.1 with
  | .ack id =>
      (t.before.tracks.findIdx? (Track.awaits id)).isSome
  | _ => false

variable {room room' : Room η}

/- What the rows have not had that may read. -/
def unreadByReaders (room : Room η) : Nat :=
  (room.clients.map fun client =>
    if room.can client .read then room.unreadFor client
    else 0).sum

/- Nobody is pushed to, and nobody is left in peace. -/
def Resting (since : Millis) (room : Room η) : Prop :=
  ∀ client ∈ room.clients,
    client.pending = false ∧ client.retryAfter ≤ since

/- A tick, and the acknowledgement of what it pushed. -/
def Round
    (room : Room η)
    (now : Millis)
    (room' : Room η) :
    Prop :=
  ∃ calls between,
    Step room (.tick now, calls) between ∧
      match pushId calls with
      | none => room' = between
      | some id => Step between (.ack id, []) room'

/- What a row is when its push was acknowledged. -/
def readTo
    (id : SendId)
    (seq : UInt32)
    (client : Client) :
    Client :=
  { client with
    pendingId := id
    pending := false
    pendingSeq := seq
    syncSeq := seq
    retryAfter := 0 }

omit [CryptoCore] in
/- Nobody else waits, so the push is found by its id. -/
theorem onAck_pushed
    {since : Millis} {row : Nat} {id : SendId}
    {seq : UInt32}
    (hResting : Resting since room)
    (hRow : row < room.clients.length) :
    ((room.modifyClient row fun client =>
          { client with
            pendingId := id
            pending := true
            pendingSeq := seq }).onAck id).clients =
      room.clients.modify row (readTo id seq) := by
  have hFound :
      (room.clients.modify row fun client =>
          { client with
            pendingId := id
            pending := true
            pendingSeq := seq }).findIdx? (Awaits id ·) =
        some row := by
    rw [List.findIdx?_eq_some_iff_getElem]
    refine ⟨by rwa [List.length_modify], ?_, ?_⟩
    · simp [Awaits]
    · intro j hj
      simp [Awaits, Nat.ne_of_gt hj,
        (hResting _ (List.getElem_mem _)).1]
  unfold onAck settle modifyClient
  simp only [hFound]
  exact List.modify_modify_eq _ _ _ _

omit [CryptoCore] in
theorem posts_onAck (room : Room η) (id : SendId) :
    (room.onAck id).posts = room.posts := by
  unfold onAck settle
  split <;> rfl

omit [CryptoCore] in
/- A tick that asks for nothing has nobody to push to. -/
theorem nobody_of_done
    {now : Millis}
    (hDone : room.tick now = .done room') :
    ∀ row < room.clients.length,
      { room with now := now }.pushable row = false := by
  apply
    (nextClientToPush_eq_none_iff
      { room with now := now }).mp
  rcases nextClientToPush_cases { room with now := now } with
    hNobody | ⟨turn, row, hRow, hPushable, hSomebody⟩
  · rw [hNobody]
  · simp only [pushable, decide_eq_true_eq] at hPushable
    rcases Option.isSome_iff_exists.mp hPushable.2.2.2 with
      ⟨post, hPost⟩
    have hPost :
        nextPostFor
          { room with now := now, nextClientIdx := turn }
          (client
            { room with now := now, nextClientIdx := turn }
            row) = some post :=
      hPost
    unfold tick at hDone
    simp only [hSomebody] at hDone
    unfold pushNextPost at hDone
    simp only [hPost] at hDone
    cases hDone

omit [CryptoCore] in
/- Who may be pushed to and is not has read all. -/
theorem unreadByReaders_eq_zero
    {since now : Millis}
    (hResting : Resting since room)
    (hTime : since ≤ now)
    (hNobody :
      ∀ row < room.clients.length,
        { room with now := now }.pushable row = false) :
    room.unreadByReaders = 0 := by
  apply List.sum_eq_zero_iff_forall_eq_nat.mpr
  intro unread hUnread
  rcases List.mem_map.mp hUnread with
    ⟨client, hClient, rfl⟩
  split
  next hRead =>
    rcases List.mem_iff_getElem.mp hClient with
      ⟨row, hRow, rfl⟩
    rcases hResting _ hClient with ⟨hIdle, hPause⟩
    have hThis := hNobody row hRow
    have hAt :
        { room with now := now }.client row =
          room.clients[row] :=
      List.getD_eq_getElem _ _ hRow
    simp only [pushable, hAt, hIdle, decide_eq_false_iff_not]
      at hThis
    rw [unreadFor, List.countP_eq_zero]
    intro post hPost hNew
    apply hThis
    refine ⟨by simp, UInt64.le_trans hPause hTime, hRead, ?_⟩
    rw [nextPostFor, List.find?_isSome]
    exact ⟨post, hPost, hNew⟩
  next => rfl

omit [CryptoCore] in
/- A post that was pushed to a row and read there. -/
theorem unreadByReaders_readTo
    {row : Nat} {id : SendId} {post : Post}
    (hAscending : room.posts.Pairwise (·.seq < ·.seq))
    (hRow : row < room.clients.length)
    (hRead : room.can (room.client row) .read = true)
    (hPost :
      room.nextPostFor (room.client row) = some post)
    (hClients :
      room'.clients =
        room.clients.modify row (readTo id post.seq))
    (hPosts : room'.posts = room.posts) :
    room'.unreadByReaders + 1 = room.unreadByReaders := by
  have hSame :
      (fun client =>
          if room'.can client .read then
            room'.unreadFor client
          else 0) =
        fun client =>
          if room.can client .read then
            room.unreadFor client
          else 0 := by
    funext client
    rw [unreadFor, unreadFor, hPosts, can, can]
  have hAt :
      room.clients[row]? = some (room.client row) := by
    rw [List.getElem?_eq_getElem hRow, client,
      List.getD_eq_getElem _ _ hRow]
  have hSum :=
    Table.sum_map_modify
      (f := readTo id post.seq)
      (fun client =>
        if room.can client .read then
          room.unreadFor client
        else 0)
      hAt
  have hStill :
      room.can (readTo id post.seq (room.client row)) .read =
        true :=
    hRead
  have hLess :
      (readTo id post.seq (room.client row)).track.unreadIn
            room.posts +
          1 =
        (room.client row).track.unreadIn room.posts :=
    Track.unreadIn_acked hAscending hPost rfl rfl
  change
    room.unreadFor (readTo id post.seq (room.client row)) +
        1 =
      room.unreadFor (room.client row) at hLess
  rw [if_pos hRead, if_pos hStill] at hSum
  rw [unreadByReaders, unreadByReaders, hClients, hSame]
  omega

/- A round is one unread post less, while there is any. -/
theorem round_reads
    {since now : Millis}
    (hAscending : room.posts.Pairwise (·.seq < ·.seq))
    (hResting : Resting since room)
    (hTime : since ≤ now)
    (hRound : Round room now room') :
    Resting since room' ∧ room'.posts = room.posts ∧
      room'.unreadByReaders = room.unreadByReaders - 1 := by
  rcases hRound with ⟨calls, between, hTick, hThen⟩
  rcases room.tick_cases now with
    ⟨turn, hNobody⟩ |
    ⟨turn, row, post, hRow, hIdle, hRead, hPost, hPush⟩
  · have hNone :=
      unreadByReaders_eq_zero hResting hTime
        (nobody_of_done hNobody)
    simp only [Step, perform, hNobody,
      Program.exec_done_iff] at hTick
    rcases hTick with ⟨rfl, rfl⟩
    have hThen : room' = _ := hThen
    rw [hThen]
    refine ⟨hResting, rfl, ?_⟩
    rw [hNone]
    exact hNone
  · simp only [Step, perform, hPush] at hTick
    rcases Program.exec_call_iff.mp hTick with
      ⟨store, rest, rfl, hAsked⟩
    rcases exists_pushPlain store post with
      ⟨plain, hPlain, -⟩
    simp only [hPlain] at hAsked
    rcases Program.exec_call_iff.mp hAsked with
      ⟨id, rest, rfl, hSent⟩
    rcases Program.exec_done_iff.mp hSent with ⟨rfl, rfl⟩
    have hAcked :
        Step _ ((.ack id, []) : Event η × Calls) room' :=
      hThen
    rcases Program.exec_done_iff.mp hAcked with ⟨-, hRoom⟩
    have hClients :
        room'.clients =
          room.clients.modify row (readTo id post.seq) := by
      rw [hRoom]
      exact
        @onAck_pushed η
          { room with now := now, nextClientIdx := turn }
          _ _ _ _ hResting hRow
    have hPosts : room'.posts = room.posts := by
      rw [hRoom]
      exact posts_onAck _ _
    have hLess :=
      unreadByReaders_readTo hAscending hRow hRead hPost
        hClients hPosts
    refine ⟨?_, hPosts, ?_⟩
    · intro client hClient
      rw [hClients] at hClient
      rcases Table.mem_modify hClient with
        hOld | ⟨old, -, rfl⟩
      · exact hResting client hOld
      · exact ⟨rfl, UInt64.zero_le⟩
    · omega

/-
  A room that stops hearing anything new, and whose pushes
  are all acknowledged, pushes one unread post a round until
  there is none: everybody who may read has read all.
-/
theorem everybody_catches_up
    {n : Nat} {since : Millis}
    {ts : List (Transition (Room η) Millis)}
    (hSound : Sound n room)
    (hResting : Resting since room)
    (hRun : Run Round room ts room')
    (hTimes : ∀ t ∈ ts, since ≤ t.event) :
    room'.unreadByReaders =
        room.unreadByReaders - ts.length ∧
      (room.unreadByReaders ≤ ts.length →
        ∀ client ∈ room'.clients,
          room'.can client .read = true →
            room'.unreadFor client = 0) := by
  have hRounds :
      Resting since room' ∧ room'.posts = room.posts ∧
        room'.unreadByReaders =
          room.unreadByReaders - ts.length := by
    induction hRun with
    | start => exact ⟨hResting, rfl, rfl⟩
    | @step ts m m' now hBefore hRound ih =>
        rcases ih fun t ht =>
            hTimes t (List.mem_append_left _ ht) with
          ⟨hThere, hSame, hLeft⟩
        have hTime :=
          hTimes ⟨m, now, m'⟩ (List.mem_append_right _
            (List.mem_singleton.mpr rfl))
        have hAscending : m.posts.Pairwise (·.seq < ·.seq) := by
          rw [hSame]
          exact hSound.ascending
        rcases round_reads hAscending hThere hTime hRound with
          ⟨hThen, hStill, hLess⟩
        refine ⟨hThen, hStill.trans hSame, ?_⟩
        rw [hLess, hLeft, List.length_append,
          List.length_singleton, Nat.sub_sub]
  refine ⟨hRounds.2.2, ?_⟩
  intro hEnough client hClient hRead
  have hNone : room'.unreadByReaders = 0 := by
    rw [hRounds.2.2]
    omega
  have hThis :=
    List.sum_eq_zero_iff_forall_eq_nat.mp hNone _
      (List.mem_map_of_mem hClient)
  rw [if_pos hRead] at hThis
  exact hThis

end Runs

section Example

open Sample

/- Two guests, the second of whom wrote the second post. -/
def twoBehind : Room Unit :=
  { quietRoom with
    clients :=
      [{ pk := key 1, access := .guest },
        { pk := key 2, access := .guest }]
    posts :=
      [{ seq := 1
         timestamp := 9
         author := authorPrefixOf anonymous
         text := ascii "x" },
        { seq := 2
          timestamp := 9
          author := authorPrefixOf (key 2)
          text := ascii "y" }]
    nextSeq := 3 }

theorem sound_twoBehind : Sound 2 twoBehind where
  nextSeq := rfl
  numbered := by decide
  ascending := by decide
  keys := by
    rw [Table.Keyed]
    decide
  behind := by decide
  inFlight := by decide

/- Both are pushed to, and only the second one answers. -/
def oneAnswer : List (Event Unit) :=
  [.tick 1, .tick 2, .ack 2, .failed 1, .ack 7]

def answered : List (Turn Unit) :=
  script numbering (twoBehind, 1) oneAnswer

theorem resting_twoBehind : Resting 0 twoBehind := by
  unfold Resting
  decide

/- A round, where routing numbers the sends. -/
def round
    (s : Room Unit × UInt32)
    (now : Millis) :
    Room Unit × UInt32 :=
  ((under numbering s (.tick now)).1.onAck s.2,
    (under numbering s (.tick now)).2)

def afterRounds (n : Nat) : Room Unit × UInt32 :=
  (List.replicate n 0).foldl round (twoBehind, 1)

theorem round_of_push
    {s : Room Unit × UInt32} {now : Millis}
    (hPush :
      pushId (turn numbering s (.tick now)).event.2 =
        some s.2) :
    Round s.1 now (round s now).1 := by
  refine ⟨_, _, step_turn numbering s (.tick now), ?_⟩
  have hPush :
      pushId
          (Program.trace numbering (s.1.perform (.tick now))
            s.2) =
        some s.2 :=
    hPush
  rw [hPush]
  exact .done _

def threeRounds : List (Transition (Room Unit) Millis) :=
  [⟨twoBehind, 0, (afterRounds 1).1⟩,
    ⟨(afterRounds 1).1, 0, (afterRounds 2).1⟩,
    ⟨(afterRounds 2).1, 0, (afterRounds 3).1⟩]

theorem threeRounds_run :
    Run Round twoBehind threeRounds (afterRounds 3).1 :=
  .step
    (.step (.step .start (round_of_push (by decide)))
      (round_of_push (s := afterRounds 1) (by decide)))
    (round_of_push (s := afterRounds 2) (by decide))

/- The first has two posts to read, and the second one. -/
theorem two_guests_catch_up :
    twoBehind.unreadByReaders = 3 ∧
      (afterRounds 3).1.unreadByReaders =
          twoBehind.unreadByReaders - threeRounds.length ∧
        (twoBehind.unreadByReaders ≤ threeRounds.length →
          ∀ client ∈ (afterRounds 3).1.clients,
            (afterRounds 3).1.can client .read = true →
              (afterRounds 3).1.unreadFor client = 0) :=
  ⟨by decide,
    everybody_catches_up sound_twoBehind resting_twoBehind
      threeRounds_run (by decide)⟩

end Example

end Room

end MeshCore
