import MeshCore.Room.Sound

/-
  Delivery to one client: what it acknowledges comes in the
  order of the board, and its bookmark passes over nothing
  that it could still have been sent.

  Key definitions include:
    * `Room.pushedTo`, `Room.ackedFrom`
    * `Room.InFlight`

  Key facts include:
    * `Room.delivery_in_order`
-/

namespace MeshCore

namespace Room

variable {η : Type}

------------------------------------------------------------
-- Pushes And Their Acknowledgements
------------------------------------------------------------

def syncSeqOf
    (room : Room η)
    (pk : PublicKey) :
    Option UInt32 :=
  (room.trackOf pk).map (·.syncSeq)

/- The number of the post that a step pushes to a client. -/
def pushedTo
    (pk : PublicKey)
    (t : Turn η) :
    Option UInt32 :=
  match t.before.trackOf pk, t.after.trackOf pk with
  | some track, some track' =>
      if track.pending = false ∧ track'.pending = true then
        some track'.pendingSeq
      else none
  | _, _ => none

/- The number of the post whose delivery is acknowledged. -/
def ackedFrom
    (pk : PublicKey)
    (t : Turn η) :
    Option UInt32 :=
  match t.event.1 with
  | .ack id =>
      if t.before.waiterFor id = some pk then
        (t.before.trackOf pk).map (·.pendingSeq)
      else none
  | _ => none

theorem ackedFrom_of_other
    {pk : PublicKey}
    {t : Turn η}
    (hOther :
      ∀ id, t.event.1.fateOf = some id →
        t.before.waiterFor id ≠ some pk) :
    ackedFrom pk t = none := by
  unfold ackedFrom
  split
  next id hAck =>
    exact if_neg (hOther id (by rw [hAck]; rfl))
  next => rfl

/-
  The push that a waiting row waits for, and what was on the
  board when it was sent: the post, and nothing that the row
  still missed with a lower number.
-/
def InFlight
    (pk : PublicKey)
    (ts : List (Turn η))
    (track : Track) :
    Prop :=
  ∃ past u since,
    ts = past ++ u :: since ∧
      pushedTo pk u = some track.pendingSeq ∧
      track.syncSeq < track.pendingSeq ∧
      (∃ post ∈ u.before.posts,
        post.seq = track.pendingSeq) ∧
      ∀ post ∈ u.before.posts,
        track.misses post = true →
          track.pendingSeq ≤ post.seq

theorem InFlight.append
    {pk : PublicKey}
    {ts : List (Turn η)}
    {track : Track}
    (hFlight : InFlight pk ts track)
    (us : List (Turn η)) :
    InFlight pk (ts ++ us) track := by
  rcases hFlight with
    ⟨past, u, since, rfl, hPushed⟩
  exact ⟨past, u, since ++ us, by simp, hPushed⟩

/- What comes first on an ascending board is the lowest. -/
theorem le_of_find_misses
    {posts : List Post}
    (hAscending : posts.Pairwise (·.seq < ·.seq))
    {track : Track} {post other : Post}
    (hFirst : posts.find? track.misses = some post)
    (hOther : other ∈ posts)
    (hMisses : track.misses other = true) :
    post.seq ≤ other.seq := by
  induction posts with
  | nil => simp at hOther
  | cons head posts ih =>
      rcases List.pairwise_cons.mp hAscending with
        ⟨hHead, hTail⟩
      rw [List.find?_cons] at hFirst
      split at hFirst
      next hHeadMisses =>
        cases hFirst
        rcases List.mem_cons.mp hOther with rfl | hIn
        · exact UInt32.le_refl _
        · exact UInt32.le_of_lt (hHead other hIn)
      next hHeadMisses =>
        rcases List.mem_cons.mp hOther with rfl | hIn
        · rw [hMisses] at hHeadMisses
          cases hHeadMisses
        · exact ih hTail hFirst hIn

------------------------------------------------------------
-- What A Run Keeps
------------------------------------------------------------

/-
  What a run tells of a row: the acknowledged posts came in
  order, the bookmark has come at least as far, and what the
  row waits for is in flight.
-/
def Reached
    (pk : PublicKey)
    (ts : List (Turn η)) :
    Option Track → Prop
| none => ts.filterMap (ackedFrom pk) = []
| some track =>
    (ts.filterMap (ackedFrom pk)).Pairwise (· < ·) ∧
      (∀ seq ∈ ts.filterMap (ackedFrom pk),
        seq ≤ track.syncSeq) ∧
      (track.pending = true → InFlight pk ts track)

theorem filterMap_acked
    (pk : PublicKey)
    (ts : List (Turn η))
    (t : Turn η) :
    (ts ++ [t]).filterMap (ackedFrom pk) =
      ts.filterMap (ackedFrom pk) ++
        (ackedFrom pk t).toList := by
  rw [List.filterMap_append]
  cases hAcked : ackedFrom pk t <;> simp [hAcked]

section Steps

variable [CryptoCore]

/- While a client has no row it acknowledges nothing. -/
theorem Reached.step_absent
    {n : Nat}
    {pk : PublicKey}
    {ts : List (Turn η)}
    {t : Turn η}
    (hReached : Reached pk ts (t.before.trackOf pk))
    (hSound : Sound n t.before)
    (hStep : Step t.before t.event t.after)
    (hAbsent : t.before.trackOf pk = none) :
    Reached pk (ts ++ [t]) (t.after.trackOf pk) := by
  rw [hAbsent] at hReached
  have hNone : ackedFrom pk t = none :=
    ackedFrom_of_other fun id _ => waiterFor_absent hAbsent id
  have hNothing :
      (ts ++ [t]).filterMap (ackedFrom pk) = [] := by
    rw [filterMap_acked, hReached, hNone]
    rfl
  cases hTrack : t.after.trackOf pk with
  | none => exact hNothing
  | some track =>
      rcases (step_changes hStep).2.appears hSound.keys
          hAbsent hTrack with
        ⟨b, _, rfl⟩
      refine ⟨?_, ?_, nofun⟩
      · rw [hNothing]
        exact .nil
      · rw [hNothing]
        exact nofun

/- A row that is neither marked nor removed goes on. -/
theorem Reached.step_present
    {n : Nat}
    {pk : PublicKey}
    {ts : List (Turn η)}
    {t : Turn η}
    {track track' : Track}
    (hReached : Reached pk ts (some track))
    (hSound : Sound n t.before)
    (hStep : Step t.before t.event t.after)
    (hTrack : t.before.trackOf pk = some track)
    (hTrack' : t.after.trackOf pk = some track')
    (hUnmarked : t.before.bookmarkOf pk t.event.1 = none) :
    Reached pk (ts ++ [t]) (some track') := by
  rcases hReached with ⟨hOrdered, hBehind, hFlight⟩
  have hPk : track.pk = pk := (Table.lookup_mem hTrack).2
  have hChange :=
    (step_changes hStep).2.rowChange hSound.keys
      hTrack hTrack' hUnmarked
  have hUnacked :
      ackedFrom pk t = none →
        (ts ++ [t]).filterMap (ackedFrom pk) =
          ts.filterMap (ackedFrom pk) := by
    intro hNone
    rw [filterMap_acked, hNone]
    exact List.append_nil _
  generalize hEvent : t.event.1 = e at hChange
  generalize pushId t.event.2 = push at hChange
  cases hChange with
  | same hSame hOther =>
      subst hSame
      have hNone : ackedFrom pk t = none := by
        refine ackedFrom_of_other fun id hFate => ?_
        rw [← hPk]
        exact hOther id (hEvent ▸ hFate)
      rw [Reached, hUnacked hNone]
      exact ⟨hOrdered, hBehind, fun hPending =>
        (hFlight hPending).append [t]⟩
  | @pushed now post id hIdle hPost hPushed =>
      subst hPushed
      have hNone : ackedFrom pk t = none := by
        refine ackedFrom_of_other fun id hFate => ?_
        rw [hEvent] at hFate
        cases hFate
      have hMisses := List.find?_some hPost
      simp only [Track.misses, decide_eq_true_eq] at hMisses
      rw [Reached, hUnacked hNone]
      refine ⟨hOrdered, hBehind, fun _ =>
        ⟨ts, t, [], rfl, ?_, hMisses.1,
          ⟨post, List.mem_of_find?_eq_some hPost, rfl⟩, ?_⟩⟩
      · simp [pushedTo, hTrack, hTrack', Track.pushed, hIdle]
      · intro other hOther hMissed
        exact le_of_find_misses hSound.ascending hPost
          hOther hMissed
  | @acked id hWaits hPending hAcked =>
      subst hAcked
      rcases hFlight hPending with
        ⟨_, _, _, _, _, hAhead, _⟩
      have hSome : ackedFrom pk t = some track.pendingSeq := by
        rw [ackedFrom, hEvent]
        simp [hPk ▸ hWaits, hTrack]
      have hBefore :
          ∀ seq ∈ ts.filterMap (ackedFrom pk),
            seq < track.pendingSeq := fun seq hSeq =>
        UInt32.lt_of_le_of_lt (hBehind seq hSeq) hAhead
      rw [Reached, filterMap_acked, hSome]
      refine ⟨?_, ?_, nofun⟩
      · refine List.pairwise_append.mpr
          ⟨hOrdered, List.pairwise_singleton _ _, ?_⟩
        intro seq hSeq last hLast
        rw [List.mem_singleton.mp hLast]
        exact hBefore seq hSeq
      · intro seq hSeq
        rcases List.mem_append.mp hSeq with hOld | hLast
        · exact UInt32.le_of_lt (hBefore seq hOld)
        · rw [List.mem_singleton.mp hLast]
          exact UInt32.le_refl _
  | @failed id hWaits hPending hFailed =>
      subst hFailed
      have hNone : ackedFrom pk t = none := by
        rw [ackedFrom, hEvent]
      rw [Reached, hUnacked hNone]
      exact ⟨hOrdered, hBehind, nofun⟩

/-
  A client that, once it has a row, sets no bookmark and
  keeps its row.
-/
def StaysPut (pk : PublicKey) (t : Turn η) : Prop :=
  t.before.findClient pk ≠ none →
    t.before.bookmarkOf pk t.event.1 = none ∧
      t.after.findClient pk ≠ none

instance (pk : PublicKey) (t : Turn η) :
    Decidable (StaysPut pk t) :=
  inferInstanceAs (Decidable (_ → _))

theorem reached_of_run
    {pk : PublicKey}
    {config : RoomConfig η} {host : η}
    {ts : List (Turn η)} {room : Room η}
    (hRun : Run Step (create config host) ts room)
    (hRoom : postedIn ts < 2 ^ 32)
    (hPut : ∀ t ∈ ts, StaysPut pk t) :
    Reached pk ts (room.trackOf pk) := by
  induction hRun with
  | start => rfl
  | @step ts s s' e hRun hStep ih =>
      rw [postedIn_append] at hRoom
      have hReached := ih (by omega) fun t ht =>
        hPut t (by simp [ht])
      have hSound :=
        (sound_create config host).run hRun (by omega)
      cases hTrack : s.trackOf pk with
      | none =>
          exact Reached.step_absent (t := ⟨s, e, s'⟩)
            hReached hSound hStep hTrack
      | some track =>
          have hHere := hPut ⟨s, e, s'⟩ (by simp)
          rw [StaysPut, Ne, Ne, findClient_eq_none_iff,
            findClient_eq_none_iff, hTrack] at hHere
          rcases hHere nofun with ⟨hUnmarked, hThere⟩
          rcases Option.ne_none_iff_exists'.mp hThere with
            ⟨track', hTrack'⟩
          rw [hTrack] at hReached
          have hNext :=
            Reached.step_present (t := ⟨s, e, s'⟩) hReached
              hSound hStep hTrack hTrack' hUnmarked
          rwa [← hTrack'] at hNext

omit [CryptoCore] in
/- A bookmark that a step moves was moved by an ack. -/
theorem RowChange.syncSeq_moved
    {room : Room η}
    {track track' : Track}
    {e : Event η} {push : Option SendId}
    (hChange : RowChange room track track' e push)
    (hMoved : track.syncSeq ≠ track'.syncSeq) :
    track.pending = true ∧ track' = track.acked := by
  cases hChange with
  | same hSame _ => exact absurd (hSame ▸ rfl) hMoved
  | pushed _ _ hPushed => exact absurd (hPushed ▸ rfl) hMoved
  | acked _ hPending hAcked => exact ⟨hPending, hAcked⟩
  | failed _ _ hFailed => exact absurd (hFailed ▸ rfl) hMoved

/-
  The posts that a client acknowledges come in the order of
  their numbers, and when its bookmark moves, all that it is
  moved over and the client did not write had been made, and
  had left the board, when the push was sent.
-/
def InOrder (pk : PublicKey) (ts : List (Turn η)) : Prop :=
  (ts.filterMap (ackedFrom pk)).Pairwise (· < ·) ∧
    ∀ done t rest s s',
      ts = done ++ t :: rest →
        t.before.syncSeqOf pk = some s →
        t.after.syncSeqOf pk = some s' →
        s ≠ s' →
        ∃ past u since,
          done = past ++ u :: since ∧
            pushedTo pk u = some s' ∧
            ∀ post ∈ madeIn ts,
              post.author ≠ authorPrefixOf pk →
                s < post.seq →
                post.seq < s' →
                post ∈ madeIn past ∧
                  post ∉ u.before.posts

/-
  In a run that makes fewer than two to the thirty-two
  posts, a client that stays put is served in order.
-/
theorem delivery_in_order
    {config : RoomConfig η} {host : η}
    {pk : PublicKey}
    {ts : List (Turn η)} {room : Room η}
    (hRun : Run Step (create config host) ts room)
    (hRoom : postedIn ts < 2 ^ 32)
    (hPut : ∀ t ∈ ts, StaysPut pk t) :
    InOrder pk ts := by
  refine ⟨?_, ?_⟩
  · have hReached := reached_of_run hRun hRoom hPut
    cases hTrack : room.trackOf pk with
    | none =>
        rw [hTrack] at hReached
        rw [Reached] at hReached
        rw [hReached]
        exact .nil
    | some track =>
        rw [hTrack] at hReached
        exact hReached.1
  · rintro done t rest s s' rfl hSync hSync' hMoved
    rcases hRun.split_cons with ⟨hBefore, hStep, _⟩
    have hDone : postedIn done < 2 ^ 32 := by
      rw [postedIn_append] at hRoom
      omega
    have hReached :=
      reached_of_run hBefore hDone fun t ht =>
        hPut t (by simp [ht])
    have hSound :=
      (sound_create config host).run hBefore (by omega)
    rcases Option.map_eq_some_iff.mp hSync with
      ⟨track, hTrack, rfl⟩
    rcases Option.map_eq_some_iff.mp hSync' with
      ⟨track', hTrack', rfl⟩
    have hHere := hPut t (by simp)
    rw [StaysPut, Ne, findClient_eq_none_iff, hTrack] at hHere
    have hChange :=
      (step_changes hStep).2.rowChange hSound.keys hTrack
        hTrack' (hHere nofun).1
    rcases hChange.syncSeq_moved hMoved with
      ⟨hPending, rfl⟩
    rw [hTrack] at hReached
    rcases hReached.2.2 hPending with
      ⟨past, u, since, rfl, hPushed, _, hOnBoard, hLeast⟩
    refine ⟨past, u, since, rfl, hPushed, ?_⟩
    intro post hMade hAuthor hAbove hBelow
    have hPk : track.pk = pk := (Table.lookup_mem hTrack).2
    have hMisses : track.misses post = true := by
      simp only [Track.misses, decide_eq_true_eq]
      exact ⟨hAbove, hPk ▸ hAuthor⟩
    refine ⟨?_, ?_⟩
    · -- Whatever was made later has a higher number.
      rw [List.append_assoc, List.cons_append] at hRun hMade
      rw [List.append_assoc, List.cons_append,
        postedIn_append] at hRoom
      rw [madeIn_append] at hMade
      rcases hRun.split_cons with ⟨hPast, hAtPush, hSince⟩
      have hSoundPast :=
        (sound_create config host).run hPast (by omega)
      rw [Nat.zero_add] at hSoundPast
      rcases hOnBoard with ⟨pushed, hPushed, hSeq⟩
      have hBound := hSoundPast.numbered pushed hPushed
      refine (List.mem_append.mp hMade).resolve_right
        fun hLater => ?_
      have hAfter :=
        hSoundPast.made_above
          ((Run.single hAtPush).trans hSince) hRoom hLater
      rw [hSeq] at hBound
      have hOrder := UInt32.lt_iff_toNat_lt.mp hBelow
      simp only [Track.acked] at hOrder
      omega
    · intro hThere
      exact absurd hBelow
        (UInt32.not_lt.mpr (hLeast post hThere hMisses))

end Steps

------------------------------------------------------------
-- A Guest Who Waits Too Long
------------------------------------------------------------

section Example

open Sample

/- Two guests log in, and wait. -/
def arrivals : List (Event Unit) :=
  [loginOf 1 5 0, loginOf 2 6 0]

/- Two posts are pushed to a guest and acknowledged. -/
def serving : List (Event Unit) :=
  arrivals ++
    [messageOf 2 9 (ascii "x"), messageOf 2 9 (ascii "y"),
      .tick 0, .ack 2, .ack 7, .tick 1, .ack 3]

theorem serving_in_order :
    InOrder (key 1)
      (script numbering (quietRoom, 0) serving) :=
  delivery_in_order
    (run_script numbering (quietRoom, 0) serving)
    (by decide +kernel) (by decide +kernel)

def joined : Room Unit :=
  (arrivals.foldl (under numbering) (quietRoom, 0)).1

/- The post that the second guest's message becomes. -/
def nth (n : Nat) : Post :=
  { seq := UInt32.ofNat n
    timestamp := 9
    author := authorPrefixOf (key 2)
    text := ascii "x" }

/- The room when the message has come so many times. -/
def afterMessages (n : Nat) : Room Unit :=
  { joined with
    posts :=
      (List.range' (n + 1 - min n maxPosts)
        (min n maxPosts)).map nth
    nextSeq := UInt32.ofNat (n + 1) }

theorem under_message (n : Nat) (id : UInt32) :
    under numbering (afterMessages n, id)
        (messageOf 2 9 (ascii "x")) =
      (afterMessages (n + 1), id) := by
  have hText :
      (afterMessages n).directText (key 2)
          (writeUint32 9 ++
            TextType.plain.value :: ascii "x") =
        some
          { timestamp := 9
            txtType := 0
            attempt := 0
            message := ascii "x" } := by
    change joined.directText _ _ = _
    decide +kernel
  have hPosted :
      ((afterMessages n).addPost (key 2) 9
        (ascii "x")).2 = afterMessages (n + 1) := by
    have hClock :
        (afterMessages n).sanitiseTimestamp 9 = 9 := by
      change joined.sanitiseTimestamp 9 = 9
      decide +kernel
    have hNth :
        (afterMessages n).makePost (key 2) 9 (ascii "x") =
          nth (n + 1) := by
      rw [makePost, hClock]
      rfl
    have hBoard :
        (if maxPosts ≤ (afterMessages n).posts.length then
          (afterMessages n).posts.drop 1
        else (afterMessages n).posts) ++ [nth (n + 1)] =
          (afterMessages (n + 1)).posts := by
      simp only [afterMessages, List.length_map,
        List.length_range', maxPosts]
      by_cases hFull : n < 32
      · rw [if_neg (by omega), Nat.min_eq_left (by omega),
          Nat.min_eq_left (by omega), List.range'_1_concat]
        simp [show n + 1 - n = 1 by omega, Nat.add_comm]
      · rcases Nat.exists_eq_add_of_le
            (show 31 ≤ n by omega) with ⟨m, rfl⟩
        rw [if_pos (by omega), Nat.min_eq_right (by omega),
          Nat.min_eq_right (by omega),
          show 31 + m + 1 - 32 = m by omega,
          show 31 + m + 1 + 1 - 32 = m + 1 by omega,
          List.range'_1_concat (s := m + 1) (n := 31)]
        simp only [List.range'_succ, List.map_cons,
          List.map_append, List.drop_one, List.tail_cons,
          List.map_nil]
        rw [show m + 1 + 31 = 31 + m + 1 by omega]
    have hSeq :
        (afterMessages n).nextSeq + 1 =
          (afterMessages (n + 1)).nextSeq :=
      (UInt32.ofNat_add (n + 1) 1).symm
    simp only [addPost, hNth, hBoard, hSeq]
    rfl
  have hDone :=
    onPayload_text (.bare (key 2)) hText rfl
  simp only [under, messageOf, perform, hDone,
    Program.run_done]
  exact congrArg (·, id) hPosted

theorem foldl_messages (n k : Nat) (id : UInt32) :
    (List.replicate n
          (messageOf 2 9 (ascii "x"))).foldl
        (under numbering) (afterMessages k, id) =
      (afterMessages (k + n), id) := by
  induction n generalizing k with
  | zero => rfl
  | succ n ih =>
      rw [List.replicate_succ, List.foldl_cons,
        under_message, ih]
      congr 2
      omega

theorem mem_script_messages
    {n k : Nat} {id : UInt32}
    {t : Turn Unit}
    (ht :
      t ∈ script numbering (afterMessages k, id)
        (List.replicate n (messageOf 2 9 (ascii "x")))) :
    ∃ j,
      t.before = afterMessages j ∧
        t.event.1 = messageOf 2 9 (ascii "x") ∧
        t.after = afterMessages (j + 1) := by
  induction n generalizing k with
  | zero => cases ht
  | succ n ih =>
      rw [List.replicate_succ, script, under_message] at ht
      rcases List.mem_cons.mp ht with rfl | ht
      · refine ⟨k, rfl, rfl, ?_⟩
        rw [turn, under_message]
      · exact ih ht

theorem joined_eq :
    arrivals.foldl (under numbering) (quietRoom, 0) =
      (afterMessages 0, 2) := by
  rfl

/- So many messages that a number is given out again. -/
def wraps : Nat :=
  2 ^ 32 + 1

/- The guests log in, and all the messages arrive. -/
def filling : List (Event Unit) :=
  arrivals ++
    List.replicate wraps (messageOf 2 9 (ascii "x"))

theorem foldl_filling :
    filling.foldl (under numbering) (quietRoom, 0) =
      (afterMessages wraps, 2) := by
  rw [filling, List.foldl_append, joined_eq,
    foldl_messages, Nat.zero_add]

theorem mem_script_filling
    {t : Turn Unit}
    (ht : t ∈ script numbering (quietRoom, 0) filling) :
    StaysPut (key 1) t ∧ pushedTo (key 1) t = none := by
  rw [filling, script_append, joined_eq] at ht
  rcases List.mem_append.mp ht with ht | ht
  · have hArrivals :
        ∀ t ∈ script numbering (quietRoom, 0) arrivals,
          StaysPut (key 1) t ∧ pushedTo (key 1) t = none := by
      decide +kernel
    exact hArrivals t ht
  · rcases mem_script_messages ht with
      ⟨j, hBefore, hEvent, hAfter⟩
    have hRow :
        ∀ k,
          (afterMessages k).trackOf (key 1) =
            joined.trackOf (key 1) :=
      fun k => rfl
    refine ⟨fun _ => ?_, ?_⟩
    · rw [hEvent, hAfter]
      refine ⟨rfl, ?_⟩
      change joined.findClient (key 1) ≠ none
      decide +kernel
    · rw [pushedTo, hBefore, hAfter, hRow, hRow]
      decide +kernel

/- Then the first guest is pushed one of the oldest. -/
def pushing : Turn Unit :=
  turn numbering (afterMessages wraps, 2) (.tick 0)

def settling : Turn Unit :=
  ⟨pushing.after, (.ack 2, []), pushing.after.onAck 2⟩

/-
  Numbers are given out again after two to the thirty-two
  posts: the guest's bookmark is moved from zero to one of
  the last numbers, over the post numbered one behind it.
-/
theorem delivery_passes_over :
    ∃ ts room,
      Run Step quietRoom ts room ∧
        (∀ t ∈ ts, StaysPut (key 1) t) ∧
        ¬ InOrder (key 1) ts := by
  have hFilled :
      Run Step quietRoom
        (script numbering (quietRoom, 0) filling)
        (afterMessages wraps) := by
    have hRun := run_script numbering (quietRoom, 0) filling
    rwa [foldl_filling] at hRun
  have hPushing :
      Run Step (afterMessages wraps) [pushing]
        pushing.after :=
    .single (step_turn numbering (afterMessages wraps, 2)
      (.tick 0))
  have hSettling :
      Run Step pushing.after [settling] settling.after :=
    .single (.done _)
  have hPut : ∀ t ∈ [pushing, settling], StaysPut (key 1) t := by
    decide +kernel
  have hOld : nth 1 ∈ (afterMessages wraps).posts := by
    decide +kernel
  refine ⟨_, _, (hFilled.trans hPushing).trans hSettling,
    ?_, ?_⟩
  · intro t ht
    rw [List.append_assoc] at ht
    rcases List.mem_append.mp ht with ht | ht
    · exact (mem_script_filling ht).1
    · exact hPut t ht
  · rintro ⟨-, hMoves⟩
    have hMove :
        settling.before.syncSeqOf (key 1) = some 0 ∧
          settling.after.syncSeqOf (key 1) =
            some 4294967266 := by
      decide +kernel
    rcases hMoves _ settling [] 0 4294967266 rfl hMove.1
        hMove.2 (by decide) with
      ⟨past, u, since, hDone, hPushed, hGone⟩
    have hMade :=
      (posts_made hFilled hOld).resolve_left
        List.not_mem_nil
    have hLeft :=
      (hGone (nth 1)
        (by
          rw [madeIn_append, madeIn_append]
          exact List.mem_append_left _
            (List.mem_append_left _ hMade))
        (by decide) (by decide) (by decide)).2
    have hPush :
        u ∈ script numbering (quietRoom, 0) filling ++
          [pushing] := by
      rw [hDone]
      simp
    rcases List.mem_append.mp hPush with hPush | hPush
    · rw [(mem_script_filling hPush).2] at hPushed
      cases hPushed
    · rw [List.mem_singleton.mp hPush] at hLeft
      exact hLeft hOld

end Example

end Room

end MeshCore
