import MeshCore.Room.Delivery

/-
  Bookmarks that a client moves: how far one is honoured
  while an older push is in flight, and what counting back
  from a time makes of one.

  Key definitions include:
    * `Room.DeliveredIn`
    * `Room.Honoured`, `Room.NoStaleAck`
    * `Room.bookmarkTime`

  Key facts include:
    * `Room.honoured_iff_noStaleAck`
    * `Room.login_loses_nothing_iff`
-/

namespace MeshCore

namespace Room

variable {η : Type}

------------------------------------------------------------
-- A Bookmark And The Acks After It
------------------------------------------------------------

/- A post is pushed to a client and then acknowledged. -/
def DeliveredIn
    (pk : PublicKey)
    (seq : UInt32)
    (ts : List (Turn η)) :
    Prop :=
  ∃ past u since a rest,
    ts = past ++ u :: (since ++ a :: rest) ∧
      pushedTo pk u = some seq ∧
      ackedFrom pk a = some seq

/-
  After a bookmark was set, the row comes to a post of
  others that is on the board only by its delivery.
-/
def Honoured
    (pk : PublicKey)
    (b : UInt32)
    (after : List (Turn η)) :
    Prop :=
  ∀ done t rest track post,
    after = done ++ t :: rest →
      t.after.trackOf pk = some track →
      post ∈ t.after.posts →
      post.author ≠ authorPrefixOf pk →
      b < post.seq →
      post.seq ≤ track.syncSeq →
      DeliveredIn pk post.seq (done ++ [t])

/-
  Where nothing was pushed since the bookmark, an ack finds
  no post of others on the board between the bookmark and
  the post that it acknowledges.
-/
def NoStaleAck
    (pk : PublicKey)
    (b : UInt32)
    (after : List (Turn η)) :
    Prop :=
  ∀ done t rest seq post,
    after = done ++ t :: rest →
      (∀ u ∈ done, pushedTo pk u = none) →
      ackedFrom pk t = some seq →
      post ∈ t.before.posts →
      post.author ≠ authorPrefixOf pk →
      b < post.seq →
      seq < post.seq

theorem DeliveredIn.append
    {pk : PublicKey}
    {seq : UInt32}
    {ts : List (Turn η)}
    (hDelivered : DeliveredIn pk seq ts)
    (us : List (Turn η)) :
    DeliveredIn pk seq (ts ++ us) := by
  rcases hDelivered with
    ⟨past, u, since, a, rest, rfl, hPushed, hAcked⟩
  exact ⟨past, u, since, a, rest ++ us, by simp,
    hPushed, hAcked⟩

/-
  What a run after a bookmark keeps of the row: all that it
  has come to was delivered, and what it waits for was
  pushed before the bookmark, or was the first it missed.
-/
structure Honouring
    (pk : PublicKey)
    (b : UInt32)
    (ts : List (Turn η))
    (room : Room η)
    (track : Track) :
    Prop where
  come :
    ∀ post ∈ room.posts,
      post.author ≠ authorPrefixOf pk →
      b < post.seq →
      post.seq ≤ track.syncSeq →
      DeliveredIn pk post.seq ts
  waiting :
    track.pending = true →
      ((∀ u ∈ ts, pushedTo pk u = none) ∧
        track.syncSeq = b) ∨
      ((∃ past u since,
          ts = past ++ u :: since ∧
            pushedTo pk u = some track.pendingSeq) ∧
        ∀ post ∈ room.posts,
          track.misses post = true →
            track.pendingSeq ≤ post.seq)

section Steps

variable [CryptoCore]

/- What a step adds to the board is ahead of every row. -/
theorem Sound.ahead
    {n : Nat}
    {t : Turn η}
    (hSound : Sound n t.before)
    (hStep : Step t.before t.event t.after)
    (hRoom : n + postedIn [t] < 2 ^ 32)
    {track : Track}
    (hTrack : track ∈ t.before.tracks)
    {post : Post}
    (hPost : post ∈ t.after.posts) :
    post ∈ t.before.posts ∨
      (track.syncSeq < post.seq ∧
        (track.pending = true →
          track.pendingSeq < post.seq)) := by
  rcases (step_changes hStep).1.mem hPost with
    hOld | ⟨pk, message, hPosted, rfl⟩
  · exact .inl hOld
  · right
    have hSeq : t.before.nextSeq.toNat = n + 1 := by
      have hOne : postedIn [t] = 1 := by
        simp [postedIn_singleton, made, hPosted]
      rw [hSound.nextSeq]
      rw [hOne] at hRoom
      exact UInt32.toNat_ofNat_of_lt' hRoom
    have hBehind := hSound.behind track hTrack
    refine ⟨?_, fun hPending => ?_⟩
    · rw [UInt32.lt_iff_toNat_lt]
      simp only [makePost]
      omega
    · have hInFlight := hSound.inFlight track hTrack hPending
      rw [UInt32.lt_iff_toNat_lt]
      simp only [makePost]
      omega

theorem Honouring.step
    {n : Nat}
    {pk : PublicKey} {b : UInt32}
    {ts : List (Turn η)} {t : Turn η}
    {track track' : Track}
    (hHonouring : Honouring pk b ts t.before track)
    (hSound : Sound n t.before)
    (hStep : Step t.before t.event t.after)
    (hRoom : n + postedIn [t] < 2 ^ 32)
    (hTrack : t.before.trackOf pk = some track)
    (hTrack' : t.after.trackOf pk = some track')
    (hUnmarked : t.before.bookmarkOf pk t.event.1 = none)
    (hFresh :
      (∀ u ∈ ts, pushedTo pk u = none) →
        ∀ seq post,
          ackedFrom pk t = some seq →
            post ∈ t.before.posts →
            post.author ≠ authorPrefixOf pk →
            b < post.seq →
            seq < post.seq) :
    Honouring pk b (ts ++ [t]) t.after track' := by
  rcases Table.lookup_mem hTrack with ⟨hMember, hPk⟩
  have hAhead :
      ∀ post ∈ t.after.posts,
        post ∈ t.before.posts ∨
          (track.syncSeq < post.seq ∧
            (track.pending = true →
              track.pendingSeq < post.seq)) :=
    fun post hPost =>
      hSound.ahead hStep hRoom hMember hPost
  have hChange :=
    (step_changes hStep).2.rowChange hSound.keys
      hTrack hTrack' hUnmarked
  -- A row that keeps its bookmark has come to nothing new.
  have hCome :
      track'.syncSeq = track.syncSeq →
        ∀ post ∈ t.after.posts,
          post.author ≠ authorPrefixOf pk →
          b < post.seq →
          post.seq ≤ track'.syncSeq →
          DeliveredIn pk post.seq (ts ++ [t]) := by
    intro hSame post hPost hAuthor hAfter hReached
    rw [hSame] at hReached
    rcases hAhead post hPost with hOld | ⟨hBeyond, _⟩
    · exact (hHonouring.come post hOld hAuthor hAfter
        hReached).append [t]
    · exact absurd hReached (UInt32.not_le.mpr hBeyond)
  generalize hEvent : t.event.1 = e at hChange
  generalize pushId t.event.2 = push at hChange
  cases hChange with
  | same hSame hOther =>
      subst hSame
      refine ⟨hCome rfl, fun hPending => ?_⟩
      rcases hHonouring.waiting hPending with
        ⟨hNone, hHere⟩ |
        ⟨⟨past, u, since, rfl, hPushed⟩, hGap⟩
      · refine .inl ⟨?_, hHere⟩
        intro u hu
        rcases List.mem_append.mp hu with hu | hu
        · exact hNone u hu
        · rw [List.mem_singleton.mp hu, pushedTo, hTrack,
            hTrack']
          simp [hPending]
      · refine .inr ⟨⟨past, u, since ++ [t], by simp,
          hPushed⟩, ?_⟩
        intro post hPost hMisses
        rcases hAhead post hPost with hOld | ⟨_, hBeyond⟩
        · exact hGap post hOld hMisses
        · exact UInt32.le_of_lt (hBeyond hPending)
  | @pushed now post id hIdle hPost hPushed =>
      subst hPushed
      refine ⟨hCome rfl, fun _ => .inr ⟨⟨ts, t, [], rfl, ?_⟩,
        ?_⟩⟩
      · simp [pushedTo, hTrack, hTrack', Track.pushed, hIdle]
      · intro other hOther hMisses
        have hOld : other ∈ t.before.posts := by
          rcases (step_changes hStep).1.mem hOther with
            hOld | ⟨_, _, hPosted, _⟩
          · exact hOld
          · rw [hEvent] at hPosted
            cases hPosted
        exact le_of_find_misses hSound.ascending hPost hOld
          hMisses
  | @acked id hWaits hPending hAcked =>
      subst hAcked
      have hSome : ackedFrom pk t = some track.pendingSeq := by
        rw [ackedFrom, hEvent]
        simp [hPk ▸ hWaits, hTrack]
      refine ⟨?_, fun hPending => absurd hPending (by simp [Track.acked])⟩
      intro post hPost hAuthor hAfter hReached
      have hReached : post.seq ≤ track.pendingSeq := hReached
      have hOld : post ∈ t.before.posts :=
        (hAhead post hPost).resolve_right fun hBeyond =>
          absurd hReached
            (UInt32.not_le.mpr (hBeyond.2 hPending))
      rcases hHonouring.waiting hPending with
        ⟨hNone, _⟩ | ⟨⟨past, u, since, rfl, hPushed⟩, hGap⟩
      · exact absurd hReached (UInt32.not_le.mpr
          (hFresh hNone _ post hSome hOld hAuthor hAfter))
      · by_cases hBefore : post.seq ≤ track.syncSeq
        · exact (hHonouring.come post hOld hAuthor hAfter
            hBefore).append [t]
        · have hMisses : track.misses post = true := by
            simp only [Track.misses, decide_eq_true_eq]
            exact ⟨UInt32.not_le.mp hBefore,
              hPk ▸ hAuthor⟩
          have hSeq : post.seq = track.pendingSeq :=
            UInt32.le_antisymm hReached
              (hGap post hOld hMisses)
          rw [hSeq]
          exact ⟨past, u, since, t, [], by simp,
            hPushed, hSome⟩
  | @failed id hWaits hPending hFailed =>
      subst hFailed
      exact ⟨hCome rfl, fun hPending => absurd hPending (by simp [Track.failed])⟩

/- A row that a run after a bookmark neither marks. -/
theorem honouring_of_run
    {n : Nat}
    {pk : PublicKey} {b : UInt32}
    {start room : Room η}
    {after : List (Turn η)}
    (hSound : Sound n start)
    (hRun : Run Step start after room)
    (hRoom : n + postedIn after < 2 ^ 32)
    (hStart :
      ∀ track, start.trackOf pk = some track →
        track.syncSeq = b)
    (hUntil :
      ∀ t ∈ after, t.before.bookmarkOf pk t.event.1 = none)
    (hFresh : NoStaleAck pk b after)
    {track : Track}
    (hTrack : room.trackOf pk = some track) :
    Honouring pk b after room track := by
  induction hRun generalizing track with
  | start =>
      have hHere := hStart track hTrack
      refine ⟨?_, fun _ => .inl ⟨by simp, hHere⟩⟩
      intro post _ _ hAfter hReached
      rw [hHere] at hReached
      exact absurd hReached (UInt32.not_le.mpr hAfter)
  | @step ts s s' e hRun hStep ih =>
      rw [postedIn_append] at hRoom
      have hBefore := hSound.run hRun (by omega)
      have hUnmarked := hUntil ⟨s, e, s'⟩ (by simp)
      cases hOld : s.trackOf pk with
      | none =>
          rcases (step_changes hStep).2.appears hBefore.keys
              hOld hTrack with
            ⟨b', hMark, _⟩
          rw [hUnmarked] at hMark
          cases hMark
      | some old =>
          have hHonouring :=
            ih (by omega)
              (fun t ht => hUntil t (by simp [ht]))
              (fun done t rest seq post hSplit =>
                hFresh done t (rest ++ [⟨s, e, s'⟩]) seq
                  post (by rw [hSplit]; simp))
              hOld
          exact hHonouring.step (t := ⟨s, e, s'⟩) hBefore
            hStep (by omega) hOld hTrack hUnmarked
            fun hNone seq post =>
              hFresh ts ⟨s, e, s'⟩ [] seq post rfl hNone

/- An ack of a row leaves it where its push was. -/
theorem track_of_ackedFrom
    {n : Nat}
    {pk : PublicKey} {seq : UInt32}
    {t : Turn η}
    (hSound : Sound n t.before)
    (hStep : Step t.before t.event t.after)
    (hAcked : ackedFrom pk t = some seq) :
    pushedTo pk t = none ∧
      t.after.posts = t.before.posts ∧
      ∃ track,
        t.after.trackOf pk = some track ∧
          track.syncSeq = seq := by
  rcases t with ⟨room, ⟨e, calls⟩, room'⟩
  unfold ackedFrom at hAcked
  split at hAcked
  next id hEvent =>
    cases (hEvent : e = .ack id)
    split at hAcked
    next hWaits =>
      rcases Option.map_eq_some_iff.mp hAcked with
        ⟨track, hTrack, rfl⟩
      have hAfter : room' = room.onAck id :=
        (Program.exec_done_iff.mp hStep).2
      have hChange := (step_changes hStep).2
      generalize pushId calls = push at hChange
      cases hChange with
      | idle _ _ hUnknown =>
          rw [waiterFor_eq_none (hUnknown id rfl)] at hWaits
          cases hWaits
      | marked hMark _ _ _ => cases hMark
      | entered hMark _ _ _ _ => cases hMark
      | @acked id row hRow hTracks =>
          rcases waiterFor_of_findIdx? hRow with
            ⟨old, hOld, hAwaits, hWaiter⟩
          have hHere : old.pk = pk :=
            Option.some.inj (hWaiter.symm.trans hWaits)
          have hSelf : old = track :=
            Option.some.inj
              (((Table.lookup_eq_some_iff hSound.keys).mpr
                ⟨List.mem_of_getElem? hOld, hHere⟩).symm.trans
                hTrack)
          have hTrack' : room'.trackOf pk = some old.acked := by
            have hKey : ∀ track : Track, track.acked.pk = track.pk :=
              fun _ => rfl
            rw [trackOf, hTracks,
              Table.lookup_modify hSound.keys hKey hOld,
              if_pos (beq_iff_eq.mpr hHere)]
          refine ⟨?_, ?_, old.acked, hTrack', ?_⟩
          · rw [pushedTo, hTrack, hTrack']
            simp [Track.acked]
          · rw [hAfter, onAck, settle]
            split <;> rfl
          · rw [hSelf]
            rfl
    next => cases hAcked
  next => cases hAcked

/-
  After a bookmark, and until the next one, the posts of
  others that a client comes to are those it was sent since,
  exactly if no ack of an older push finds a post on the
  board between the bookmark and its own.
-/
theorem honoured_iff_noStaleAck
    {config : RoomConfig η} {host : η}
    {pk : PublicKey} {b : UInt32}
    {past after : List (Turn η)} {mark : Turn η}
    {room : Room η}
    (hRun :
      Run Step (create config host)
        (past ++ mark :: after) room)
    (hRoom : postedIn (past ++ mark :: after) < 2 ^ 32)
    (hMark :
      mark.before.bookmarkOf pk mark.event.1 = some b)
    (hUntil :
      ∀ t ∈ after,
        t.before.bookmarkOf pk t.event.1 = none) :
    Honoured pk b after ↔ NoStaleAck pk b after := by
  rcases hRun.split_cons with ⟨hPast, hStep, hAfter⟩
  rw [List.append_cons, postedIn_append] at hRoom
  have hSound :=
    (sound_create config host).run (hPast.snoc hStep)
      (by omega)
  have hStart :
      ∀ track, mark.after.trackOf pk = some track →
        track.syncSeq = b := by
    intro track hTrack
    rw [postedIn_append] at hRoom
    have hBefore :=
      (sound_create config host).run hPast (by omega)
    rcases (step_changes hStep).2.bookmarked hBefore.keys
        hMark with
      ⟨marked, hMarked, hSeq⟩
    rw [hTrack] at hMarked
    rw [Option.some.inj hMarked, hSeq]
  rw [Nat.zero_add] at hSound
  constructor
  · intro hHonoured done t rest seq post hSplit hNone hAcked
      hPost hAuthor hAhead
    have hCount :
        postedIn after = postedIn done + postedIn (t :: rest) := by
      rw [hSplit, postedIn_append]
    rw [hSplit] at hAfter
    rcases hAfter.split_cons with ⟨hDone, hAck, _⟩
    rcases track_of_ackedFrom
        (hSound.run hDone (by omega)) hAck hAcked with
      ⟨hNoPush, hPosts, track, hTrack, hSeq⟩
    refine UInt32.not_le.mp fun hReached => ?_
    rcases hHonoured done t rest track post hSplit hTrack
        (hPosts ▸ hPost) hAuthor hAhead (hSeq ▸ hReached) with
      ⟨before, u, since, a, rest', hAll, hPushed, _⟩
    have hu : u ∈ done ++ [t] := by
      rw [hAll]
      simp
    rcases List.mem_append.mp hu with hu | hu
    · rw [hNone u hu] at hPushed
      cases hPushed
    · rw [List.mem_singleton.mp hu, hNoPush] at hPushed
      cases hPushed
  · intro hFresh done t rest track post hSplit hTrack hPost
      hAuthor hAhead hReached
    have hCut : after = done ++ [t] ++ rest := by
      rw [hSplit, List.append_cons]
    have hCount :
        postedIn after =
          postedIn (done ++ [t]) + postedIn rest := by
      rw [hCut, postedIn_append]
    rw [hSplit] at hAfter
    rcases hAfter.split_cons with ⟨hDone, hLast, _⟩
    rw [hCut] at hUntil hFresh
    have hHonouring :=
      honouring_of_run hSound (hDone.snoc hLast) (by omega)
        hStart
        (fun u hu => hUntil u (List.mem_append_left _ hu))
        (fun before u since seq post hWhere =>
          hFresh before u (since ++ rest) seq post
            (by rw [hWhere]; simp))
        hTrack
    exact hHonouring.come post hPost hAuthor hAhead hReached

------------------------------------------------------------
-- Counting Back From A Time
------------------------------------------------------------

omit [CryptoCore] in
/-
  On an ascending board, on which nothing up to `k` is
  younger than the time, counting back stops at `k` exactly
  if the first post beyond is younger.
-/
theorem last_until_le_iff
    {posts : List Post}
    {k time : UInt32}
    (hAscending : posts.Pairwise (·.seq < ·.seq))
    (hOld :
      ∀ post ∈ posts, post.seq ≤ k → post.timestamp ≤ time) :
    ((posts.takeWhile (·.timestamp ≤ time)).getLast?.map
        (·.seq)).getD 0 ≤ k ↔
      ∀ post, posts.find? (k < ·.seq) = some post →
        time < post.timestamp := by
  induction posts with
  | nil => simp
  | cons head posts ih =>
      rcases List.pairwise_cons.mp hAscending with
        ⟨hHead, hTail⟩
      have ih := ih hTail fun post hPost =>
        hOld post (List.mem_cons_of_mem _ hPost)
      by_cases hHanded : head.seq ≤ k
      · have hPast := hOld head List.mem_cons_self hHanded
        rw [List.takeWhile_cons_of_pos (by simpa using hPast),
          List.find?_cons_of_neg (by simpa using hHanded),
          ← ih, List.getLast?_cons]
        cases (posts.takeWhile
            (·.timestamp ≤ time)).getLast? with
        | none => simp [hHanded]
        | some last => simp
      · have hBeyond := UInt32.not_le.mp hHanded
        rw [List.find?_cons_of_pos (by simpa using hBeyond)]
        have hIff :
            (∀ post, some head = some post →
                time < post.timestamp) ↔
              time < head.timestamp := by
          simp
        rw [hIff]
        by_cases hPast : head.timestamp ≤ time
        · have hLater : ¬ time < head.timestamp :=
            UInt32.not_lt.mpr hPast
          rw [List.takeWhile_cons_of_pos
            (by simpa using hPast), List.getLast?_cons]
          refine iff_of_false (UInt32.not_le.mpr ?_) hLater
          cases hLast : (posts.takeWhile
              (·.timestamp ≤ time)).getLast? with
          | none => exact hBeyond
          | some last =>
              have hMember :=
                (List.takeWhile_sublist _).subset
                  (List.mem_of_getLast? hLast)
              exact UInt32.lt_trans hBeyond
                (hHead last hMember)
        · rw [List.takeWhile_cons_of_neg
            (by simpa using hPast)]
          exact iff_of_true UInt32.zero_le
            (UInt32.not_le.mp hPast)

/- The greatest time stamped on a post up to `k`. -/
def IsNewestOf
    (made : List Post)
    (k time : UInt32) :
    Prop :=
  (∃ post ∈ made, post.seq ≤ k ∧ post.timestamp = time) ∧
    ∀ post ∈ made, post.seq ≤ k → post.timestamp ≤ time

/-
  A client with the posts up to `k` that asks for what is
  younger than the newest of them misses none, exactly if
  the first post beyond `k` is younger.
-/
theorem login_loses_nothing_iff
    {config : RoomConfig η} {host : η}
    {ts : List (Turn η)} {room room' : Room η}
    {e : Event η} {calls : Calls}
    {pk : PublicKey} {k time b : UInt32}
    (hRun : Run Step (create config host) ts room)
    (hRoom : postedIn ts < 2 ^ 32)
    (hStep : Step room (e, calls) room')
    (hMark : room.bookmarkOf pk e = some b)
    (hTime : bookmarkTime e = some time)
    (hNewest : IsNewestOf (madeIn ts) k time) :
    ∃ track,
      room'.trackOf pk = some track ∧
        track.syncSeq = room.seqFromTimestamp time ∧
        (track.syncSeq ≤ k ↔
          ∀ post, room.posts.find? (k < ·.seq) = some post →
            time < post.timestamp) := by
  have hSound :=
    (sound_create config host).run hRun (by omega)
  rcases (step_changes hStep).2.bookmarked hSound.keys
      hMark with
    ⟨track, hTrack, hHere⟩
  rcases bookmarkOf_eq_some hMark with
    ⟨time', hTime', hBack⟩
  rw [hTime] at hTime'
  cases hTime'
  refine ⟨track, hTrack, hHere.trans hBack, ?_⟩
  rw [hHere, hBack, seqFromTimestamp]
  apply last_until_le_iff hSound.ascending
  intro post hPost hHanded
  have hMade :=
    (posts_made hRun hPost).resolve_left List.not_mem_nil
  exact hNewest.2 post hMade hHanded

end Steps

------------------------------------------------------------
-- A Guest Who Starts Again
------------------------------------------------------------

section Example

open Sample

instance
    (made : List Post)
    (k time : UInt32) :
    Decidable (IsNewestOf made k time) :=
  inferInstanceAs (Decidable (_ ∧ _))

/- A guest who has read one post is pushed the next. -/
def reading : List (Event Unit) :=
  [loginOf 2 5 0, messageOf 2 9 (ascii "x"),
    messageOf 2 10 (ascii "y"), loginOf 1 6 9, .tick 0]

/- Then the guest asks for everything from the start. -/
def restarting : Turn Unit :=
  turn numbering
    (reading.foldl (under numbering) (quietRoom, 0))
    (loginOf 1 7 0)

/- The ack of the push that was under way comes in. -/
def catching : Turn Unit :=
  turn numbering (restarting.after, 4) (.ack 2)

theorem restarting_run :
    Run Step quietRoom
      (script numbering (quietRoom, 0) reading ++
        restarting :: [catching])
      catching.after := by
  have hReading := run_script numbering (quietRoom, 0) reading
  have hRestarting := hReading.snoc (t := restarting)
    (step_turn numbering _ _)
  rw [List.append_cons]
  exact hRestarting.snoc (step_turn numbering _ _)

/-
  The old ack carries the guest over a post that the guest
  has just asked for, and was not sent.
-/
theorem stale_ack_is_not_honoured :
    ∃ past mark after room,
      Run Step quietRoom (past ++ mark :: after) room ∧
        mark.before.bookmarkOf (key 1) mark.event.1 =
          some 0 ∧
        (∀ t ∈ after,
          t.before.bookmarkOf (key 1) t.event.1 = none) ∧
        ¬ Honoured (key 1) 0 after := by
  refine ⟨_, restarting, [catching], _, restarting_run,
    by decide +kernel, by decide +kernel, ?_⟩
  intro hHonoured
  have hTrack :
      catching.after.trackOf (key 1) =
        some
          { pk := key 1
            syncSeq := 2
            pendingId := 2
            pendingSeq := 2 } := by
    decide +kernel
  have hPost :
      { seq := 1
        timestamp := 9
        author := authorPrefixOf (key 2)
        text := ascii "x" } ∈ catching.after.posts := by
    decide +kernel
  rcases hHonoured [] catching [] _ _ rfl hTrack hPost
      (by decide) (by decide) (by decide) with
    ⟨past, u, since, a, rest, hSplit, _⟩
  have hLength := congrArg List.length hSplit
  simp only [List.nil_append, List.length_append,
    List.length_cons, List.length_nil] at hLength
  omega

theorem stale_ack_run :
    Honoured (key 1) 0 [catching] ↔
      NoStaleAck (key 1) 0 [catching] :=
  honoured_iff_noStaleAck restarting_run
    (by decide +kernel) (by decide +kernel)
    (by decide +kernel)

/- Two posts are stamped with one second. -/
def posting : List (Event Unit) :=
  [loginOf 2 5 0, messageOf 2 9 (ascii "x"),
    messageOf 2 9 (ascii "y")]

def posted : Room Unit × UInt32 :=
  posting.foldl (under numbering) (quietRoom, 0)

/-
  A guest with the first of them asks for what is younger,
  and is taken to have both.
-/
theorem same_second_is_skipped :
    ∃ ts room calls room' track,
      Run Step quietRoom ts room ∧
        Step room (loginOf 1 6 9, calls) room' ∧
        room.bookmarkOf (key 1) (loginOf 1 6 9) ≠ none ∧
        bookmarkTime (loginOf 1 6 9) = some 9 ∧
        IsNewestOf (madeIn ts) 1 9 ∧
        room'.trackOf (key 1) = some track ∧
        ¬ track.syncSeq ≤ 1 :=
  ⟨_, _, _, _, { pk := key 1, syncSeq := 2 },
    run_script numbering (quietRoom, 0) posting,
    step_turn numbering posted (loginOf 1 6 9),
    by decide +kernel, by decide +kernel,
    by decide +kernel, by decide +kernel, by decide⟩

theorem same_second_run :
    ∃ track,
      (under numbering posted (loginOf 1 6 9)).1.trackOf
          (key 1) = some track ∧
        track.syncSeq = posted.1.seqFromTimestamp 9 ∧
        (track.syncSeq ≤ 1 ↔
          ∀ post,
            posted.1.posts.find? (1 < ·.seq) = some post →
              9 < post.timestamp) :=
  login_loses_nothing_iff
    (run_script numbering (quietRoom, 0) posting)
    (by decide +kernel)
    (step_turn numbering posted (loginOf 1 6 9))
    (show posted.1.bookmarkOf (key 1) (loginOf 1 6 9) =
      some 2 by decide +kernel)
    (show bookmarkTime (loginOf 1 6 9) = some 9 by
      decide +kernel)
    (by decide +kernel)

end Example

end Room

end MeshCore
