import MeshCore.Library.Table
import MeshCore.Room.Runs

/-
  What holds of a room after any run that posts fewer than
  two to the thirty-two times: the posts on the ring are
  numbered upwards in the order they were stored, and no
  two rows share a key.

  Key definitions include:
    * `Room.postedIn`, `Room.madeIn`
    * `Room.Sound`
    * `Room.RowChange`

  Key facts include:
    * `Room.Sound.run`, `Room.Sound.invariant`
    * `Room.Sound.made_above`
    * `Room.Sound.rowChange`
-/

namespace MeshCore

/- The post has a number the row has not come to yet. -/
def Track.misses (track : Track) (post : Post) : Bool :=
  track.syncSeq < post.seq ∧
    post.author ≠ authorPrefixOf track.pk

namespace Room

variable {η : Type}

/- The row of a key, as far as delivery is concerned. -/
def trackOf
    (room : Room η)
    (pk : PublicKey) :
    Option Track :=
  Table.lookup Track.pk room.tracks pk

/- Whose row the fate of a send is taken to be about. -/
def waiterFor
    (room : Room η)
    (id : SendId) :
    Option PublicKey :=
  (room.tracks.find? (Track.awaits id)).map (·.pk)

------------------------------------------------------------
-- Posts Made
------------------------------------------------------------

section Made

variable [CryptoCore]

/- The post a step adds to the board, if it adds one. -/
def made (t : Turn η) : Option Post :=
  (t.before.postOf t.event.1).map fun (pk, message) =>
    t.before.makePost pk message.timestamp message.message

def madeIn (ts : List (Turn η)) : List Post :=
  ts.filterMap made

/- How many posts a run makes. -/
def postedIn (ts : List (Turn η)) : Nat :=
  (madeIn ts).length

theorem madeIn_append (ts us : List (Turn η)) :
    madeIn (ts ++ us) = madeIn ts ++ madeIn us :=
  List.filterMap_append

theorem postedIn_append (ts us : List (Turn η)) :
    postedIn (ts ++ us) = postedIn ts + postedIn us := by
  simp only [postedIn, madeIn_append, List.length_append]

theorem postedIn_singleton (t : Turn η) :
    postedIn [t] = (made t).toList.length := by
  rw [postedIn, madeIn, List.filterMap_cons]
  cases made t <;> rfl

end Made

------------------------------------------------------------
-- Soundness
------------------------------------------------------------

/-
  What a room that has made `n` posts keeps: they are
  numbered from one upwards, and no bookmark and no push in
  flight is ahead of them.
-/
structure Sound (n : Nat) (room : Room η) : Prop where
  nextSeq : room.nextSeq = UInt32.ofNat (n + 1)
  numbered :
    ∀ post ∈ room.posts,
      0 < post.seq.toNat ∧ post.seq.toNat ≤ n
  ascending : room.posts.Pairwise (·.seq < ·.seq)
  keys : Table.Keyed Track.pk room.tracks
  behind : ∀ track ∈ room.tracks, track.syncSeq.toNat ≤ n
  inFlight :
    ∀ track ∈ room.tracks,
      track.pending = true → track.pendingSeq.toNat ≤ n

theorem sound_create
    (config : RoomConfig η)
    (host : η) :
    Sound 0 (create config host) where
  nextSeq := rfl
  numbered := by simp [create]
  ascending := List.Pairwise.nil
  keys := List.nodup_nil
  behind := by simp [create, tracks]
  inFlight := by simp [create, tracks]

/- The board keeps its order, with a new post at its end. -/
theorem BoardChange.ascending
    {room room' : Room η}
    {posted : Option (PublicKey × TextMsg)}
    (hBoard : BoardChange room room' posted)
    (hAscending : room.posts.Pairwise (·.seq < ·.seq))
    (hNew :
      posted ≠ none →
        ∀ post ∈ room.posts, post.seq < room.nextSeq) :
    room'.posts.Pairwise (·.seq < ·.seq) := by
  cases hBoard with
  | same hPosts _ => rwa [hPosts]
  | cleared hPosts _ =>
      rw [hPosts]
      exact .nil
  | posted hPosts _ =>
      have hKept :
          (if maxPosts ≤ room.posts.length then
            room.posts.drop 1
          else room.posts).Sublist room.posts := by
        split
        · exact List.drop_sublist 1 _
        · exact List.Sublist.refl _
      rw [hPosts]
      refine List.pairwise_append.mpr
        ⟨hAscending.sublist hKept,
          List.pairwise_singleton _ _, ?_⟩
      intro old hOld new hMade
      rw [List.mem_singleton.mp hMade]
      exact hNew nofun old (hKept.subset hOld)

/- What is left when a row has to make room, or need not. -/
theorem sublist_of_kept
    {room : Room η} {kept : List Track}
    (hKept :
      kept = room.tracks ∨
        ∃ victim, kept = room.tracks.eraseIdx victim) :
    kept.Sublist room.tracks := by
  rcases hKept with rfl | ⟨victim, rfl⟩
  · exact List.Sublist.refl _
  · exact List.eraseIdx_sublist _ _

theorem lookup_kept
    {room : Room η} {kept : List Track}
    (hKeys : Table.Keyed Track.pk room.tracks)
    (hKept :
      kept = room.tracks ∨
        ∃ victim, kept = room.tracks.eraseIdx victim)
    {pk : PublicKey}
    (hAbsent : room.trackOf pk = none) :
    Table.lookup Track.pk kept pk = none := by
  cases hFound : Table.lookup Track.pk kept pk with
  | none => rfl
  | some old =>
      have hThere :=
        Table.lookup_of_sublist hKeys
          (sublist_of_kept hKept) hFound
      rw [trackOf, hThere] at hAbsent
      cases hAbsent

/- The rows a step leaves have the keys of those it found. -/
theorem TrackChange.keyed
    {room room' : Room η}
    {e : Event η} {push : Option SendId}
    (hChange : TrackChange room room' e push)
    (hKeys : Table.Keyed Track.pk room.tracks) :
    Table.Keyed Track.pk room'.tracks := by
  cases hChange with
  | idle hTracks _ _ => rwa [hTracks]
  | marked _ _ _ hTracks =>
      rw [hTracks]
      refine hKeys.modify ?_ _
      exact fun _ => rfl
  | @entered _ pk b kept _ _ hNew hKept hTracks =>
      have hSub := sublist_of_kept hKept
      rw [hTracks]
      refine (hKeys.sublist hSub).append ?_
      rw [findClient_eq_findIdx,
        List.findIdx?_eq_none_iff] at hNew
      intro track hTrack hKey
      have hOther := hNew track (hSub.subset hTrack)
      simp [hKey] at hOther
  | pushed _ _ _ hTracks =>
      rw [hTracks]
      refine hKeys.modify ?_ _
      exact fun _ => rfl
  | acked _ hTracks =>
      rw [hTracks]
      refine hKeys.modify ?_ _
      exact fun _ => rfl
  | failed _ hTracks =>
      rw [hTracks]
      refine hKeys.modify ?_ _
      exact fun _ => rfl

/- The key of each row, in the order of the rows. -/
def keys (room : Room η) : List PublicKey :=
  room.clients.map (·.pk)

theorem keys_eq_tracks (room : Room η) :
    room.keys = room.tracks.map (·.pk) := by
  simp [keys, tracks, Function.comp_def, Client.track]

/- The rows stay those of the same keys, or a new key logs in. -/
theorem TrackChange.keys
    {room room' : Room η}
    {e : Event η} {push : Option SendId}
    (hChange : TrackChange room room' e push) :
    room'.keys = room.keys ∨
      ∃ pk plain,
        e = .anon pk plain ∧
          pk ∈ room'.keys ∧ pk ∉ room.keys := by
  simp only [keys_eq_tracks]
  cases hChange with
  | idle hTracks _ _ =>
      rw [hTracks]
      exact .inl rfl
  | marked _ _ _ hTracks
  | pushed _ _ _ hTracks
  | acked _ hTracks
  | failed _ hTracks =>
      rw [hTracks]
      refine .inl (Table.map_modify ?_ _)
      exact fun _ => rfl
  | @entered _ pk _ _ hMark _ hNew _ hTracks =>
      have hFree : pk ∉ room.tracks.map (·.pk) := by
        rw [findClient_eq_findIdx,
          List.findIdx?_eq_none_iff] at hNew
        intro hOld
        rcases List.mem_map.mp hOld with
          ⟨track, hMem, hKey⟩
        simpa [hKey] using hNew track hMem
      have hHere : pk ∈ room'.tracks.map (·.pk) := by
        simp [hTracks]
      right
      cases e with
      | anon peer plain =>
          rw [bookmarkOf] at hMark
          split at hMark
          next hPeer =>
            exact ⟨pk, plain, by rw [hPeer], hHere, hFree⟩
          next => cases hMark
      | payload contact type plain =>
          -- a request of a key without a row sets nothing
          cases type with
          | req => simp [bookmarkOf, hNew] at hMark
          | _ => cases hMark
      | _ => cases hMark

theorem pending_of_awaits
    {track : Track}
    {id : SendId}
    (hAwaits : track.awaits id = true) :
    track.pending = true := by
  simp only [Track.awaits, decide_eq_true_eq] at hAwaits
  exact hAwaits.1

/- A bookmark was there, or was reached, or has been set. -/
theorem TrackChange.syncSeq
    {room room' : Room η}
    {e : Event η} {push : Option SendId}
    (hChange : TrackChange room room' e push)
    {track : Track}
    (hTrack : track ∈ room'.tracks) :
    (∃ old ∈ room.tracks, old.syncSeq = track.syncSeq) ∨
      (∃ old ∈ room.tracks,
        old.pending = true ∧
          old.pendingSeq = track.syncSeq) ∨
      ∃ pk, room.bookmarkOf pk e = some track.syncSeq := by
  cases hChange with
  | idle hTracks _ _ =>
      rw [hTracks] at hTrack
      exact .inl ⟨track, hTrack, rfl⟩
  | marked hMark _ _ hTracks =>
      rw [hTracks] at hTrack
      rcases Table.mem_modify hTrack with
        hOld | ⟨old, _, rfl⟩
      · exact .inl ⟨track, hOld, rfl⟩
      · exact .inr (.inr ⟨_, hMark⟩)
  | @entered _ pk b kept hMark _ _ hKept hTracks =>
      rw [hTracks] at hTrack
      rcases List.mem_append.mp hTrack with hOld | hNew
      · refine .inl ⟨track, ?_, rfl⟩
        rcases hKept with rfl | ⟨victim, rfl⟩
        · exact hOld
        · exact List.mem_of_mem_eraseIdx hOld
      · rw [List.mem_singleton.mp hNew]
        exact .inr (.inr ⟨_, hMark⟩)
  | pushed _ _ _ hTracks =>
      rw [hTracks] at hTrack
      rcases Table.mem_modify hTrack with
        hOld | ⟨old, hOld, rfl⟩
      · exact .inl ⟨track, hOld, rfl⟩
      · exact .inl ⟨old, List.mem_of_getElem? hOld, rfl⟩
  | acked hRow hTracks =>
      rw [hTracks] at hTrack
      rcases Table.getElem?_of_findIdx? hRow with
        ⟨waiting, hWaiting, hAwaits⟩
      rcases Table.mem_modify hTrack with
        hOld | ⟨old, hOld, rfl⟩
      · exact .inl ⟨track, hOld, rfl⟩
      · rw [hWaiting] at hOld
        cases hOld
        exact .inr (.inl ⟨waiting,
          List.mem_of_getElem? hWaiting,
          pending_of_awaits hAwaits, rfl⟩)
  | failed _ hTracks =>
      rw [hTracks] at hTrack
      rcases Table.mem_modify hTrack with
        hOld | ⟨old, hOld, rfl⟩
      · exact .inl ⟨track, hOld, rfl⟩
      · exact .inl ⟨old, List.mem_of_getElem? hOld, rfl⟩

/- A bookmark that is set is counted back from a time. -/
theorem bookmarkOf_eq_some
    {room : Room η}
    {pk : PublicKey} {e : Event η} {b : UInt32}
    (hMark : room.bookmarkOf pk e = some b) :
    ∃ time,
      bookmarkTime e = some time ∧
        b = room.seqFromTimestamp time := by
  cases e with
  | anon peer plain =>
      rw [bookmarkOf] at hMark
      split at hMark
      next =>
        rcases Option.map_eq_some_iff.mp hMark with
          ⟨_, _, rfl⟩
        exact ⟨_, rfl, rfl⟩
      next => cases hMark
  | payload contact type plain =>
      cases type with
      | req =>
          rw [bookmarkOf] at hMark
          split at hMark
          next =>
            rcases Option.bind_eq_some_iff.mp hMark with
              ⟨row, _, hRequest⟩
            rw [requestBookmark] at hRequest
            split at hRequest
            next =>
              cases hRequest
              exact ⟨_, rfl, rfl⟩
            next => cases hRequest
          next => cases hMark
      | _ => cases hMark
  | _ => cases hMark

/- A bookmark counted back from a time is of a post, or 0. -/
theorem seqFromTimestamp_mem
    (room : Room η)
    (time : UInt32) :
    room.seqFromTimestamp time = 0 ∨
      ∃ post ∈ room.posts,
        post.seq = room.seqFromTimestamp time := by
  rw [seqFromTimestamp]
  cases hLast :
      (room.posts.takeWhile
        (·.timestamp ≤ time)).getLast? with
  | none => exact .inl rfl
  | some post =>
      have hPast := List.mem_of_getLast? hLast
      exact .inr ⟨post,
        (List.takeWhile_sublist _).subset hPast, rfl⟩

/- What is in flight was in flight, or has been pushed. -/
theorem TrackChange.inFlight
    {room room' : Room η}
    {e : Event η} {push : Option SendId}
    (hChange : TrackChange room room' e push)
    {track : Track}
    (hTrack : track ∈ room'.tracks)
    (hPending : track.pending = true) :
    (∃ old ∈ room.tracks,
        old.pending = true ∧
          old.pendingSeq = track.pendingSeq) ∨
      ∃ post ∈ room.posts, post.seq = track.pendingSeq := by
  cases hChange with
  | idle hTracks _ _ =>
      rw [hTracks] at hTrack
      exact .inl ⟨track, hTrack, hPending, rfl⟩
  | marked _ _ _ hTracks =>
      rw [hTracks] at hTrack
      rcases Table.mem_modify hTrack with
        hOld | ⟨old, hOld, rfl⟩
      · exact .inl ⟨track, hOld, hPending, rfl⟩
      · exact .inl ⟨old, List.mem_of_getElem? hOld,
          hPending, rfl⟩
  | @entered _ pk b kept _ _ _ hKept hTracks =>
      rw [hTracks] at hTrack
      rcases List.mem_append.mp hTrack with hOld | hNew
      · refine .inl ⟨track, ?_, hPending, rfl⟩
        rcases hKept with rfl | ⟨victim, rfl⟩
        · exact hOld
        · exact List.mem_of_mem_eraseIdx hOld
      · rw [List.mem_singleton.mp hNew] at hPending
        cases hPending
  | @pushed now row post id _ _ hPost hTracks =>
      rw [hTracks] at hTrack
      rcases Table.mem_modify hTrack with
        hOld | ⟨old, _, rfl⟩
      · exact .inl ⟨track, hOld, hPending, rfl⟩
      · exact .inr ⟨post,
          List.mem_of_find?_eq_some hPost, rfl⟩
  | acked _ hTracks =>
      rw [hTracks] at hTrack
      rcases Table.mem_modify hTrack with
        hOld | ⟨old, _, rfl⟩
      · exact .inl ⟨track, hOld, hPending, rfl⟩
      · cases hPending
  | failed _ hTracks =>
      rw [hTracks] at hTrack
      rcases Table.mem_modify hTrack with
        hOld | ⟨old, _, rfl⟩
      · exact .inl ⟨track, hOld, hPending, rfl⟩
      · cases hPending

section Steps

variable [CryptoCore]

/- A step keeps a room sound while numbers are left. -/
theorem Sound.step
    {n : Nat}
    {room room' : Room η}
    {e : Event η} {calls : Calls}
    (hSound : Sound n room)
    (hStep : Step room (e, calls) room')
    (hRoom :
      n + postedIn [⟨room, (e, calls), room'⟩] < 2 ^ 32) :
    Sound (n + postedIn [⟨room, (e, calls), room'⟩])
      room' := by
  rcases step_changes hStep with ⟨hBoard, hTracks⟩
  rw [postedIn_singleton] at hRoom ⊢
  generalize hMade :
    made (⟨room, (e, calls), room'⟩ : Turn η) = new
      at hRoom ⊢
  have hNext : room.nextSeq = UInt32.ofNat (n + 1) :=
    hSound.nextSeq
  have hFresh :
      room.postOf e ≠ none →
        room.nextSeq.toNat = n + 1 ∧
          new.toList.length = 1 := by
    intro hPosts
    have hOne : new.toList.length = 1 := by
      cases hPost : room.postOf e with
      | none => exact absurd hPost hPosts
      | some post =>
          rw [← hMade, made, hPost]
          rfl
    rw [hNext]
    refine ⟨UInt32.toNat_ofNat_of_lt' ?_, hOne⟩
    rw [hOne] at hRoom
    exact hRoom
  have hSame :
      room.postOf e = none → new.toList.length = 0 := by
    intro hNone
    rw [← hMade, made, hNone]
    rfl
  refine ⟨?_, ?_, ?_, hTracks.keyed hSound.keys, ?_, ?_⟩
  · generalize room.postOf e = posted at hBoard hFresh hSame
    cases hBoard with
    | posted _ hSeq =>
        rw [hSeq, hNext, (hFresh nofun).2]
        exact (UInt32.ofNat_add (n + 1) 1).symm
    | same _ hSeq => rw [hSeq, hNext, hSame rfl]
    | cleared _ hSeq => rw [hSeq, hNext, hSame rfl]
  · intro post hPost
    rcases hBoard.mem hPost with
      hOld | ⟨pk, message, hPosted, rfl⟩
    · have hBounds := hSound.numbered post hOld
      omega
    · have hBounds := hFresh (by rw [hPosted]; nofun)
      simp only [makePost]
      omega
  · refine hBoard.ascending hSound.ascending
      fun hPosted post hPost => ?_
    have hBounds := hSound.numbered post hPost
    have hNumber := hFresh hPosted
    rw [UInt32.lt_iff_toNat_lt]
    omega
  · intro track hTrack
    rcases hTracks.syncSeq hTrack with
      ⟨old, hOld, hSeq⟩ | ⟨old, hOld, hPending, hSeq⟩ |
      ⟨pk, hMark⟩
    · have hBound := hSound.behind old hOld
      rw [← hSeq]
      omega
    · have hBound := hSound.inFlight old hOld hPending
      rw [← hSeq]
      omega
    · rcases bookmarkOf_eq_some hMark with
        ⟨time, _, hTime⟩
      rw [hTime]
      rcases room.seqFromTimestamp_mem time with
        hZero | ⟨post, hPost, hSeq⟩
      · rw [hZero]
        exact Nat.zero_le _
      · have hBound := hSound.numbered post hPost
        rw [← hSeq]
        omega
  · intro track hTrack hPending
    rcases hTracks.inFlight hTrack hPending with
      ⟨old, hOld, hOldPending, hSeq⟩ | ⟨post, hPost, hSeq⟩
    · have hBound := hSound.inFlight old hOld hOldPending
      rw [← hSeq]
      omega
    · have hBound := hSound.numbered post hPost
      rw [← hSeq]
      omega

/- A run keeps a room sound while numbers are left. -/
theorem Sound.run
    {n : Nat}
    {start room : Room η}
    {ts : List (Turn η)}
    (hSound : Sound n start)
    (hRun : Run Step start ts room)
    (hRoom : n + postedIn ts < 2 ^ 32) :
    Sound (n + postedIn ts) room := by
  induction hRun with
  | start => exact hSound
  | step hRun hStep ih =>
      rw [postedIn_append] at hRoom ⊢
      rw [← Nat.add_assoc] at hRoom ⊢
      exact (ih (by omega)).step hStep hRoom

/-
  The invariant rule for what a step keeps of a room that
  is sound before it and after it.
-/
theorem Sound.invariant
    {n : Nat}
    {I : Room η → Prop}
    {start room : Room η}
    {ts : List (Turn η)}
    (hSound : Sound n start)
    (hRun : Run Step start ts room)
    (hRoom : n + postedIn ts < 2 ^ 32)
    (hStart : I start)
    (hKeep :
      ∀ m t, t ∈ ts → n ≤ m → Sound m t.before →
        Step t.before t.event t.after →
        I t.before → I t.after) :
    I room := by
  induction hRun with
  | start => exact hStart
  | @step ts s s' e hRun hStep ih =>
      rw [postedIn_append] at hRoom
      refine hKeep (n + postedIn ts) ⟨s, e, s'⟩ (by simp)
        (by omega) (hSound.run hRun (by omega)) hStep
        (ih (by omega) ?_)
      intro m t ht
      exact hKeep m t (by simp [ht])

/- The post a step makes has the next number. -/
theorem Sound.made_seq
    {n : Nat}
    {t : Turn η}
    {post : Post}
    (hSound : Sound n t.before)
    (hMade : made t = some post)
    (hRoom : n + 1 < 2 ^ 32) :
    post.seq.toNat = n + 1 := by
  rcases Option.map_eq_some_iff.mp hMade with
    ⟨⟨pk, message⟩, _, rfl⟩
  simp only [makePost]
  rw [hSound.nextSeq]
  exact UInt32.toNat_ofNat_of_lt' hRoom

/- What a run makes has higher numbers than all before. -/
theorem Sound.made_above
    {n : Nat}
    {start room : Room η}
    {ts : List (Turn η)}
    (hSound : Sound n start)
    (hRun : Run Step start ts room)
    (hRoom : n + postedIn ts < 2 ^ 32)
    {post : Post}
    (hPost : post ∈ madeIn ts) :
    n < post.seq.toNat := by
  induction hRun with
  | start => simp [madeIn] at hPost
  | @step ts s s' e hRun hStep ih =>
      rw [postedIn_append, postedIn_singleton] at hRoom
      rw [madeIn_append] at hPost
      rcases List.mem_append.mp hPost with hOld | hNew
      · exact ih (by omega) hOld
      · rcases List.mem_filterMap.mp hNew with
          ⟨t, ht, hMade⟩
        rw [List.mem_singleton.mp ht] at hMade
        rw [hMade] at hRoom
        have hBefore := hSound.run hRun (by omega)
        have hSeq :=
          hBefore.made_seq hMade
            (by simpa [Nat.add_assoc] using hRoom)
        omega

/- What is on the board was there, or was made meanwhile. -/
theorem posts_made
    {start room : Room η}
    {ts : List (Turn η)}
    (hRun : Run Step start ts room)
    {post : Post}
    (hPost : post ∈ room.posts) :
    post ∈ start.posts ∨ post ∈ madeIn ts := by
  induction hRun with
  | start => exact .inl hPost
  | @step ts s s' e hRun hStep ih =>
      rw [madeIn_append, List.mem_append]
      rcases (step_changes hStep).1.mem hPost with
        hOld | ⟨pk, message, hPosted, rfl⟩
      · rcases ih hOld with hStart | hMade
        · exact .inl hStart
        · exact .inr (.inl hMade)
      · refine .inr (.inr (List.mem_filterMap.mpr
          ⟨_, List.mem_singleton_self _, ?_⟩))
        simp [made, hPosted]

end Steps

------------------------------------------------------------
-- One Row
------------------------------------------------------------

/- What a step does to a row whose bookmark it leaves be. -/
inductive RowChange
    (room : Room η)
    (track track' : Track) :
    Event η → Option SendId → Prop where
| same
    {e : Event η} {push : Option SendId}
    (hSame : track' = track)
    (hOther :
      ∀ id, e.fateOf = some id →
        room.waiterFor id ≠ some track.pk) :
    RowChange room track track' e push
| pushed
    {now : Millis} {post : Post} {id : SendId}
    (hIdle : track.pending = false)
    (hPost : room.posts.find? track.misses = some post)
    (hPushed : track' = track.pushed id post.seq) :
    RowChange room track track' (.tick now) (some id)
| acked
    {id : SendId}
    (hWaits : room.waiterFor id = some track.pk)
    (hPending : track.pending = true)
    (hAcked : track' = track.acked) :
    RowChange room track track' (.ack id) none
| failed
    {id : SendId}
    (hWaits : room.waiterFor id = some track.pk)
    (hPending : track.pending = true)
    (hFailed : track' = track.failed) :
    RowChange room track track' (.failed id) none

theorem tracks_getElem?
    (room : Room η)
    {row : Nat}
    (hRow : row < room.clients.length) :
    room.tracks[row]? = some (room.client row).track := by
  simp [tracks, client, hRow]

/- The first row that waits, and the key it belongs to. -/
theorem waiterFor_of_findIdx?
    {room : Room η}
    {id : SendId} {row : Nat}
    (hRow :
      room.tracks.findIdx? (Track.awaits id) = some row) :
    ∃ track,
      room.tracks[row]? = some track ∧
        track.awaits id = true ∧
        room.waiterFor id = some track.pk := by
  rcases Table.getElem?_of_findIdx? hRow with
    ⟨track, hTrack, hAwaits⟩
  refine ⟨track, hTrack, hAwaits, ?_⟩
  rw [waiterFor, List.find?_eq_bind_findIdx?_getElem?, hRow]
  simp [hTrack]

theorem waiterFor_eq_none
    {room : Room η}
    {id : SendId}
    (hNone :
      room.tracks.findIdx? (Track.awaits id) = none) :
    room.waiterFor id = none := by
  rw [waiterFor, List.find?_eq_bind_findIdx?_getElem?, hNone]
  rfl

/- A row is changed, or it is another one that is. -/
theorem trackOf_modify
    {room room' : Room η}
    (hKeys : Table.Keyed Track.pk room.tracks)
    {f : Track → Track}
    {row : Nat} {old : Track}
    (hTracks : room'.tracks = room.tracks.modify row f)
    (hKey : ∀ track, (f track).pk = track.pk)
    (hRow : room.tracks[row]? = some old)
    {pk : PublicKey} {track track' : Track}
    (hTrack : room.trackOf pk = some track)
    (hTrack' : room'.trackOf pk = some track') :
    (old = track ∧ track' = f track) ∨
      (old.pk ≠ pk ∧ track' = track) := by
  rw [trackOf, hTracks,
    Table.lookup_modify hKeys hKey hRow] at hTrack'
  split at hTrack'
  next hHere =>
    have hMember := Table.lookup_mem hTrack
    have hOld : old = track :=
      hKeys.eq_of_key (List.mem_of_getElem? hRow)
        hMember.1 ((eq_of_beq hHere).trans hMember.2.symm)
    exact .inl ⟨hOld, hOld ▸ (Option.some.inj hTrack').symm⟩
  next hElsewhere =>
    refine .inr ⟨fun hKey => hElsewhere (beq_iff_eq.mpr hKey),
      ?_⟩
    exact Option.some.inj (hTrack'.symm.trans hTrack)

/- An event that sets a bookmark tells the fate of none. -/
theorem fateOf_of_marked
    {room : Room η}
    {pk : PublicKey}
    {e : Event η} {b : UInt32}
    (hMark : room.bookmarkOf pk e = some b)
    (id : SendId) :
    e.fateOf ≠ some id := by
  cases e with
  | ack id => cases hMark
  | failed id => cases hMark
  | _ => exact nofun

/- A row that a step neither marks nor removes. -/
theorem TrackChange.rowChange
    {room room' : Room η}
    {e : Event η} {push : Option SendId}
    (hChange : TrackChange room room' e push)
    (hKeys : Table.Keyed Track.pk room.tracks)
    {pk : PublicKey} {track track' : Track}
    (hTrack : room.trackOf pk = some track)
    (hTrack' : room'.trackOf pk = some track')
    (hUnmarked : room.bookmarkOf pk e = none) :
    RowChange room track track' e push := by
  have hPk : track.pk = pk := (Table.lookup_mem hTrack).2
  cases hChange with
  | idle hTracks _ hUnknown =>
      refine .same ?_ fun id hFate => ?_
      · rw [trackOf, hTracks] at hTrack'
        exact Option.some.inj (hTrack'.symm.trans hTrack)
      · rw [waiterFor_eq_none (hUnknown id hFate)]
        nofun
  | @marked _ other row b hMark _ hRow hTracks =>
      rw [findClient_eq_findIdx] at hRow
      rcases Table.getElem?_of_findIdx? hRow with
        ⟨old, hOld, hOther⟩
      rcases trackOf_modify hKeys hTracks (fun _ => rfl)
          hOld hTrack hTrack' with
        ⟨rfl, _⟩ | ⟨_, hSame⟩
      · have hSelf : other = pk :=
          (eq_of_beq hOther).symm.trans hPk
        rw [hSelf, hUnmarked] at hMark
        cases hMark
      · exact .same hSame fun id hFate =>
          absurd hFate (fateOf_of_marked hMark id)
  | @entered _ other b kept hMark _ hNew hKept hTracks =>
      have hSub := sublist_of_kept hKept
      have hOther : other ≠ pk := by
        rintro rfl
        rw [hUnmarked] at hMark
        cases hMark
      rw [trackOf, hTracks,
        Table.lookup_append_of_ne hOther] at hTrack'
      have hKept' :=
        Table.lookup_of_sublist hKeys hSub hTrack'
      exact .same
        (Option.some.inj (hKept'.symm.trans hTrack))
        fun id hFate =>
          absurd hFate (fateOf_of_marked hMark id)
  | @pushed now row post id hRow hIdle hPost hTracks =>
      rcases trackOf_modify hKeys hTracks (fun _ => rfl)
          (tracks_getElem? room hRow) hTrack hTrack' with
        ⟨rfl, hPushed⟩ | ⟨_, hSame⟩
      · exact .pushed hIdle hPost hPushed
      · exact .same hSame nofun
  | @acked id row hRow hTracks =>
      rcases waiterFor_of_findIdx? hRow with
        ⟨old, hOld, hAwaits, hWaiter⟩
      rcases trackOf_modify hKeys hTracks (fun _ => rfl)
          hOld hTrack hTrack' with
        ⟨rfl, hAcked⟩ | ⟨hElse, hSame⟩
      · exact .acked hWaiter
          (pending_of_awaits hAwaits) hAcked
      · refine .same hSame fun other hFate => ?_
        cases hFate
        rw [hWaiter, hPk]
        exact fun hEq => hElse (Option.some.inj hEq)
  | @failed id row hRow hTracks =>
      rcases waiterFor_of_findIdx? hRow with
        ⟨old, hOld, hAwaits, hWaiter⟩
      rcases trackOf_modify hKeys hTracks (fun _ => rfl)
          hOld hTrack hTrack' with
        ⟨rfl, hFailed⟩ | ⟨hElse, hSame⟩
      · exact .failed hWaiter
          (pending_of_awaits hAwaits) hFailed
      · refine .same hSame fun other hFate => ?_
        cases hFate
        rw [hWaiter, hPk]
        exact fun hEq => hElse (Option.some.inj hEq)

theorem findClient_eq_none_iff
    (room : Room η)
    (pk : PublicKey) :
    room.findClient pk = none ↔ room.trackOf pk = none := by
  rw [findClient_eq_findIdx, trackOf, Table.lookup,
    List.findIdx?_eq_none_iff, List.find?_eq_none]
  simp

/- A row that appears is a new one, with nothing pushed. -/
theorem TrackChange.appears
    {room room' : Room η}
    {e : Event η} {push : Option SendId}
    (hChange : TrackChange room room' e push)
    (hKeys : Table.Keyed Track.pk room.tracks)
    {pk : PublicKey} {track : Track}
    (hAbsent : room.trackOf pk = none)
    (hTrack : room'.trackOf pk = some track) :
    ∃ b, room.bookmarkOf pk e = some b ∧
      track = { pk := pk, syncSeq := b } := by
  have hModify :
      ∀ {f : Track → Track} {row : Nat} {old : Track},
        room'.tracks = room.tracks.modify row f →
        (∀ track, (f track).pk = track.pk) →
        room.tracks[row]? = some old →
        False := by
    intro f row old hTracks hKey hOld
    rw [trackOf, hTracks,
      Table.lookup_modify hKeys hKey hOld] at hTrack
    have hNone := Table.lookup_eq_none_iff.mp hAbsent old
      (List.mem_of_getElem? hOld)
    rw [if_neg fun hHere => hNone (eq_of_beq hHere)]
      at hTrack
    rw [trackOf, hTrack] at hAbsent
    cases hAbsent
  cases hChange with
  | idle hTracks _ _ =>
      rw [trackOf, hTracks] at hTrack
      rw [trackOf, hTrack] at hAbsent
      cases hAbsent
  | marked _ _ hRow hTracks =>
      rw [findClient_eq_findIdx] at hRow
      rcases Table.getElem?_of_findIdx? hRow with ⟨old, hOld, _⟩
      exact (hModify hTracks (fun _ => rfl) hOld).elim
  | @entered _ other b kept hMark _ hNew hKept hTracks =>
      rw [trackOf, hTracks] at hTrack
      have hFree := lookup_kept hKeys hKept hAbsent
      by_cases hOther : other = pk
      · subst hOther
        have hSelf :
            Table.lookup Track.pk
                (kept ++ [{ pk := other, syncSeq := b }])
                other =
              some { pk := other, syncSeq := b } :=
          Table.lookup_append_self hFree
        rw [hSelf] at hTrack
        exact ⟨b, hMark, (Option.some.inj hTrack).symm⟩
      · rw [Table.lookup_append_of_ne hOther, hFree] at hTrack
        cases hTrack
  | pushed hRow _ _ hTracks =>
      exact (hModify hTracks (fun _ => rfl)
        (tracks_getElem? room hRow)).elim
  | acked hRow hTracks =>
      rcases Table.getElem?_of_findIdx? hRow with ⟨old, hOld, _⟩
      exact (hModify hTracks (fun _ => rfl) hOld).elim
  | failed hRow hTracks =>
      rcases Table.getElem?_of_findIdx? hRow with ⟨old, hOld, _⟩
      exact (hModify hTracks (fun _ => rfl) hOld).elim

/- A bookmark that a step sets is where the row stands. -/
theorem TrackChange.bookmarked
    {room room' : Room η}
    {e : Event η} {push : Option SendId}
    (hChange : TrackChange room room' e push)
    (hKeys : Table.Keyed Track.pk room.tracks)
    {pk : PublicKey} {b : UInt32}
    (hMark : room.bookmarkOf pk e = some b) :
    ∃ track,
      room'.trackOf pk = some track ∧ track.syncSeq = b := by
  cases hChange with
  | idle _ hNone _ =>
      rw [hNone pk] at hMark
      cases hMark
  | @marked _ other row b' hMark' hOthers hRow hTracks =>
      have hSelf : pk = other := by
        by_contra hOther
        rw [hOthers pk hOther] at hMark
        cases hMark
      subst hSelf
      rw [hMark] at hMark'
      cases hMark'
      rw [findClient_eq_findIdx] at hRow
      rcases Table.getElem?_of_findIdx? hRow with
        ⟨old, hOld, hHere⟩
      have hKey :
          ∀ track, (Track.marked b track).pk = track.pk :=
        fun _ => rfl
      refine ⟨old.marked b, ?_, rfl⟩
      rw [trackOf, hTracks,
        Table.lookup_modify hKeys hKey hOld, if_pos hHere]
  | @entered _ other b' kept hMark' hOthers hNew hKept
      hTracks =>
      have hSelf : pk = other := by
        by_contra hOther
        rw [hOthers pk hOther] at hMark
        cases hMark
      subst hSelf
      rw [hMark] at hMark'
      cases hMark'
      have hFree :=
        lookup_kept hKeys hKept
          ((findClient_eq_none_iff room pk).mp hNew)
      have hSelf :
          Table.lookup Track.pk
              (kept ++ [{ pk := pk, syncSeq := b }]) pk =
            some { pk := pk, syncSeq := b } :=
        Table.lookup_append_self hFree
      rw [trackOf, hTracks, hSelf]
      exact ⟨_, rfl, rfl⟩
  | pushed _ _ _ _ => cases hMark
  | acked _ _ => cases hMark
  | failed _ _ => cases hMark

/- The waiter of a send has a row. -/
theorem waiterFor_absent
    {room : Room η}
    {pk : PublicKey}
    (hAbsent : room.trackOf pk = none)
    (id : SendId) :
    room.waiterFor id ≠ some pk := by
  intro hWaiter
  rcases Option.map_eq_some_iff.mp hWaiter with
    ⟨track, hTrack, hPk⟩
  exact Table.lookup_eq_none_iff.mp hAbsent track
    (List.mem_of_find?_eq_some hTrack) hPk

end Room

end MeshCore
