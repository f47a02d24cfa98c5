import Mathlib.Algebra.Order.Ring.Nat
import MeshCore.Room.Restart
import MeshCore.Room.Sound

/-
  What a room has after a restart is what it had before, in
  any life of fewer than two to the thirty-two posts. The
  reader puts the next number behind the posts; it finds it
  there, also where the numbers have just run out.

  Key definitions include:
    * `Room.postedOver`
    * `Room.Filed`
    * `Client.onFile`

  Key facts include:
    * `Room.nextSeqAfter_of_ahead`
    * `Room.nextSeqAfter_of_behind`
    * `Room.Filed.run`
    * `Room.state_survives_restart`
-/

namespace MeshCore

/- What a file says of a client. -/
def Client.onFile (client : Client) :
    PublicKey × Access × UInt32 × UInt32 :=
  (client.pk, client.access, client.syncSeq,
    client.lastLogin)

namespace Room

variable {η : Type}

------------------------------------------------------------
-- The Next Number
------------------------------------------------------------

/- A number that is ahead of the posts is left alone. -/
theorem nextSeqAfter_of_ahead
    {next : UInt32} {posts : List Post}
    (hAhead : ∀ post ∈ posts, post.seq < next) :
    nextSeqAfter next posts = next := by
  induction posts with
  | nil => rfl
  | cons post posts ih =>
      have hFirst := hAhead post List.mem_cons_self
      rw [nextSeqAfter, List.foldl_cons,
        if_neg (UInt32.not_le.mpr hFirst)]
      exact ih fun other hOther =>
        hAhead other (List.mem_cons_of_mem _ hOther)

/- One that is behind the first comes after the last. -/
theorem nextSeqAfter_of_behind
    {next : UInt32} {first : Post} {posts : List Post}
    (hBehind : next ≤ first.seq)
    (hAscending :
      (first :: posts).Pairwise (·.seq < ·.seq)) :
    nextSeqAfter next (first :: posts) =
      ((first :: posts).getLast nofun).seq + 1 := by
  induction posts generalizing next first with
  | nil =>
      rw [nextSeqAfter, List.foldl_cons, if_pos hBehind]
      rfl
  | cons post posts ih =>
      rw [List.pairwise_cons] at hAscending
      have hNext :=
        hAscending.1 post List.mem_cons_self
      have hStep : first.seq + 1 ≤ post.seq := by
        rw [UInt32.lt_iff_toNat_lt] at hNext
        have hMax := UInt32.toNat_lt post.seq
        rw [UInt32.le_iff_toNat_le, UInt32.toNat_add,
          UInt32.toNat_one, Nat.mod_eq_of_lt (by omega)]
        exact hNext
      rw [nextSeqAfter, List.foldl_cons, if_pos hBehind,
        List.getLast_cons_cons]
      exact ih hStep hAscending.2

------------------------------------------------------------
-- Rooms That Are On File
------------------------------------------------------------

/- A sound room that has made the last of its posts last. -/
structure Filed (n : Nat) (room : Room η) : Prop where
  sound : Sound n room
  stocked : room.Stocked
  latest :
    ∀ post ∈ room.posts.getLast?, post.seq.toNat = n

theorem filed_create
    (config : RoomConfig η)
    (host : η) :
    Filed 0 (create config host) where
  sound := sound_create config host
  stocked := stocked_create config host
  latest := by simp [create]

/- The number that is read back is the one written. -/
theorem Filed.nextSeqAfter_eq
    {n : Nat} {room : Room η}
    (hFiled : Filed n room)
    (hRoom : n < 2 ^ 32) :
    nextSeqAfter room.nextSeq room.posts = room.nextSeq := by
  have hNext := hFiled.sound.nextSeq
  by_cases hLeft : n + 1 < 2 ^ 32
  · apply nextSeqAfter_of_ahead
    intro post hPost
    have hNumber := hFiled.sound.numbered post hPost
    rw [UInt32.lt_iff_toNat_lt, hNext,
      UInt32.toNat_ofNat_of_lt' hLeft]
    omega
  · -- the numbers have run out, and the next one is zero
    have hOut : n + 1 = 2 ^ 32 := by omega
    have hZero : room.nextSeq = 0 := by
      rw [hNext, hOut]
      rfl
    cases hPosts : room.posts with
    | nil => rfl
    | cons first posts =>
        have hAscending := hFiled.sound.ascending
        have hLatest := hFiled.latest
        rw [hPosts] at hAscending hLatest
        have hLast :=
          hLatest _ (List.getLast?_eq_some_getLast
            (List.cons_ne_nil first posts))
        rw [nextSeqAfter_of_behind
            (by rw [hZero]; exact UInt32.zero_le) hAscending,
          hZero]
        apply UInt32.toNat_inj.mp
        rw [UInt32.toNat_add, hLast, UInt32.toNat_one, hOut]
        rfl

theorem Filed.reboot_eq
    {n : Nat} {room : Room η}
    (hFiled : Filed n room)
    (hRoom : n < 2 ^ 32)
    (config : RoomConfig η)
    (host : η) :
    room.reboot config host =
      { create config host with
        posts := room.posts
        clients := room.clients.map Client.restored
        nextSeq := room.nextSeq } := by
  rw [Room.reboot_eq hFiled.stocked.storable,
    hFiled.nextSeqAfter_eq hRoom]

/- A restart only forgets what is in flight. -/
theorem Sound.restored
    {n : Nat} {room : Room η}
    (hSound : Sound n room)
    (config : RoomConfig η)
    (host : η) :
    Sound n
      { create config host with
        posts := room.posts
        clients := room.clients.map Client.restored
        nextSeq := room.nextSeq } where
  nextSeq := hSound.nextSeq
  numbered := hSound.numbered
  ascending := hSound.ascending
  keys := by
    have hKeys := hSound.keys
    rw [Table.Keyed, tracks, List.map_map] at hKeys ⊢
    rw [List.map_map]
    exact hKeys
  behind := by
    intro track hTrack
    rw [tracks, List.map_map] at hTrack
    rcases List.mem_map.mp hTrack with
      ⟨client, hClient, rfl⟩
    exact hSound.behind client.track
      (List.mem_map_of_mem hClient)
  inFlight := by
    intro track hTrack hPending
    rw [tracks, List.map_map] at hTrack
    rcases List.mem_map.mp hTrack with
      ⟨client, hClient, rfl⟩
    cases hPending

section Lives

variable [CryptoCore]

/- How many posts one step of a life makes. -/
def postedBy (t : Transition (Room η) (Life η)) : Nat :=
  match t.event with
  | .event e calls =>
      postedIn [⟨t.before, (e, calls), t.after⟩]
  | .reboot _ _ => 0

def postedOver (ts : List (Transition (Room η) (Life η))) :
    Nat :=
  (ts.map postedBy).sum

/- The last post on the board is the last one made. -/
theorem latest_step
    {n : Nat}
    {room room' : Room η}
    {e : Event η} {calls : Calls}
    (hFiled : Filed n room)
    (hStep : Step room (e, calls) room')
    (hRoom :
      n + postedIn [⟨room, (e, calls), room'⟩] < 2 ^ 32) :
    ∀ post ∈ room'.posts.getLast?,
      post.seq.toNat =
        n + postedIn [⟨room, (e, calls), room'⟩] := by
  have hBoard := (step_changes hStep).1
  rw [postedIn_singleton] at hRoom ⊢
  intro post hLast
  cases hPosted : room.postOf e with
  | none =>
      rw [hPosted] at hBoard
      simp only [made, hPosted, Option.map_none,
        Option.toList_none, List.length_nil, Nat.add_zero]
      cases hBoard with
      | same hPosts _ =>
          rw [hPosts] at hLast
          exact hFiled.latest post hLast
      | cleared hPosts _ => simp [hPosts] at hLast
  | some posted =>
      rcases posted with ⟨pk, message⟩
      rw [hPosted] at hBoard
      simp only [made, hPosted, Option.map_some,
        Option.toList_some, List.length_singleton]
        at hRoom ⊢
      cases hBoard with
      | posted hPosts _ =>
          rw [hPosts, addPost, List.getLast?_concat,
            Option.mem_some_iff] at hLast
          rw [← hLast, makePost, hFiled.sound.nextSeq]
          exact UInt32.toNat_ofNat_of_lt' hRoom

/- The step lemma: what is on file stays so. -/
theorem Filed.step
    {n : Nat}
    {t : Transition (Room η) (Life η)}
    (hFiled : Filed n t.before)
    (hStep : Lives t.before t.event t.after)
    (hRoom : n + postedBy t < 2 ^ 32) :
    Filed (n + postedBy t) t.after := by
  have hStocked := lives_stocked hFiled.stocked hStep
  rcases t with ⟨room, l, room'⟩
  cases l with
  | event e calls =>
      exact
        { sound := hFiled.sound.step hStep hRoom
          stocked := hStocked
          latest := latest_step hFiled hStep hRoom }
  | reboot config host =>
      have hIs : room' = _ :=
        Eq.trans hStep (hFiled.reboot_eq hRoom config host)
      refine ⟨?_, hStocked, ?_⟩
      · dsimp only
        rw [hIs]
        exact hFiled.sound.restored config host
      · dsimp only
        rw [hIs]
        exact hFiled.latest

/- The run lemma. -/
theorem Filed.run
    {n : Nat}
    {start room : Room η}
    {ts : List (Transition (Room η) (Life η))}
    (hFiled : Filed n start)
    (hRun : Run Lives start ts room)
    (hRoom : n + postedOver ts < 2 ^ 32) :
    Filed (n + postedOver ts) room := by
  induction hRun with
  | start => exact hFiled
  | @step ts s s' l hRun hStep ih =>
      rw [postedOver, List.map_append, List.sum_append]
        at hRoom ⊢
      rw [List.map_singleton, List.sum_singleton,
        ← Nat.add_assoc] at hRoom ⊢
      have hFiled' := ih (by rw [postedOver]; omega)
      exact hFiled'.step hStep hRoom

/-
  Whatever a room has been through, restarts included, the
  file that it writes is accepted and gives its posts, its
  next number and its clients back.
-/
theorem state_survives_restart
    {config : RoomConfig η} {host : η}
    {ts : List (Transition (Room η) (Life η))}
    {room : Room η}
    (hRun : Run Lives (create config host) ts room)
    (hRoom : postedOver ts < 2 ^ 32)
    (fresh : Room η) :
    ∃ loaded,
      fresh.readState room.writeState = some loaded ∧
        loaded.posts = room.posts ∧
        loaded.nextSeq = room.nextSeq ∧
        loaded.clients.map Client.onFile =
          room.clients.map Client.onFile := by
  have hFiled :=
    (filed_create config host).run hRun (by omega)
  refine ⟨_,
    readState_writeState hFiled.stocked.storable fresh,
    rfl, ?_, ?_⟩
  · exact hFiled.nextSeqAfter_eq (by omega)
  · rw [List.map_map]
    rfl

end Lives

section Example

open Sample

/- Two posts, with a restart between and one after them. -/
def rememberedLife :
    List (Transition (Room Unit) (Life Unit)) :=
  lifetime numbering (quietRoom, 1)
    [some (loginOf 1 5 0), some (messageOf 1 9 (ascii "x")),
      none, some (messageOf 1 10 (ascii "y")), none]

theorem remembered_posts_survive :
    ∃ room loaded,
      Run Lives quietRoom rememberedLife room ∧
        quietRoom.readState room.writeState = some loaded ∧
        loaded.posts = room.posts ∧
        loaded.nextSeq = room.nextSeq := by
  rcases run_lifetime numbering (quietRoom, 1) _ with
    ⟨room, hRun⟩
  have hWhole :
      Run Lives
        (create { guestPassword := ascii "g" } ())
        rememberedLife room :=
    hRun
  have hFew : postedOver rememberedLife < 2 ^ 32 := by
    decide +kernel
  rcases state_survives_restart hWhole hFew quietRoom with
    ⟨loaded, hLoaded, hPosts, hNext, -⟩
  exact ⟨room, loaded, hWhole, hLoaded, hPosts, hNext⟩

/- Both of the posts are made. -/
example : postedOver rememberedLife = 2 := by
  decide +kernel

end Example

end Room

end MeshCore
