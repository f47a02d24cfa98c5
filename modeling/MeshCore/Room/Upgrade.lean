import Mathlib.Data.List.TakeWhile
import MeshCore.Room.Loading

/-
  What becomes of a file of version 1, which knew the times
  of its posts and no numbers. The posts are numbered as
  they stand, and the time up to which a client had read is
  turned into the number it had read up to.

  Key definitions include:
    * `Room.firstPostBytes`, `Room.firstFileBytes`
    * `Room.Upgraded`

  Key facts include:
    * `Room.readPosts_first`
    * `Room.le_seqFromTimestamp`
    * `Room.seqFromTimestamp_lt`
    * `Room.upgrade_loses_no_post`
-/

namespace MeshCore

namespace Room

variable {η : Type}

------------------------------------------------------------
-- The File
------------------------------------------------------------

/- A post of version 1 has no number. -/
def firstPostBytes (post : Post) : Bytes :=
  writeUint32 post.timestamp ++
    (post.author.toList ++
      UInt8.ofNat post.text.length :: post.text)

/-
  A file of version 1. The bookmark of a client is written
  where its number is now, and is a time.
-/
def firstFileBytes
    (posts : List Post)
    (clients : List Client) :
    Bytes :=
  1 :: UInt8.ofNat posts.length ::
    (posts.flatMap firstPostBytes ++
      UInt8.ofNat clients.length ::
        clients.flatMap clientBytes)

/- A post of version 1 is spelled out but for its number. -/
theorem readPost_first
    {next next' : UInt32} {view rest : Bytes} {post : Post}
    (hRead :
      readPost 1 (next, view) = some (post, next', rest)) :
    view = firstPostBytes post ++ rest := by
  unfold readPost at hRead
  simp only [show ¬ (2 : UInt8) ≤ 1 from by decide,
    if_false, List.drop_zero] at hRead
  split_ifs at hRead with hShort hText
  cases hRead
  rw [not_or, Nat.not_lt, Nat.not_lt] at hText
  rw [Nat.not_lt, Nat.zero_add] at hShort
  have hSpelled := body_spelled hShort
  dsimp only at hSpelled
  generalize (view.drop 4).drop postAuthorPrefix = text at *
  have hLength :
      ((text.drop 1).take (text.getD 0 0).toNat).length =
        (text.getD 0 0).toNat :=
    List.length_take_of_le hText.2
  simp only [firstPostBytes, hLength, UInt8.ofNat_toNat,
    List.append_assoc, List.cons_append,
    List.take_append_drop]
  exact hSpelled

theorem readPosts_first
    {n : Nat} {next next' : UInt32} {view rest : Bytes}
    {posts : List Post}
    (hRead :
      readMany (readPost 1) n (next, view) =
        some (posts, next', rest)) :
    view = posts.flatMap firstPostBytes ++ rest := by
  have hAll :=
    readMany_induct
      (P := fun s posts s' =>
        s.2 = posts.flatMap firstPostBytes ++ s'.2)
      (fun _ => rfl)
      (by
        rintro ⟨next, view⟩ post ⟨next', view'⟩ posts s
          hFirst hView
        rw [List.flatMap_cons, List.append_assoc, ← hView]
        exact readPost_first hFirst)
      hRead
  exact hAll.2

------------------------------------------------------------
-- The Bookmarks
------------------------------------------------------------

section Bookmark

variable {room : Room η} {time : UInt32} {post : Post}

/- What comes before the first younger post counts as read. -/
theorem le_seqFromTimestamp
    (hAscending : room.posts.Pairwise (·.seq < ·.seq))
    (hPost :
      post ∈ room.posts.takeWhile (·.timestamp ≤ time)) :
    post.seq ≤ room.seqFromTimestamp time := by
  have hOld :
      (room.posts.takeWhile (·.timestamp ≤ time)).Pairwise
        (·.seq < ·.seq) :=
    hAscending.sublist (List.takeWhile_sublist _)
  unfold seqFromTimestamp
  generalize room.posts.takeWhile (·.timestamp ≤ time) = old
    at *
  induction old using List.reverseRecOn with
  | nil => simp at hPost
  | append_singleton old last _ =>
      rw [List.getLast?_concat]
      rcases List.mem_append.mp hPost with hPost | hPost
      · have hBefore :=
          (List.pairwise_append.mp hOld).2.2 post hPost last
            (List.mem_singleton_self last)
        exact UInt32.le_of_lt hBefore
      · rw [List.mem_singleton.mp hPost]
        exact UInt32.le_refl last.seq

/- From the first younger post on nothing does. -/
theorem seqFromTimestamp_lt
    (hAscending : room.posts.Pairwise (·.seq < ·.seq))
    (hNumbered : 0 < post.seq)
    (hPost :
      post ∈ room.posts.dropWhile (·.timestamp ≤ time)) :
    room.seqFromTimestamp time < post.seq := by
  rw [← List.takeWhile_append_dropWhile
    (p := fun post : Post => decide (post.timestamp ≤ time))
    (l := room.posts)] at hAscending
  have hBefore := (List.pairwise_append.mp hAscending).2.2
  unfold seqFromTimestamp
  cases hLast :
      (room.posts.takeWhile (·.timestamp ≤ time)).getLast? with
  | none => exact hNumbered
  | some last =>
      exact hBefore last (List.mem_of_getLast? hLast) post
        hPost

/- A younger post is not before the first younger one. -/
theorem mem_dropWhile_of_younger
    (hPost : post ∈ room.posts)
    (hYounger : time < post.timestamp) :
    post ∈ room.posts.dropWhile (·.timestamp ≤ time) := by
  rw [← List.takeWhile_append_dropWhile
    (p := fun post : Post => decide (post.timestamp ≤ time))
    (l := room.posts)] at hPost
  refine (List.mem_append.mp hPost).resolve_left ?_
  intro hOld
  have hLe := List.mem_takeWhile_imp hOld
  rw [decide_eq_true_eq] at hLe
  exact absurd hYounger (UInt32.not_lt.mpr hLe)

end Bookmark

------------------------------------------------------------
-- The Upgrade
------------------------------------------------------------

/-
  A client of the file, whose bookmark is a time, and what
  is made of it: it is still offered all that is younger,
  unless it wrote that itself, and nothing again of what
  stands before the first younger post.
-/
structure Upgraded
    (posts : List Post)
    (old new : Client) :
    Prop where
  others : new = { old with syncSeq := new.syncSeq }
  unread :
    ∀ post ∈ posts, old.syncSeq < post.timestamp →
      new.syncSeq < post.seq
  offered :
    ∀ post ∈ posts, old.syncSeq < post.timestamp →
      (post.isNewFor new ↔
        post.author ≠ authorPrefixOf new.pk)
  read :
    ∀ before post after,
      posts = before ++ post :: after →
        (∀ earlier ∈ before,
          earlier.timestamp ≤ old.syncSeq) →
          post.timestamp ≤ old.syncSeq →
            post.seq ≤ new.syncSeq ∧ ¬ post.isNewFor new

theorem upgraded_convert
    {room : Room η}
    (hAscending : room.posts.Pairwise (·.seq < ·.seq))
    (hNumbered : ∀ post ∈ room.posts, 0 < post.seq)
    (client : Client) :
    Upgraded room.posts client
      { client with
        syncSeq := room.seqFromTimestamp client.syncSeq } := by
  have hUnread :
      ∀ post ∈ room.posts,
        client.syncSeq < post.timestamp →
          room.seqFromTimestamp client.syncSeq <
            post.seq := by
    intro post hPost hYounger
    exact seqFromTimestamp_lt hAscending
      (hNumbered post hPost)
      (mem_dropWhile_of_younger hPost hYounger)
  refine ⟨rfl, hUnread, ?_, ?_⟩
  · intro post hPost hYounger
    simp [Post.isNewFor, hUnread post hPost hYounger]
  · intro before post after hPosts hBefore hOld
    have hRead :
        post.seq ≤ room.seqFromTimestamp client.syncSeq := by
      apply le_seqFromTimestamp hAscending
      rw [hPosts, List.takeWhile_append_of_pos
        (fun earlier hEarlier => by
          simpa using hBefore earlier hEarlier),
        List.takeWhile_cons_of_pos (by simpa using hOld)]
      simp
    refine ⟨hRead, ?_⟩
    simp [Post.isNewFor, UInt32.not_lt.mpr hRead]

theorem ascending_of_numbered
    {posts : List Post} {n : Nat}
    (hNumbers : posts.map (·.seq.toNat) = List.range' 1 n) :
    posts.Pairwise (·.seq < ·.seq) := by
  have hRow : (posts.map (·.seq.toNat)).Pairwise (· < ·) := by
    rw [hNumbers]
    exact List.pairwise_lt_range'
  rw [List.pairwise_map] at hRow
  exact hRow

theorem pos_of_numbered
    {posts : List Post} {n : Nat}
    (hNumbers : posts.map (·.seq.toNat) = List.range' 1 n) :
    ∀ post ∈ posts, 0 < post.seq := by
  intro post hPost
  have hMem := List.mem_map_of_mem (f := (·.seq.toNat)) hPost
  rw [hNumbers, List.mem_range'_1] at hMem
  exact hMem.1

/-
  Whatever is accepted as a file of version 1 is one, posts
  and clients in turn. The posts have the numbers from one
  on, the next is one more than they are, and every client
  of the file is upgraded with the posts as they stand.
-/
theorem upgrade_loses_no_post
    {room loaded : Room η} {blob : Bytes}
    (hRead : room.readState blob = some loaded)
    (hFirst : blob.head? = some 1) :
    ∃ clients rest,
      blob = firstFileBytes loaded.posts clients ++ rest ∧
        loaded.posts.map (·.seq.toNat) =
          List.range' 1 loaded.posts.length ∧
        loaded.nextSeq.toNat = loaded.posts.length + 1 ∧
        List.Forall₂ (Upgraded loaded.posts) clients
          loaded.clients := by
  have hLoaded := loaded_of_readState hRead
  rcases hLoaded.numbered hFirst with ⟨hNumbers, hAhead, _⟩
  rcases readState_eq_some hRead with
    ⟨version, body, header, posts, next, clients, rfl, _,
      hParsed, hEq⟩
  rw [List.head?_cons, Option.some.injEq] at hFirst
  subst hFirst
  have hNew : (1 : UInt8) < 2 := by decide
  rw [convertBookmarks, if_pos hNew] at hEq
  cases hParsed with
  | @intro _ _ _ n k counted written known kept rest
      hHeader hCount hPosts hKnown hClients =>
      rw [readNextSeq, if_neg (by decide)] at hHeader
      cases hHeader
      rcases readCount_spelled hCount with ⟨hCounted, hMany⟩
      rcases readCount_spelled hKnown with ⟨hKnew, _⟩
      rcases readClients_spelled hClients with
        ⟨hCard, hKept⟩
      have hFew : (1 : UInt32).toNat + n < 2 ^ 32 := by
        rw [UInt32.toNat_one]
        simp only [maxPosts] at hMany
        omega
      rcases readPosts_numbered hPosts hFew with
        ⟨hLength, hNext, hSeqs, _⟩
      subst hLength hCard
      rw [UInt32.toNat_one] at hNext hSeqs
      have hSame : nextSeqAfter next posts = next :=
        nextSeqAfter_of_ahead
          (seq_lt_of_numbered hSeqs hNext)
      subst hEq
      refine ⟨clients, rest, ?_, hNumbers, ?_, ?_⟩
      · rw [firstFileBytes, hCounted, readPosts_first hPosts,
          hKnew, hKept]
        simp only [List.cons_append, List.append_assoc]
      · dsimp only
        rw [hSame, hNext, Nat.add_comm]
      · rw [List.forall₂_map_right_iff, List.forall₂_same]
        exact fun client _ =>
          upgraded_convert
            (ascending_of_numbered hSeqs)
            (pos_of_numbered hSeqs)
            client

section Example

open Sample

/- The second post is younger than the third. -/
def oldPosts : List Post :=
  [{ samplePost 1 with timestamp := 5 },
    { samplePost 2 with timestamp := 9 },
    { samplePost 3 with timestamp := 7 }]

/- A client that had read up to the time of the third. -/
def oldClient : Client :=
  { pk := key 2
    syncSeq := 7 }

theorem older_post_is_still_offered :
    ∃ loaded clients rest,
      quietRoom.readState
          (firstFileBytes oldPosts [oldClient]) =
        some loaded ∧
      firstFileBytes oldPosts [oldClient] =
        firstFileBytes loaded.posts clients ++ rest ∧
      List.Forall₂ (Upgraded loaded.posts) clients
        loaded.clients ∧
      loaded.clients.map (·.syncSeq) = [1] := by
  have hSome :
      ((quietRoom.readState
          (firstFileBytes oldPosts [oldClient])).map
            fun room => room.clients.map (·.syncSeq)) =
        some [1] := by
    decide +kernel
  rcases Option.map_eq_some_iff.mp hSome with
    ⟨loaded, hRead, hSync⟩
  rcases upgrade_loses_no_post hRead rfl with
    ⟨clients, rest, hFile, _, _, hUpgraded⟩
  exact ⟨loaded, clients, rest, hRead, hFile, hUpgraded,
    hSync⟩

end Example

end Room

end MeshCore
