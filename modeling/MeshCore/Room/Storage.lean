import MeshCore.Room.Service

/-
  What a room keeps on disk, and what it is after it was
  loaded again.

  The file is read from the front; a reader takes what it
  needs and leaves the rest.

  Key definitions include:
    * `Room.writeState`, `Room.readState`
    * `Room.load`, `Room.reboot`
    * `Room.Storable`
    * `Client.restored`

  Key facts include:
    * `Room.readState_writeState`
    * `Room.reboot_eq`
-/

namespace MeshCore

namespace Room

variable {η : Type}

------------------------------------------------------------
-- Writing
------------------------------------------------------------

def postBytes (post : Post) : Bytes :=
  writeUint32 post.seq ++ writeUint32 post.timestamp ++
    post.author.toList ++
    UInt8.ofNat post.text.length :: post.text

def clientBytes (client : Client) : Bytes :=
  client.pk.toList ++
    client.access.value ::
      (writeUint32 client.syncSeq ++
        writeUint32 client.lastLogin)

/- The whole file, which is written anew every time. -/
def writeState (room : Room η) : Bytes :=
  roomFormatVersion ::
    (writeUint32 room.nextSeq ++
      UInt8.ofNat room.posts.length ::
        (room.posts.flatMap postBytes ++
          UInt8.ofNat room.clients.length ::
            room.clients.flatMap clientBytes))

------------------------------------------------------------
-- Reading
------------------------------------------------------------

/- As many records as were counted, or none at all. -/
def readMany
    {α σ : Type}
    (read : σ → Option (α × σ)) :
    Nat → σ → Option (List α × σ)
| 0, s => some ([], s)
| n + 1, s => do
    let (a, s) ← read s
    let (more, s) ← readMany read n s
    return (a :: more, s)

def readCount
    (limit : Nat)
    (view : Bytes) :
    Option (Nat × Bytes) :=
  match view with
  | [] => none
  | count :: view =>
      if limit < count.toNat then none
      else some (count.toNat, view)

/- Version 1 knew no sequence numbers. -/
def readNextSeq
    (version : UInt8)
    (view : Bytes) :
    Option (UInt32 × Bytes) :=
  if 2 ≤ version then
    if view.length < 4 then none
    else some (readUint32 view 0, view.drop 4)
  else some (1, view)

/- The number of a post of version 1 is the next one. -/
def readPost
    (version : UInt8) :
    UInt32 × Bytes → Option (Post × UInt32 × Bytes)
| (nextSeq, view) =>
    let seqSize := if 2 ≤ version then 4 else 0
    if view.length < seqSize + 4 + postAuthorPrefix + 1 then
      none
    else
      let (seq, nextSeq) :=
        if 2 ≤ version then (readUint32 view 0, nextSeq)
        else (nextSeq, nextSeq + 1)
      let view := view.drop seqSize
      let timestamp := readUint32 view 0
      let view := view.drop 4
      let author := copyInto postAuthorPrefix view
      let view := view.drop postAuthorPrefix
      let length := (view.getD 0 0).toNat
      let view := view.drop 1
      if maxPostText < length ∨ view.length < length then
        none
      else
        some
          ({ seq := seq
             timestamp := timestamp
             author := author
             text := view.take length },
            nextSeq, view.drop length)

def readClient (view : Bytes) : Option (Client × Bytes) :=
  if view.length < packetPublicKeySize + 1 + 4 + 4 then none
  else
    let pk := copyInto packetPublicKeySize view
    let view := view.drop packetPublicKeySize
    let access := Access.ofByte (view.getD 0 0)
    let view := view.drop 1
    let syncSeq := readUint32 view 0
    let view := view.drop 4
    let lastLogin := readUint32 view 0
    some
      ({ pk := pk
         access := access
         syncSeq := syncSeq
         lastLogin := lastLogin },
        view.drop 4)

/- Never behind the posts, whatever the header claimed. -/
def nextSeqAfter
    (nextSeq : UInt32)
    (posts : List Post) :
    UInt32 :=
  posts.foldl
    (fun next post =>
      if next ≤ post.seq then post.seq + 1 else next)
    nextSeq

/- A bookmark of version 1 is a timestamp. -/
def convertBookmarks
    (room : Room η)
    (version : UInt8) :
    Room η :=
  if version < 2 then
    { room with
      clients :=
        room.clients.map fun client =>
          { client with
            syncSeq :=
              room.seqFromTimestamp client.syncSeq } }
  else room

def readState
    (room : Room η)
    (blob : Bytes) :
    Option (Room η) :=
  if blob.length < 2 then none
  else
    let version := blob.getD 0 0
    if version < roomFormatMinVersion ∨
        roomFormatVersion < version then
      none
    else do
      let (nextSeq, view) ←
        readNextSeq version (blob.drop 1)
      let (postCount, view) ← readCount maxPosts view
      let (posts, nextSeq, view) ←
        readMany (readPost version) postCount (nextSeq, view)
      let (clientCount, view) ←
        readCount maxRoomClients view
      let (clients, _) ←
        readMany readClient clientCount view
      return { room with
        posts := posts
        clients := clients
        nextSeq := nextSeqAfter nextSeq posts
        nextClientIdx := 0 }.convertBookmarks version

/- Without a file nothing was saved yet, which is fine. -/
def load
    (room : Room η)
    (saved : Option Bytes) :
    Bool × Room η :=
  match saved with
  | none => (true, room)
  | some blob =>
      match room.readState blob with
      | none => (false, room)
      | some room => (true, room)

/- A room is flushed, and a new one is loaded from that. -/
def reboot
    (room : Room η)
    (config : RoomConfig η)
    (host : η) :
    Room η :=
  ((create config host).load (some room.writeState)).2

------------------------------------------------------------
-- Reading Back
------------------------------------------------------------

/- What the file has room for; every room is like that. -/
structure Storable (room : Room η) : Prop where
  posts : room.posts.length ≤ maxPosts
  texts :
    ∀ post ∈ room.posts, post.text.length ≤ maxPostText
  clients : room.clients.length ≤ maxRoomClients

theorem storable_create (config : RoomConfig η) (host : η) :
    (create config host).Storable :=
  ⟨Nat.zero_le _, nofun, Nat.zero_le _⟩

end Room

/- What a file keeps of a client. -/
def Client.restored (client : Client) : Client :=
  { pk := client.pk
    access := client.access
    syncSeq := client.syncSeq
    lastLogin := client.lastLogin }

namespace Room

variable {η : Type}

/-
  Records are read back in order, where one record is, and
  leaves the state as it is without it.
-/
theorem readMany_written
    {α β σ : Type}
    {read : σ → Option (β × σ)}
    {put : α → σ → σ}
    {f : α → β}
    {as : List α}
    (hRead :
      ∀ a ∈ as, ∀ s, read (put a s) = some (f a, s))
    (s : σ) :
    readMany read as.length (as.foldr put s) =
      some (as.map f, s) := by
  induction as with
  | nil => rfl
  | cons a as ih =>
      have hFirst :=
        hRead a List.mem_cons_self (as.foldr put s)
      have hRest := ih fun b hb =>
        hRead b (List.mem_cons_of_mem _ hb)
      rw [List.length_cons, readMany, List.foldr_cons,
        hFirst, Option.bind_eq_bind, Option.bind_some]
      simp only [hRest, Option.bind_eq_bind,
        Option.bind_some]
      rfl

theorem readPost_postBytes
    {post : Post}
    (hText : post.text.length ≤ maxPostText)
    (nextSeq : UInt32)
    (rest : Bytes) :
    readPost roomFormatVersion
        (nextSeq, postBytes post ++ rest) =
      some (post, nextSeq, rest) := by
  have hLength :
      (UInt8.ofNat post.text.length).toNat =
        post.text.length := by
    rw [UInt8.toNat_ofNat']
    simp only [maxPostText] at hText
    omega
  have hVersion : (2 : UInt8) ≤ roomFormatVersion := by
    decide
  have hSize :
      ¬ (postBytes post ++ rest).length <
        4 + 4 + postAuthorPrefix + 1 := by
    have hAuthor := post.author.length_toList
    simp only [postBytes, List.length_append,
      length_writeUint32, List.length_cons, hAuthor]
    omega
  have hFits :
      ¬ (maxPostText < post.text.length ∨
        (post.text ++ rest).length < post.text.length) := by
    rw [List.length_append]
    omega
  unfold readPost
  simp only [if_pos hVersion, if_neg hSize]
  simp only [postBytes, List.append_assoc,
    List.cons_append, drop_writeUint32,
    readUint32_writeUint32, copyInto_toList_append,
    drop_toList,
    List.getD_cons_zero, hLength, List.drop_succ_cons,
    List.drop_zero, if_neg hFits, List.take_left,
    List.drop_left]

theorem readClient_clientBytes
    (client : Client)
    (rest : Bytes) :
    readClient (clientBytes client ++ rest) =
      some (client.restored, rest) := by
  have hSize :
      ¬ (clientBytes client ++ rest).length <
        packetPublicKeySize + 1 + 4 + 4 := by
    simp [clientBytes]
    omega
  unfold readClient
  simp only [if_neg hSize]
  simp only [clientBytes, List.append_assoc,
    List.cons_append, drop_writeUint32,
    readUint32_writeUint32, copyInto_toList_append,
    drop_toList,
    List.getD_cons_zero, List.drop_succ_cons,
    List.drop_zero, Access.ofByte_value, Client.restored]

theorem readPosts_written
    {posts : List Post}
    (hTexts :
      ∀ post ∈ posts, post.text.length ≤ maxPostText)
    (nextSeq : UInt32)
    (rest : Bytes) :
    readMany (readPost roomFormatVersion) posts.length
        (nextSeq, posts.flatMap postBytes ++ rest) =
      some (posts, nextSeq, rest) := by
  have hPut :
      posts.foldr
          (fun post s => (s.1, postBytes post ++ s.2))
          (nextSeq, rest) =
        (nextSeq, posts.flatMap postBytes ++ rest) := by
    clear hTexts
    induction posts with
    | nil => rfl
    | cons post posts ih =>
        rw [List.foldr_cons, ih, List.flatMap_cons,
          List.append_assoc]
  have hRead :
      readMany (readPost roomFormatVersion) posts.length
          (posts.foldr
            (fun post s => (s.1, postBytes post ++ s.2))
            (nextSeq, rest)) =
        some (posts.map id, nextSeq, rest) :=
    readMany_written
      (fun post hPost s =>
        readPost_postBytes (hTexts post hPost) s.1 s.2)
      (nextSeq, rest)
  rw [hPut, List.map_id] at hRead
  exact hRead

theorem readClients_written
    (clients : List Client) :
    readMany readClient clients.length
        (clients.flatMap clientBytes) =
      some (clients.map Client.restored, []) := by
  have hPut :
      clients.foldr
          (fun client rest => clientBytes client ++ rest)
          [] =
        clients.flatMap clientBytes := by
    induction clients with
    | nil => rfl
    | cons client clients ih =>
        rw [List.foldr_cons, ih, List.flatMap_cons]
  rw [← hPut]
  exact readMany_written
    (fun client _ rest => readClient_clientBytes client rest)
    []

theorem readCount_ofNat
    {n limit : Nat}
    (hCount : n ≤ limit)
    (hLimit : limit < 256)
    (rest : Bytes) :
    readCount limit (UInt8.ofNat n :: rest) =
      some (n, rest) := by
  have hByte : (UInt8.ofNat n).toNat = n := by
    rw [UInt8.toNat_ofNat']
    omega
  rw [readCount, hByte, if_neg (by omega)]

/- What was written is read back, by any room. -/
theorem readState_writeState
    {room : Room η}
    (hStorable : room.Storable)
    (fresh : Room η) :
    fresh.readState room.writeState =
      some
        { fresh with
          posts := room.posts
          clients := room.clients.map Client.restored
          nextSeq := nextSeqAfter room.nextSeq room.posts
          nextClientIdx := 0 } := by
  have hLong : ¬ room.writeState.length < 2 := by
    simp only [writeState, List.length_cons,
      List.length_append, length_writeUint32]
    omega
  have hVersion :
      ¬ (roomFormatVersion < roomFormatMinVersion ∨
        roomFormatVersion < roomFormatVersion) := by
    decide
  have hNew : (2 : UInt8) ≤ roomFormatVersion := by decide
  have hNotOld : ¬ roomFormatVersion < 2 := by decide
  have hSeq :
      ∀ rest : Bytes,
        ¬ (writeUint32 room.nextSeq ++ rest).length < 4 := by
    intro rest
    simp
  have hPosts :=
    readCount_ofNat hStorable.posts (by decide)
  have hClients :=
    readCount_ofNat hStorable.clients (by decide)
  unfold readState
  rw [if_neg hLong]
  simp only [writeState, List.getD_cons_zero,
    if_neg hVersion, List.drop_succ_cons, List.drop_zero,
    readNextSeq, if_pos hNew, if_neg (hSeq _),
    drop_writeUint32, readUint32_writeUint32, hPosts,
    readPosts_written hStorable.texts, hClients,
    readClients_written, Option.bind_eq_bind,
    Option.bind_some, convertBookmarks, if_neg hNotOld]
  rfl

/-
  A reboot keeps the posts, and of every client its key, its
  rights, its bookmark and its last login.
-/
theorem reboot_eq
    {room : Room η}
    (hStorable : room.Storable)
    (config : RoomConfig η)
    (host : η) :
    room.reboot config host =
      { create config host with
        posts := room.posts
        clients := room.clients.map Client.restored
        nextSeq := nextSeqAfter room.nextSeq room.posts } := by
  unfold reboot load
  simp only [readState_writeState hStorable]
  rfl

end Room

end MeshCore
