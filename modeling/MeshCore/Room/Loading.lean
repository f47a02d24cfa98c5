import MeshCore.Packet.Writing
import MeshCore.Room.Persistence

/-
  What a room is after it was loaded from any bytes at all.
  A file that is refused changes nothing. One that is
  accepted is taken at its word: its posts and its clients
  are the room's, and only their number and their length,
  and the next number, are held against anything.

  Key definitions include:
    * `Room.fileBytes`
    * `Room.Loaded`
    * `Room.Unbroken`

  Key facts include:
    * `Room.readPosts_spelled`, `Room.readClients_spelled`
    * `Room.nextSeqAfter_above`
    * `Room.loading_keeps_the_limits`
-/

namespace MeshCore

theorem Access.value_ofByte (b : UInt8) :
    (Access.ofByte b).value = b := by
  revert b
  apply forall_byte
  decide +kernel

namespace Room

variable {η : Type}

------------------------------------------------------------
-- What Was Read
------------------------------------------------------------

/- Records that are read keep what each of them keeps. -/
theorem readMany_induct
    {α σ : Type}
    {read : σ → Option (α × σ)}
    {P : σ → List α → σ → Prop}
    (hNil : ∀ s, P s [] s)
    (hCons :
      ∀ s a s' as s'', read s = some (a, s') →
        P s' as s'' → P s (a :: as) s'')
    {n : Nat} {s s' : σ} {as : List α}
    (hRead : readMany read n s = some (as, s')) :
    as.length = n ∧ P s as s' := by
  induction n generalizing s as with
  | zero =>
      rw [readMany, Option.some.injEq, Prod.mk.injEq]
        at hRead
      rw [← hRead.1, ← hRead.2]
      exact ⟨rfl, hNil s⟩
  | succ n ih =>
      rw [readMany, Option.bind_eq_bind,
        Option.bind_eq_some_iff] at hRead
      rcases hRead with ⟨⟨a, next⟩, hFirst, hRest⟩
      rw [Option.bind_eq_bind,
        Option.bind_eq_some_iff] at hRest
      rcases hRest with ⟨⟨more, last⟩, hMore, hEq⟩
      cases hEq
      have hAll := ih hMore
      exact ⟨congrArg Nat.succ hAll.1,
        hCons _ _ _ _ _ hFirst hAll.2⟩

/- What follows the number of a post is spelled out. -/
theorem body_spelled
    {view : Bytes}
    (hLong : 4 + postAuthorPrefix + 1 ≤ view.length) :
    let author := view.drop 4
    let text := author.drop postAuthorPrefix
    view =
      writeUint32 (readUint32 view 0) ++
        ((copyInto postAuthorPrefix author).toList ++
          text.getD 0 0 :: text.drop 1) := by
  intro author text
  have hAuthor : author.length = view.length - 4 :=
    List.length_drop
  have hText :
      text.length = author.length - postAuthorPrefix :=
    List.length_drop
  rw [head_byte (by omega), head_copyInto (by omega),
    head_readUint32 (by omega)]

/- A post of version 2 is spelled out, its number too. -/
theorem readPost_spelled
    {next next' : UInt32} {view rest : Bytes} {post : Post}
    (hRead :
      readPost 2 (next, view) = some (post, next', rest)) :
    next' = next ∧
      view = postBytes post ++ rest ∧
      post.text.length ≤ maxPostText := by
  unfold readPost at hRead
  simp only [show (2 : UInt8) ≤ 2 from by decide, if_true]
    at hRead
  split_ifs at hRead with hShort hText
  cases hRead
  rw [not_or, Nat.not_lt, Nat.not_lt] at hText
  rw [Nat.not_lt] at hShort
  have hSeq : writeUint32 (readUint32 view 0) ++
      view.drop 4 = view :=
    head_readUint32 (by omega)
  have hBody :
      4 + postAuthorPrefix + 1 ≤ (view.drop 4).length := by
    rw [List.length_drop]
    omega
  have hSpelled := body_spelled hBody
  dsimp only at hSpelled
  generalize view.drop 4 = body at *
  generalize (body.drop 4).drop postAuthorPrefix = text at *
  have hLength :
      ((text.drop 1).take (text.getD 0 0).toNat).length =
        (text.getD 0 0).toNat :=
    List.length_take_of_le hText.2
  refine ⟨rfl, ?_, ?_⟩
  · simp only [postBytes, hLength, UInt8.ofNat_toNat,
      List.append_assoc, List.cons_append,
      List.take_append_drop]
    rw [← hSpelled, hSeq]
  · rw [hLength]
    exact hText.1

/- One of version 1 gets the next number. -/
theorem readPost_numbered
    {next next' : UInt32} {view rest : Bytes} {post : Post}
    (hRead :
      readPost 1 (next, view) = some (post, next', rest)) :
    post.seq = next ∧
      next' = next + 1 ∧
      post.text.length ≤ maxPostText := by
  unfold readPost at hRead
  simp only [show ¬ (2 : UInt8) ≤ 1 from by decide,
    if_false] at hRead
  split_ifs at hRead with hShort hText
  cases hRead
  rw [not_or, Nat.not_lt, Nat.not_lt] at hText
  refine ⟨rfl, rfl, ?_⟩
  rw [List.length_take_of_le hText.2]
  exact hText.1

theorem readClient_spelled
    {view rest : Bytes} {client : Client}
    (hRead : readClient view = some (client, rest)) :
    view = clientBytes client ++ rest := by
  unfold readClient at hRead
  split_ifs at hRead with hShort
  cases hRead
  rw [Nat.not_lt] at hShort
  have hKey :
      (copyInto packetPublicKeySize view).toList ++
          view.drop packetPublicKeySize =
        view :=
    head_copyInto (by omega)
  have hRest :
      1 + 4 + 4 ≤ (view.drop packetPublicKeySize).length := by
    rw [List.length_drop]
    omega
  generalize view.drop packetPublicKeySize = rights at *
  have hRights : rights.getD 0 0 :: rights.drop 1 = rights :=
    head_byte (by omega)
  have hMarks : 4 + 4 ≤ (rights.drop 1).length := by
    rw [List.length_drop]
    omega
  generalize rights.drop 1 = marks at *
  have hMark :
      writeUint32 (readUint32 marks 0) ++ marks.drop 4 =
        marks :=
    head_readUint32 (by omega)
  have hLogin : 4 ≤ (marks.drop 4).length := by
    rw [List.length_drop]
    omega
  generalize marks.drop 4 = login at *
  simp only [clientBytes, Access.value_ofByte,
    List.append_assoc, List.cons_append]
  rw [head_readUint32 hLogin, hMark, hRights, hKey]

/- The posts of a file of version 2, one after another. -/
theorem readPosts_spelled
    {n : Nat} {next next' : UInt32} {view rest : Bytes}
    {posts : List Post}
    (hRead :
      readMany (readPost 2) n (next, view) =
        some (posts, next', rest)) :
    posts.length = n ∧
      next' = next ∧
      view = posts.flatMap postBytes ++ rest ∧
      ∀ post ∈ posts, post.text.length ≤ maxPostText := by
  apply readMany_induct
    (P := fun s posts s' =>
      s'.1 = s.1 ∧
        s.2 = posts.flatMap postBytes ++ s'.2 ∧
        ∀ post ∈ posts, post.text.length ≤ maxPostText)
    _ _ hRead
  · exact fun s => ⟨rfl, rfl, nofun⟩
  · rintro ⟨next, view⟩ post ⟨next', view'⟩ posts s hFirst
      ⟨hNext, hView, hTexts⟩
    rcases readPost_spelled hFirst with
      ⟨hSame, hPost, hText⟩
    refine ⟨hNext.trans hSame, ?_, ?_⟩
    · rw [List.flatMap_cons, List.append_assoc, ← hView]
      exact hPost
    · exact List.forall_mem_cons.mpr ⟨hText, hTexts⟩

/- The posts of one of version 1, numbered in a row. -/
theorem readPosts_numbered
    {n : Nat} {next next' : UInt32} {view rest : Bytes}
    {posts : List Post}
    (hRead :
      readMany (readPost 1) n (next, view) =
        some (posts, next', rest))
    (hRoom : next.toNat + n < 2 ^ 32) :
    posts.length = n ∧
      next'.toNat = next.toNat + n ∧
      posts.map (·.seq.toNat) =
        List.range' next.toNat n ∧
      ∀ post ∈ posts, post.text.length ≤ maxPostText := by
  have hBoth :=
    readMany_induct
      (P := fun s posts s' =>
        s.1.toNat + posts.length < 2 ^ 32 →
          s'.1.toNat = s.1.toNat + posts.length ∧
            posts.map (·.seq.toNat) =
              List.range' s.1.toNat posts.length ∧
            ∀ post ∈ posts,
              post.text.length ≤ maxPostText)
      (fun _ _ => ⟨rfl, rfl, nofun⟩)
      (by
        rintro ⟨next, view⟩ post ⟨next', view'⟩ posts s
          hFirst hRest hRoom
        rcases readPost_numbered hFirst with
          ⟨hSeq, hNext, hText⟩
        rw [List.length_cons] at hRoom ⊢
        have hLess :
            next.toNat + (posts.length + 1) < 2 ^ 32 :=
          hRoom
        have hOne : next'.toNat = next.toNat + 1 := by
          rw [hNext, UInt32.toNat_add, UInt32.toNat_one,
            Nat.mod_eq_of_lt (by omega)]
        have hLeft : next'.toNat + posts.length < 2 ^ 32 := by
          omega
        rcases hRest hLeft with ⟨hLast, hNumbers, hTexts⟩
        dsimp only at hLast hNumbers ⊢
        refine ⟨by omega, ?_, ?_⟩
        · rw [List.map_cons, hNumbers, hOne, hSeq,
            List.range'_succ]
        · exact List.forall_mem_cons.mpr ⟨hText, hTexts⟩)
      hRead
  rcases hBoth with ⟨rfl, hAll⟩
  exact ⟨rfl, hAll hRoom⟩

theorem readClients_spelled
    {n : Nat} {view rest : Bytes} {clients : List Client}
    (hRead :
      readMany readClient n view = some (clients, rest)) :
    clients.length = n ∧
      view = clients.flatMap clientBytes ++ rest := by
  apply readMany_induct
    (P := fun view clients rest =>
      view = clients.flatMap clientBytes ++ rest)
    _ _ hRead
  · exact fun _ => rfl
  · intro view client view' clients rest hFirst hView
    rw [List.flatMap_cons, List.append_assoc, ← hView]
    exact readClient_spelled hFirst

theorem readCount_spelled
    {limit n : Nat} {view rest : Bytes}
    (hRead : readCount limit view = some (n, rest)) :
    view = UInt8.ofNat n :: rest ∧ n ≤ limit := by
  cases view with
  | nil => cases hRead
  | cons count view =>
      rw [readCount] at hRead
      split_ifs at hRead with hMany
      cases hRead
      rw [UInt8.ofNat_toNat]
      exact ⟨rfl, Nat.le_of_not_lt hMany⟩

/- The next number is behind none, unless one is the last. -/
theorem nextSeqAfter_above
    {next : UInt32} {posts : List Post}
    (hRoom : ∀ post ∈ posts, post.seq.toNat + 1 < 2 ^ 32) :
    next ≤ nextSeqAfter next posts ∧
      ∀ post ∈ posts, post.seq < nextSeqAfter next posts := by
  induction posts generalizing next with
  | nil => exact ⟨UInt32.le_refl next, nofun⟩
  | cons post posts ih =>
      rw [List.forall_mem_cons] at hRoom ⊢
      rw [nextSeqAfter, List.foldl_cons]
      have hSucc :
          (post.seq + 1).toNat = post.seq.toNat + 1 := by
        rw [UInt32.toNat_add, UInt32.toNat_one,
          Nat.mod_eq_of_lt hRoom.1]
      have hRest :=
        @ih
          (if next ≤ post.seq then post.seq + 1 else next)
          hRoom.2
      rw [nextSeqAfter] at hRest
      refine ⟨?_, ?_, hRest.2⟩
      · apply UInt32.le_trans _ hRest.1
        split
        next hBehind =>
          rw [UInt32.le_iff_toNat_le] at hBehind ⊢
          omega
        next => exact UInt32.le_refl next
      · apply UInt32.lt_of_lt_of_le _ hRest.1
        split
        next =>
          rw [UInt32.lt_iff_toNat_lt]
          omega
        next hAhead => exact UInt32.not_le.mp hAhead

------------------------------------------------------------
-- Whole Files
------------------------------------------------------------

/- A file of version 2 with these posts and clients. -/
def fileBytes
    (header : UInt32)
    (posts : List Post)
    (clients : List Client) :
    Bytes :=
  2 ::
    (writeUint32 header ++
      UInt8.ofNat posts.length ::
        (posts.flatMap postBytes ++
          UInt8.ofNat clients.length ::
            clients.flatMap clientBytes))

/- A file that is written is one of these. -/
theorem writeState_eq (room : Room η) :
    room.writeState =
      fileBytes room.nextSeq room.posts room.clients :=
  rfl

/-
  A room that has loaded a file. What version 1 does not
  have is made up in order; what version 2 has is taken from
  it as it stands.
-/
structure Loaded
    (room : Room η)
    (blob : Bytes)
    (loaded : Room η) :
    Prop where
  others :
    loaded =
      { room with
        posts := loaded.posts
        clients := loaded.clients
        nextSeq := loaded.nextSeq
        nextClientIdx := 0 }
  limits : loaded.Storable
  version : blob.head? = some 1 ∨ blob.head? = some 2
  numbered :
    blob.head? = some 1 →
      loaded.posts.map (·.seq.toNat) =
          List.range' 1 loaded.posts.length ∧
        (∀ post ∈ loaded.posts,
          post.seq < loaded.nextSeq) ∧
        ∀ client ∈ loaded.clients,
          client.syncSeq < loaded.nextSeq
  spelled :
    blob.head? = some 2 →
      ∃ header rest,
        blob =
            fileBytes header loaded.posts loaded.clients ++
              rest ∧
          ((∀ post ∈ loaded.posts,
              post.seq.toNat + 1 < 2 ^ 32) →
            header ≤ loaded.nextSeq ∧
              ∀ post ∈ loaded.posts,
                post.seq < loaded.nextSeq)

/- How the parts of a file follow each other. -/
inductive Parsed
    (version : UInt8)
    (body : Bytes) :
    UInt32 → List Post → UInt32 → List Client → Prop where
| intro
    {header next : UInt32}
    {posts : List Post} {clients : List Client}
    {n k : Nat}
    {counted written known kept rest : Bytes}
    (hHeader :
      readNextSeq version body = some (header, counted))
    (hCount : readCount maxPosts counted = some (n, written))
    (hPosts :
      readMany (readPost version) n (header, written) =
        some (posts, next, known))
    (hKnown :
      readCount maxRoomClients known = some (k, kept))
    (hClients :
      readMany readClient k kept = some (clients, rest)) :
    Parsed version body header posts next clients

theorem readState_eq_some
    {room loaded : Room η} {blob : Bytes}
    (hRead : room.readState blob = some loaded) :
    ∃ version body header posts next clients,
      blob = version :: body ∧
        (version = 1 ∨ version = 2) ∧
        Parsed version body header posts next clients ∧
        loaded =
          { room with
            posts := posts
            clients := clients
            nextSeq := nextSeqAfter next posts
            nextClientIdx := 0 }.convertBookmarks
              version := by
  unfold readState at hRead
  cases blob with
  | nil => simp at hRead
  | cons version body =>
      simp only [List.getD_cons_zero, List.drop_succ_cons,
        List.drop_zero] at hRead
      split_ifs at hRead with hShort hVersion
      simp only [Option.bind_eq_bind,
        Option.bind_eq_some_iff] at hRead
      rcases hRead with
        ⟨⟨header, counted⟩, hHeader, ⟨n, written⟩, hCount,
          ⟨posts, next, known⟩, hPosts, ⟨k, kept⟩, hKnown,
          ⟨clients, rest⟩, hClients, hRead⟩
      refine ⟨version, body, header, posts, next, clients,
        rfl, ?_,
        .intro hHeader hCount hPosts hKnown hClients,
        (Option.some.inj hRead).symm⟩
      have hAll :
          ∀ b : UInt8,
            ¬ (b < roomFormatMinVersion ∨
                roomFormatVersion < b) →
              b = 1 ∨ b = 2 := by
        apply forall_byte
        decide +kernel
      exact hAll version hVersion

/- Posts that are numbered in a row are behind the next. -/
theorem seq_lt_of_numbered
    {first n : Nat} {next : UInt32} {posts : List Post}
    (hNumbers :
      posts.map (·.seq.toNat) = List.range' first n)
    (hNext : next.toNat = first + n) :
    ∀ post ∈ posts, post.seq < next := by
  intro post hPost
  have hMem :=
    List.mem_map_of_mem (f := (·.seq.toNat)) hPost
  rw [hNumbers, List.mem_range'_1] at hMem
  rw [UInt32.lt_iff_toNat_lt]
  omega

/- A file of version 1 numbers what it does not number. -/
theorem loaded_of_first
    {room : Room η} {body : Bytes}
    {header next : UInt32}
    {posts : List Post} {clients : List Client}
    (hParsed : Parsed 1 body header posts next clients) :
    Loaded room (1 :: body)
      ({ room with
        posts := posts
        clients := clients
        nextSeq := nextSeqAfter next posts
        nextClientIdx := 0 }.convertBookmarks 1) := by
  rcases hParsed with
    ⟨hHeader, hCount, hPosts, hKnown, hClients⟩
  have hOne : header = 1 := by
    rw [readNextSeq, if_neg (by decide)] at hHeader
    cases hHeader
    rfl
  subst hOne
  have hMany := (readCount_spelled hCount).2
  have hKept := (readCount_spelled hKnown).2
  rcases readPosts_numbered hPosts
      (by rw [UInt32.toNat_one]; simp only [maxPosts] at hMany
          omega) with
    ⟨hLength, hNext, hNumbers, hTexts⟩
  have hNumbered : ∀ post ∈ posts, post.seq < next :=
    seq_lt_of_numbered hNumbers (by omega)
  have hSame : nextSeqAfter next posts = next :=
    nextSeqAfter_of_ahead hNumbered
  have hNew : (1 : UInt8) < 2 := by decide
  rw [convertBookmarks, if_pos hNew, hSame]
  refine
    { others := rfl
      limits := ⟨?_, hTexts, ?_⟩
      version := .inl rfl
      numbered := fun _ => ⟨?_, hNumbered, ?_⟩
      spelled := by simp }
  · rw [hLength]
    exact hMany
  · rw [List.length_map, (readClients_spelled hClients).1]
    exact hKept
  · rw [hNumbers, hLength]
    rfl
  · intro client hClient
    rcases List.mem_map.mp hClient with ⟨old, _, rfl⟩
    rcases seqFromTimestamp_mem
        { room with
          posts := posts
          clients := clients
          nextSeq := next
          nextClientIdx := 0 }
        old.syncSeq with
      hZero | ⟨post, hPost, hSeq⟩
    · dsimp only
      rw [hZero, UInt32.lt_iff_toNat_lt, hNext]
      exact Nat.lt_of_lt_of_le (by decide)
        (Nat.le_add_right _ _)
    · dsimp only
      rw [← hSeq]
      exact hNumbered post hPost

/- One of version 2 is taken as it stands. -/
theorem loaded_of_second
    {room : Room η} {body : Bytes}
    {header next : UInt32}
    {posts : List Post} {clients : List Client}
    (hParsed : Parsed 2 body header posts next clients) :
    Loaded room (2 :: body)
      ({ room with
        posts := posts
        clients := clients
        nextSeq := nextSeqAfter next posts
        nextClientIdx := 0 }.convertBookmarks 2) := by
  cases hParsed with
  | @intro _ _ _ n k counted written known kept rest
      hHeader hCount hPosts hKnown hClients =>
      have hNew : ¬ (2 : UInt8) < 2 := by decide
      have hBody : body = writeUint32 header ++ counted := by
        rw [readNextSeq, if_pos (by decide)] at hHeader
        split_ifs at hHeader with hShort
        rw [Option.some.injEq, Prod.mk.injEq] at hHeader
        rw [← hHeader.1, ← hHeader.2]
        exact
          (head_readUint32 (Nat.le_of_not_lt hShort)).symm
      rcases readCount_spelled hCount with ⟨hCounted, hMany⟩
      rcases readCount_spelled hKnown with ⟨hKnew, hKept⟩
      rcases readPosts_spelled hPosts with
        ⟨hLength, hNext, hWritten, hTexts⟩
      rcases readClients_spelled hClients with
        ⟨hCard, hClientBytes⟩
      subst hNext hLength hCard
      rw [convertBookmarks, if_neg hNew]
      refine
        { others := rfl
          limits := ⟨hMany, hTexts, hKept⟩
          version := .inr rfl
          numbered := by simp
          spelled := fun _ => ⟨next, rest, ?_, ?_⟩ }
      · rw [hBody, hCounted, hWritten, hKnew, hClientBytes]
        simp only [fileBytes, List.cons_append,
          List.append_assoc]
      · intro hRoom
        exact nextSeqAfter_above hRoom

/- Whatever was read is within the limits. -/
theorem loaded_of_readState
    {room loaded : Room η} {blob : Bytes}
    (hRead : room.readState blob = some loaded) :
    Loaded room blob loaded := by
  rcases readState_eq_some hRead with
    ⟨version, body, header, posts, next, clients, rfl,
      hVersion, hParsed, rfl⟩
  rcases hVersion with rfl | rfl
  · exact loaded_of_first hParsed
  · exact loaded_of_second hParsed

/-
  Loading is all or nothing, and what is loaded is within
  the limits: numbered in a row where the file has no
  numbers, and as it was written where it has.
-/
theorem loading_keeps_the_limits
    (room : Room η)
    (blob : Bytes) :
    let (accepted, after) := room.load (some blob)
    if accepted then Loaded room blob after
    else after = room := by
  unfold load
  dsimp only
  cases hRead : room.readState blob with
  | none => rfl
  | some loaded => exact loaded_of_readState hRead

/- A board that delivery can rely on in every respect. -/
structure Unbroken (room : Room η) : Prop where
  storable : room.Storable
  ascending : room.posts.Pairwise (·.seq < ·.seq)
  ahead : ∀ post ∈ room.posts, post.seq < room.nextSeq
  reached :
    ∀ client ∈ room.clients, client.syncSeq < room.nextSeq
  keys : (room.clients.map (·.pk)).Nodup
  rights : ∀ client ∈ room.clients, client.access.value ≤ 3

section Example

open Sample

def samplePost (seq : UInt32) : Post :=
  { seq := seq
    timestamp := 9
    author := authorPrefixOf (key 1)
    text := ascii "x" }

/- Numbers out of order, and a key with two rows. -/
def shuffledFile : Bytes :=
  fileBytes 1 [samplePost 5, samplePost 3]
    [{ pk := key 1 }, { pk := key 1 }]

/- It is accepted, and is not put in order. -/
theorem shuffled_file_is_accepted :
    ¬ ∀ (room : Room Unit) (blob : Bytes),
      let (accepted, after) := room.load (some blob)
      if accepted then after.Unbroken else after = room := by
  intro hAll
  have hAccepted :
      (quietRoom.load (some shuffledFile)).1 = true := by
    decide +kernel
  have hSeqs :
      (quietRoom.load (some shuffledFile)).2.posts.map
          (·.seq) =
        [5, 3] := by
    decide +kernel
  have hThis := hAll quietRoom shuffledFile
  dsimp only at hThis
  rw [hAccepted, if_pos rfl] at hThis
  have hAscending :
      ((quietRoom.load (some shuffledFile)).2.posts.map
        (·.seq)).Pairwise (· < ·) :=
    List.pairwise_map.mpr hThis.ascending
  rw [hSeqs] at hAscending
  exact absurd hAscending (by decide)

end Example

end Room

end MeshCore
