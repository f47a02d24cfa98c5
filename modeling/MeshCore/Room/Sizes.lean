import MeshCore.Room.Loading
import MeshCore.Room.Replies
import MeshCore.Routing.Sizes

/-
  What a room has to say fits what it is said in. The name
  of an author is cut, a reply to a command is cut, and from
  there on nothing is: a push, a reply, a response and a
  message to a channel each leave in one frame, all of it.

  Key definitions include:
    * `Room.Terse`
    * `Room.Introduces`
    * `Room.SpeaksWhole`

  Key facts include:
    * `Room.lives_terse`
    * `Room.pushBodyFor_whole`
    * `Room.publishToChannels_whole`
    * `Room.nothing_is_cut_to_fit`
-/

namespace MeshCore

namespace Room

variable {η : Type}

------------------------------------------------------------
-- Texts On The Board
------------------------------------------------------------

/- No text on the board is longer than a post can be. -/
def Terse (room : Room η) : Prop :=
  ∀ post ∈ room.posts, post.text.length ≤ maxPostText

theorem terse_create (config : RoomConfig η) (host : η) :
    (create config host).Terse :=
  nofun

/- Whatever is in the file. -/
theorem Terse.load
    {room : Room η}
    (hTerse : room.Terse)
    (saved : Option Bytes) :
    (room.load saved).2.Terse := by
  unfold Room.load
  cases saved with
  | none => exact hTerse
  | some blob =>
      dsimp only
      cases hRead : room.readState blob with
      | none => exact hTerse
      | some loaded =>
          exact (loaded_of_readState hRead).limits.texts

/- The step lemma: texts stay short, restarts or not. -/
theorem lives_terse
    [CryptoCore]
    {room room' : Room η} {l : Life η}
    (hTerse : room.Terse)
    (hStep : Lives room l room') :
    room'.Terse := by
  cases l with
  | event e calls =>
      exact (step_changes hStep).1.texts hTerse
  | reboot config host =>
      rw [(hStep : room' = _)]
      exact (terse_create config host).load _

------------------------------------------------------------
-- Authors
------------------------------------------------------------

/- The contact a post is taken to be from. -/
def authorIn (store : Store) (post : Post) : Option Contact :=
  (store.findByHash (post.author.toList.getD 0 0)).find?
    fun candidate =>
      authorPrefixOf candidate.pk = post.author

/-
  What a post is shown behind: the name of its author as far
  as it is shown, or the bytes of the key that are kept.
-/
inductive Introduces
    (store : Store)
    (post : Post) :
    Bytes → Prop where
| named
    {contact : Contact}
    (hAuthor : authorIn store post = some contact)
    (hName : contact.name ≠ []) :
    Introduces store post
      (contact.name.take maxPostAuthorName ++ ascii ": ")
| nameless
    (hNone :
      ∀ contact, authorIn store post = some contact →
        contact.name = []) :
    Introduces store post
      (ascii "?" ++ post.author.toList.flatMap hexByte ++
        ascii ": ")

/-
  How a post is shown: behind its author, unless it came on
  a channel, and then by itself.
-/
structure ShownAs
    (store : Store)
    (post : Post)
    (body : Bytes) :
    Prop where
  signed :
    post.author ≠ authorPrefixOf anonymous →
      ∃ author,
        Introduces store post author ∧
          body = author ++ post.text
  unsigned :
    ∀ (maker : Room η) timestamp text,
      post = maker.makePost anonymous timestamp text →
        body = post.text

theorem Introduces.length_le
    {store : Store} {post : Post} {author : Bytes}
    (hAuthor : Introduces store post author) :
    author.length ≤ maxPostAuthorName + 2 := by
  cases hAuthor with
  | @named contact _ _ =>
      have hName :
          (contact.name.take maxPostAuthorName).length ≤
            maxPostAuthorName :=
        List.length_take_le _ _
      rw [List.length_append]
      exact Nat.add_le_add_right hName 2
  | nameless _ =>
      have hKept : post.author.toList.length = 4 :=
        Vector.length_toList
      have hHex : ∀ b : UInt8, (hexByte b).length = 2 :=
        fun _ => rfl
      simp [List.length_flatMap, hHex, hKept, ascii,
        maxPostAuthorName]

theorem authorNameOf_of_some
    {store : Store} {post : Post} {contact : Contact}
    (hAuthor : authorIn store post = some contact) :
    authorNameOf store post =
      contact.name.take maxPostAuthorName := by
  unfold authorIn at hAuthor
  simp only [authorNameOf, hAuthor]

theorem authorNameOf_of_none
    {store : Store} {post : Post}
    (hAuthor : authorIn store post = none) :
    authorNameOf store post = [] := by
  unfold authorIn at hAuthor
  simp only [authorNameOf, hAuthor]

/- What is put in front is what is known of the author. -/
theorem introduces_authorNameOf
    (store : Store)
    (post : Post) :
    Introduces store post
      (if authorNameOf store post = [] then
        ascii "?" ++ post.author.toList.flatMap hexByte ++
          ascii ": "
      else authorNameOf store post ++ ascii ": ") := by
  have hSome : maxPostAuthorName ≠ 0 := by decide
  split
  next hEmpty =>
    refine .nameless fun contact hAuthor => ?_
    rw [authorNameOf_of_some hAuthor, List.take_eq_nil_iff]
      at hEmpty
    exact hEmpty.resolve_left hSome
  next hName =>
    cases hAuthor : authorIn store post with
    | none => exact absurd (authorNameOf_of_none hAuthor) hName
    | some contact =>
        rw [authorNameOf_of_some hAuthor] at hName ⊢
        refine .named hAuthor fun hEmpty => hName ?_
        rw [hEmpty, List.take_nil]

/- A name and a text are cut so that both are shown. -/
theorem pushBodyFor_whole
    (store : Store)
    {post : Post}
    (hText : post.text.length ≤ maxPostText) :
    ShownAs (η := η) store post (pushBodyFor store post) := by
  constructor
  · intro hSigned
    have hAuthor := introduces_authorNameOf store post
    have hLength := hAuthor.length_le
    refine ⟨_, hAuthor, ?_⟩
    unfold pushBodyFor
    dsimp only
    rw [if_neg hSigned, List.take_of_length_le]
    rw [List.length_append]
    unfold maxPostText at hText
    unfold maxPostAuthorName at hLength
    unfold maxPushBody
    omega
  · rintro maker timestamp text rfl
    have hShort :
        (maker.makePost anonymous timestamp
            text).text.length ≤ maxPushBody :=
      hText.trans (by decide)
    have hNobody :
        (maker.makePost anonymous timestamp text).author =
          authorPrefixOf anonymous :=
      rfl
    unfold pushBodyFor
    dsimp only
    rw [if_pos hNobody, List.nil_append,
      List.take_of_length_le hShort]

------------------------------------------------------------
-- Pushes
------------------------------------------------------------

/- A tick that finds somebody pushes the post that is due. -/
theorem tick_of_found
    {room : Room η} {now : Millis} {row : Nat}
    (hFound :
      ({ room with now := now }).nextClientToPush.1 =
        some row) :
    ∃ turn post,
      room.nextPostFor (room.client row) = some post ∧
        room.tick now =
          { room with
            now := now
            nextClientIdx := turn }.pushNextPost row := by
  unfold tick
  rcases nextClientToPush_cases { room with now := now } with
    hNobody | ⟨turn, other, -, hPushable, hSomebody⟩
  · rw [hNobody] at hFound
    contradiction
  · rw [hSomebody] at hFound
    cases hFound
    simp only [pushable, decide_eq_true_eq] at hPushable
    rcases Option.isSome_iff_exists.mp hPushable.2.2.2 with
      ⟨post, hPost⟩
    refine ⟨turn, post, hPost, ?_⟩
    simp only [hSomebody]

/- What a push says can be written, and leaves room. -/
theorem exists_pushPlain
    (store : Store)
    (post : Post) :
    ∃ plain,
      pushPlain store post = some plain ∧
        decodeText plain =
          some
            { timestamp := post.timestamp
              txtType := TextType.signed.value
              attempt := 0
              message := pushBodyFor store post } ∧
        plain.length ≤ maxPlaintext := by
  have hBody : (pushBodyFor store post).length ≤ maxPushBody :=
    List.length_take_le _ _
  have hRoom :
      textMsgPrefixSize + (pushBodyFor store post).length ≤
        maxPlaintext :=
    Nat.add_le_add_left hBody _
  rcases exists_textOf post.timestamp .signed
      (hRoom.trans (by decide)) with
    ⟨plain, hPlain, hDecoded, hLength⟩
  exact ⟨plain, hPlain, hDecoded, hLength ▸ hRoom⟩

------------------------------------------------------------
-- Answers
------------------------------------------------------------

/- The plaintext that a login is answered with. -/
def loginAnswer
    (room : Room η)
    (client : Client)
    (nonce : Bytes) :
    Bytes :=
  writeUint32 room.serverTime ++
    [responseOk, 0,
      if client.access = .admin then 1 else 0,
      client.access.value] ++
    nonce ++ writeVersion room.config.firmwareVersion

theorem length_loginAnswer
    (room : Room η)
    (client : Client)
    (nonce : Bytes) :
    (room.loginAnswer client nonce).length =
      nonce.length + 10 := by
  simp only [loginAnswer, writeVersion, List.length_append,
    length_writeUint32, List.length_cons, List.length_nil]
  omega

/- The plaintext that a status request is answered with. -/
def statusAnswer
    (room : Room η)
    (client : Client)
    (type : RequestType)
    (nonce : Bytes) :
    Bytes :=
  writeUint32 room.serverTime ++
    [responseOk, type.value, client.access.value,
      countByte room.posts.length,
      countByte room.clients.length,
      countByte (room.unreadFor client)] ++
    nonce ++ writeVersion room.config.firmwareVersion

theorem length_statusAnswer
    (room : Room η)
    (client : Client)
    (type : RequestType)
    (nonce : Bytes) :
    (room.statusAnswer client type nonce).length =
      nonce.length + 12 := by
  simp only [statusAnswer, writeVersion, List.length_append,
    length_writeUint32, List.length_cons, List.length_nil]
  omega

section Speaking

variable [CryptoCore]

theorem pushNextPost_tells
    {room : Room η} {row : Nat} {post : Post}
    (hText : post.text.length ≤ maxPostText)
    (hPost :
      room.nextPostFor (room.client row) = some post)
    (r : Router) :
    ∃ body plain,
      ShownAs (η := η) r.store post body ∧
        decodeText plain =
          some
            { timestamp := post.timestamp
              txtType := TextType.signed.value
              attempt := 0
              message := body } ∧
        r.Tells (room.client row).pk .txtMsg plain
          ((room.pushNextPost row).run Router.sender r).2 := by
  rcases exists_pushPlain r.store post with
    ⟨plain, hPushed, hDecoded, hFits⟩
  refine ⟨_, plain, pushBodyFor_whole r.store hText,
    hDecoded, ?_⟩
  unfold pushNextPost
  simp only [hPost, Router.run_readStore, hPushed,
    Router.run_sendDirect]
  exact r.sendDirect_tells _ _ hFits true

------------------------------------------------------------
-- Answers
------------------------------------------------------------

theorem sendCliReply_tells
    (room : Room η)
    (dest : PublicKey)
    (text : Bytes)
    (r : Router) :
    ∃ plain,
      decodeText plain =
          some
            { timestamp := room.serverTime
              txtType := TextType.cli.value
              attempt := 0
              message := text.take maxCliReply } ∧
        r.Tells dest .txtMsg plain
          ((room.sendCliReply dest text).run
            Router.sender r).2 := by
  rcases exists_textOf room.serverTime .cli
      (reply_has_room text) with
    ⟨plain, hPlain, hDecoded, hLength⟩
  have hShort :
      (text.take maxCliReply).length ≤ maxCliReply :=
    List.length_take_le _ _
  have hRoom : plain.length ≤ maxPlaintext := by
    rw [hLength]
    exact (Nat.add_le_add_left hShort _).trans (by decide)
  refine ⟨plain, hDecoded, ?_⟩
  unfold sendCliReply
  simp only [hPlain, Router.run_sendDirect]
  exact r.sendDirect_tells _ _ hRoom false

/- An answer with room for its nonce is told whole. -/
theorem drawn_tells
    {answer : Bytes → Bytes}
    (hFits :
      ∀ nonce, nonce.length = loginResponseNonceSize →
        (answer nonce).length ≤ maxPlaintext)
    (dest : PublicKey)
    (r : Router) :
    let task : SenderM Unit := do
      let nonce ← randomBytes loginResponseNonceSize
      let _ ← sendDirect dest .response (answer nonce) false
      return ()
    ∃ nonce,
      nonce.length = loginResponseNonceSize ∧
        r.Tells dest .response (answer nonce)
          (task.run Router.sender r).2 := by
  intro task
  have hNonce :
      (r.entropy.take loginResponseNonceSize).1.length =
        loginResponseNonceSize := by
    rw [Entropy.take, List.length_map, List.length_range]
  refine ⟨_, hNonce, fun secret hSecret hRoute => ?_⟩
  have hDrawn :=
    Router.sender_performs
      (.randomBytes loginResponseNonceSize) r
  rcases Router.sendDirect_tells
      { r with
        entropy :=
          (r.entropy.take loginResponseNonceSize).2 }
      dest .response (hFits _ hNonce) false secret hSecret
      hRoute with
    ⟨wire, hWire, ⟨hSent, hWhole⟩, hOpens⟩
  exact ⟨wire, hWire, ⟨hDrawn.trans hSent, hWhole⟩,
    hOpens⟩

theorem sendLoginResponse_tells
    (room : Room η)
    (dest : PublicKey)
    (client : Client)
    (r : Router) :
    ∃ nonce,
      nonce.length = loginResponseNonceSize ∧
        r.Tells dest .response
          (room.loginAnswer client nonce)
          ((room.sendLoginResponse dest client).run
            Router.sender r).2 := by
  refine drawn_tells (fun nonce hNonce => ?_) dest r
  rw [length_loginAnswer, hNonce]
  decide

theorem sendStatusResponse_tells
    (room : Room η)
    (client : Client)
    (type : RequestType)
    (r : Router) :
    ∃ nonce,
      nonce.length = loginResponseNonceSize ∧
        r.Tells client.pk .response
          (room.statusAnswer client type nonce)
          ((room.sendStatusResponse client type).run
            Router.sender r).2 := by
  refine drawn_tells (fun nonce hNonce => ?_) client.pk r
  rw [length_statusAnswer, hNonce]
  decide

------------------------------------------------------------
-- Channels
------------------------------------------------------------

/- One frame of channel traffic, with all of a plaintext. -/
structure SaidOn
    (plain : Bytes)
    (channel : Channel)
    (errand : Errand) :
    Prop where
  type : errand.type = .grpTxt
  flood : errand.route = none
  sealed :
    channelPayload channel plain = some errand.payload
  whole : errand.Whole
  opens :
    Deciphers →
      ∃ group,
        decodeGroup errand.payload = some group ∧
          openOn group channel = some plain

/- Whatever has room is said on any channel. -/
theorem exists_saidOn
    {plain : Bytes}
    (hFits : plain.length ≤ maxPlaintext)
    (channel : Channel) :
    ∃ errand, SaidOn plain channel errand := by
  have hRoom := (group_fits_iff plain.length).mpr hFits
  cases hSealed :
      sealPlaintext channel.secret plain maxPacketPayload with
  | none =>
      rw [sealPlaintext_eq, if_neg (by omega)] at hSealed
      contradiction
  | some sealing =>
      have hSome :
          (encodeGroup
            { channelHash := channel.hash
              cipherMac := sealing.mac.toList
              ciphertext := sealing.ciphertext }
            maxPacketPayload).isSome = true := by
        rw [encodeGroup_isSome_iff]
        simp only [GroupMsg.codec, Wire.Codec.HasRoom,
          Vector.length_toList, length_ciphertext hSealed,
          and_self, true_and]
        exact hRoom
      rcases Option.isSome_iff_exists.mp hSome with
        ⟨payload, hPayload⟩
      have hSaid :
          channelPayload channel plain = some payload := by
        rw [channelPayload, hSealed]
        exact hPayload
      refine
        ⟨{ type := .grpTxt
           payload := payload
           route := none },
          { type := rfl
            flood := rfl
            sealed := hSaid
            whole :=
              Errand.whole (by simp)
                (length_encodeGroup hPayload)
            opens := fun hCipher => ?_ }⟩
      refine ⟨_, decodeGroup_encodeGroup hPayload, ?_⟩
      rw [openOn, if_neg (not_not.mpr rfl), copyInto_toList]
      exact openCiphertext_sealPlaintext hCipher hSealed

/- Every channel is told, in their order. -/
theorem publishTo_whole
    {plain : Bytes}
    (hFits : plain.length ≤ maxPlaintext)
    (channels : List Channel)
    (r : Router) :
    ∃ errands,
      List.Forall₂ (SaidOn plain) channels errands ∧
        r.Performs errands
          ((publishTo plain channels).run
            Router.sender r).2 := by
  induction channels generalizing r with
  | nil => exact ⟨[], .nil, .refl r⟩
  | cons channel rest ih =>
      rcases exists_saidOn hFits channel with
        ⟨errand, hSaid⟩
      have hSent :=
        Router.sender_performs
          (.sendFlood .grpTxt errand.payload) r
      have hErrand :
          errand =
            { type := .grpTxt
              payload := errand.payload
              route := none } := by
        rw [← hSaid.type, ← hSaid.flood]
      rcases ih (r.sendFlood .grpTxt errand.payload) with
        ⟨errands, hRest, hTold⟩
      refine ⟨errand :: errands, .cons hSaid hRest, ?_⟩
      rw [publishTo]
      simp only [hSaid.sealed, Router.run_sendFlood]
      rw [hErrand]
      exact hSent.trans hTold

theorem publishToChannels_whole
    (room : Room η)
    {post : Post}
    (hText : post.text.length ≤ maxPostText)
    (r : Router) :
    ∃ plain errands,
      decodeText plain =
          some
            { timestamp := post.timestamp
              txtType := TextType.plain.value
              attempt := 0
              message := post.text } ∧
        List.Forall₂ (SaidOn plain) room.config.channels
          errands ∧
        r.Performs errands
          ((room.publishToChannels post).run
            Router.sender r).2 := by
  have hRoom :
      textMsgPrefixSize + post.text.length ≤ maxPlaintext :=
    (Nat.add_le_add_left hText _).trans (by decide)
  rcases exists_textOf post.timestamp .plain
      (hRoom.trans (by decide)) with
    ⟨plain, hPlain, hDecoded, hLength⟩
  rcases publishTo_whole (hLength ▸ hRoom)
      room.config.channels r with
    ⟨errands, hSaid, hTold⟩
  refine ⟨plain, errands, hDecoded, hSaid, ?_⟩
  unfold publishToChannels
  simp only [hPlain]
  exact hTold

------------------------------------------------------------
-- All That Is Said
------------------------------------------------------------

/-
  Everything the room says is said whole, whoever carries
  it: the texts it pushes, what is left of its replies, its
  responses, and what it posts on channels.
-/
structure SpeaksWhole (room : Room η) : Prop where
  pushes :
    ∀ (now : Millis) (row : Nat) (r : Router),
      ({ room with now := now }).nextClientToPush.1 =
          some row →
        ∃ post body plain,
          room.nextPostFor (room.client row) = some post ∧
            ShownAs (η := η) r.store post body ∧
            decodeText plain =
              some
                { timestamp := post.timestamp
                  txtType := TextType.signed.value
                  attempt := 0
                  message := body } ∧
            r.Tells (room.client row).pk .txtMsg plain
              ((room.tick now).run Router.sender r).2
  replies :
    ∀ (dest : PublicKey) (text : Bytes) (r : Router),
      ∃ plain,
        decodeText plain =
            some
              { timestamp := room.serverTime
                txtType := TextType.cli.value
                attempt := 0
                message := text.take maxCliReply } ∧
          r.Tells dest .txtMsg plain
            ((room.sendCliReply dest text).run
              Router.sender r).2
  logins :
    ∀ (dest : PublicKey) (client : Client) (r : Router),
      ∃ nonce,
        nonce.length = loginResponseNonceSize ∧
          r.Tells dest .response
            (room.loginAnswer client nonce)
            ((room.sendLoginResponse dest client).run
              Router.sender r).2
  statuses :
    ∀ (client : Client) (type : RequestType) (r : Router),
      ∃ nonce,
        nonce.length = loginResponseNonceSize ∧
          r.Tells client.pk .response
            (room.statusAnswer client type nonce)
            ((room.sendStatusResponse client type).run
              Router.sender r).2
  channels :
    ∀ (post : Post) (r : Router),
      post.text.length ≤ maxPostText →
        ∃ plain errands,
          decodeText plain =
              some
                { timestamp := post.timestamp
                  txtType := TextType.plain.value
                  attempt := 0
                  message := post.text } ∧
            List.Forall₂ (SaidOn plain)
              room.config.channels errands ∧
            r.Performs errands
              ((room.publishToChannels post).run
                Router.sender r).2

theorem Terse.speaksWhole
    {room : Room η}
    (hTerse : room.Terse) :
    room.SpeaksWhole where
  pushes := by
    intro now row r hFound
    rcases tick_of_found hFound with
      ⟨turn, post, hPost, hTick⟩
    have hText : post.text.length ≤ maxPostText :=
      hTerse post (List.mem_of_find?_eq_some hPost)
    have hSame :
        { room with
          now := now
          nextClientIdx := turn }.nextPostFor
            (room.client row) =
          some post :=
      hPost
    rcases pushNextPost_tells hText hSame r with
      ⟨body, plain, hShown, hDecoded, hTells⟩
    rw [hTick]
    exact ⟨post, body, plain, hPost, hShown, hDecoded,
      hTells⟩
  replies := room.sendCliReply_tells
  logins := room.sendLoginResponse_tells
  statuses := room.sendStatusResponse_tells
  channels := fun _ r hText =>
    room.publishToChannels_whole hText r

/-
  However a room came about, from whatever file and through
  whatever restarts: after the cuts it makes itself, of the
  name of an author and of a reply, nothing it says is too
  long for any of the layers below, on the longest route.
-/
theorem nothing_is_cut_to_fit
    {config : RoomConfig η} {host : η}
    {saved : Option Bytes}
    {ts : List (Transition (Room η) (Life η))}
    {room : Room η}
    (hRun :
      Run Lives ((create config host).load saved).2 ts
        room) :
    room.SpeaksWhole := by
  have hTerse : room.Terse := by
    apply hRun.invariant
    · exact (terse_create config host).load saved
    · exact fun _ _ _ hKept hStep => lives_terse hKept hStep
  exact hTerse.speaksWhole

end Speaking

section Example

open Sample

/- A file with a post of the longest kind, and a reader. -/
def fullFile : Bytes :=
  writeState
    { quietRoom with
      posts :=
        [{ seq := 1
           timestamp := 5
           author := authorPrefixOf (key 1)
           text := List.replicate maxPostText 0x61 }]
      clients := [{ pk := key 2, access := .guest }]
      nextSeq := 2 }

def fullRoom : Room Unit :=
  (quietRoom.load (some fullFile)).2

theorem the_longest_post_is_pushed_whole :
    ∃ post body plain wire,
      post.text = List.replicate maxPostText 0x61 ∧
        ShownAs (η := Unit) (Store.ofByte 9) post body ∧
        decodeText plain =
          some
            { timestamp := post.timestamp
              txtType := TextType.signed.value
              attempt := 0
              message := body } ∧
        (Router.ofByte 9).HandsOver
          { type := .txtMsg, payload := wire, route := none }
          ((fullRoom.tick 0).run Router.sender
            (Router.ofByte 9)).2 ∧
        OpensTo (Vector.replicate _ (9 ^^^ 2)) (key 2) wire
          plain := by
  have hStart :
      Run Lives
        ((create { guestPassword := ascii "g" } ()).load
          (some fullFile)).2
        [] fullRoom :=
    .start
  have hText :
      ∀ post ∈
          fullRoom.nextPostFor (fullRoom.client 0),
        post.text = List.replicate maxPostText 0x61 := by
    decide +kernel
  rcases (nothing_is_cut_to_fit hStart).pushes 0 0
      (Router.ofByte 9) (by decide +kernel) with
    ⟨post, body, plain, hPost, hShown, hDecoded, hTells⟩
  have hDest : (fullRoom.client 0).pk = key 2 := by
    decide +kernel
  rw [hDest] at hTells
  rcases hTells (Vector.replicate _ (9 ^^^ 2))
      (by decide +kernel) nofun with
    ⟨wire, -, hHanded, hOpens⟩
  exact ⟨post, body, plain, wire, hText post hPost, hShown,
    hDecoded, hHanded, hOpens fun _ _ => rfl⟩

/- The texts that some calls send to somebody. -/
def textsIn (calls : Calls) : List Bytes :=
  calls.filterMap fun call =>
    match call.op with
    | .sendDirect _ .txtMsg plain _ =>
        (decodeText plain).map (·.message)
    | _ => none

/- A host whose name is longer than a reply can be. -/
def longNamed : Admin Unit where
  sendAdvert := id
  setClock := fun host _ => (false, host)
  nodeName := fun _ => List.replicate 200 0x6E
  setNodeName := fun host _ => (false, host)
  saveSetting := fun host _ _ => (false, host)
  requestReboot := id
  uptime := fun _ => 0

/- The admin of that host logs in. -/
def longNamedRoom : Room Unit × UInt32 :=
  under numbering
    (.create
        { guestPassword := ascii "g"
          adminPassword := ascii "a"
          admin := some longNamed } (), 1)
    (.anon (key 1)
      (writeUint32 7 ++ writeUint32 0 ++ ascii "a"))

/- A key whose first four bytes are all zero. -/
def faint : PublicKey :=
  copyInto _ (List.replicate 31 0 ++ [1])

/- The owner of that key and another guest log in. -/
def faintRoom : Room Unit × UInt32 :=
  [.anon faint
      (writeUint32 7 ++ writeUint32 0 ++ ascii "g"),
    loginOf 2 7 0].foldl (under numbering) (quietRoom, 1)

/- What the owner of that key sends to the room. -/
def faintText : Event Unit :=
  .payload (.bare faint) .txtMsg
    (writeUint32 8 ++ TextType.plain.value :: ascii "hi")

/-
  A reply to `get name` is cut, on purpose. And a text of
  somebody whose key starts with four zeros is pushed as if
  it had come on a channel.
-/
theorem a_reply_is_cut_and_an_author_left_out :
    (maxCliReply < longNamedRoom.1.nameLine.length ∧
      textsIn
          (turn numbering longNamedRoom
            (.payload (.bare (key 1)) .txtMsg
              (writeUint32 8 ++
                (TextType.cli.value <<< 2) ::
                  ascii "get name"))).event.2 =
        [longNamedRoom.1.nameLine.take maxCliReply]) ∧
      (faintRoom.1.postOf faintText).map Prod.fst =
          some faint ∧
        textsIn
            (turn numbering
              (under numbering faintRoom faintText)
              (.tick 0)).event.2 =
          [ascii "hi"] := by
  decide +kernel

end Example

end Room

end MeshCore
