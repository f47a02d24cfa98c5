import MeshCore.Room.Commands

/-
  What a room does with what routing hands it, and how posts
  leave it again.

  Key definitions include:
    * `Room.onPayload`, `Room.handleText`
    * `Room.handleRequest`
    * `Room.onGroup`
    * `Room.tick`, `Room.pushNextPost`
    * `Room.onAck`, `Room.onDeliveryFailed`
    * `Room.delegate`
-/

namespace MeshCore

namespace Room

variable {η : Type}

------------------------------------------------------------
-- Requests
------------------------------------------------------------

/- A count, cut to the one byte it is told in. -/
def countByte (n : Nat) : UInt8 :=
  UInt8.ofNat (min n 255)

/- The nine bytes a keep-alive is acknowledged over. -/
def keepAliveBytes (plain : Bytes) : Bytes :=
  (copyInto keepAliveAckBytes plain).toList

def sendStatusResponse
    (room : Room η)
    (client : Client)
    (type : RequestType) :
    SenderM Unit := do
  let nonce ← randomBytes loginResponseNonceSize
  let _ ← sendDirect client.pk .response
    (writeUint32 room.serverTime ++
      [responseOk, type.value, client.access.value,
        countByte room.posts.length,
        countByte room.clients.length,
        countByte (room.unreadFor client)] ++
      nonce ++ writeVersion room.config.firmwareVersion)
    false
  return ()

/- A bookmark of zero means none, and is left alone. -/
def carriesBookmark (plain : Bytes) : Bool :=
  keepAliveAckBytes ≤ plain.length ∧
    0 < readUint32 plain requestPrefixSize

def moveBookmark
    (room : Room η)
    (row : Nat)
    (plain : Bytes) :
    Room η :=
  if carriesBookmark plain then
    room.modifyClient row fun client =>
      { client with
        syncSeq :=
          room.seqFromTimestamp
            (readUint32 plain requestPrefixSize) }
  else room

section Acknowledging

variable [CryptoCore]

def sendKeepAliveAck
    (room : Room η)
    (client : Client)
    (plain : Bytes) :
    SenderM Unit :=
  sendAck client.pk
    (expectedAck (keepAliveBytes plain) client.pk)
    [countByte (room.unreadFor client)]

/- A request as old as the last one is allowed through. -/
def handleRequest
    (room : Room η)
    (row : Nat)
    (plain : Bytes) :
    SenderM (Bool × Room η) :=
  if plain.length < requestPrefixSize then
    return (false, room)
  else
    let timestamp := readUint32 plain 0
    if timestamp < (room.client row).lastRequest then
      return (false, room)
    else
      let room :=
        room.modifyClient row fun client =>
          { client with lastRequest := timestamp }
      if ¬ room.can (room.client row) .read then
        return (false, room)
      else
        match requestTypeOf (plain.getD 4 0) with
        | some .keepAlive => do
            let room :=
              room.modifyClient row fun client =>
                { client with retryAfter := 0 }
            let room := room.moveBookmark row plain
            room.sendKeepAliveAck (room.client row) plain
            return (true, room)
        | some .status => do
            room.sendStatusResponse (room.client row) .status
            return (true, room)
        | none => return (false, room)

------------------------------------------------------------
-- Channels
------------------------------------------------------------

/- Channel traffic that carries the plaintext. -/
def channelPayload
    (channel : Channel)
    (plain : Bytes) :
    Option Bytes :=
  (sealPlaintext channel.secret plain maxPacketPayload).bind
    fun sealing =>
      encodeGroup
        { channelHash := channel.hash
          cipherMac := sealing.mac.toList
          ciphertext := sealing.ciphertext }
        maxPacketPayload

def publishTo (plain : Bytes) : List Channel → SenderM Unit
| [] => return ()
| channel :: rest => do
    match channelPayload channel plain with
    | none => publishTo plain rest
    | some payload => do
        sendFlood .grpTxt payload
        publishTo plain rest

/- Only what was sent to us directly goes to a channel. -/
def publishToChannels
    (room : Room η)
    (post : Post) :
    SenderM Unit :=
  match
    encodeText
      { timestamp := post.timestamp
        txtType := TextType.plain.value
        attempt := 0
        message := post.text }
      maxPacketPayload
  with
  | none => return ()
  | some plain => publishTo plain room.config.channels

/- The plaintext, if the channel's key opens the message. -/
def openOn
    (group : GroupMsg)
    (channel : Channel) :
    Option Bytes :=
  if channel.hash ≠ group.channelHash then none
  else
    openCiphertext channel.secret
      (copyInto _ group.cipherMac)
      group.ciphertext group.ciphertext.length

/- Nobody's key: it is the author of channel messages. -/
def anonymous : PublicKey :=
  Vector.replicate packetPublicKeySize 0

/- The first channel that opens a message is the only one. -/
def channelText
    (room : Room η)
    (type : PayloadType)
    (payload : Bytes) :
    Option TextMsg :=
  if ¬ room.config.type.keepsBoard ∨ type ≠ .grpTxt then
    none
  else
    (decodeGroup payload).bind fun group =>
      ((room.config.channels.findSome?
          (openOn group)).bind decodeText).filter
        fun message =>
          textTypeOf message.txtType = some .plain

/- A channel message may become a post, and nothing else. -/
def onGroup
    (room : Room η)
    (type : PayloadType)
    (payload : Bytes) :
    Room η :=
  match room.channelText type payload with
  | none => room
  | some message =>
      (room.addPost anonymous message.timestamp
        message.message).2

------------------------------------------------------------
-- Text
------------------------------------------------------------

def handleText
    (room : Room η)
    (contact : Contact)
    (plain : Bytes) :
    SenderM (Bool × Room η) :=
  match decodeText plain, room.findClient contact.pk with
  | some message, some row =>
      match textTypeOf message.txtType with
      | some .plain =>
          if ¬ room.can (room.client row) .post then
            return (false, room)
          else do
            let post :=
              room.makePost contact.pk message.timestamp
                message.message
            let room :=
              (room.addPost contact.pk message.timestamp
                message.message).2
            room.publishToChannels post
            return (true, room)
      | some .cli =>
          room.handleCommand row message.timestamp
            message.message
      | _ => return (false, room)
  | _, _ => return (false, room)

def onPayload
    (room : Room η)
    (contact : Contact)
    (type : PayloadType)
    (plain : Bytes) :
    SenderM (Room η) :=
  match type with
  | .txtMsg => do
      let (_, room) ← room.handleText contact plain
      return room
  | .req =>
      match room.findClient contact.pk with
      | none => return room
      | some row => do
          let (_, room) ← room.handleRequest row plain
          return room
  | _ => return room

end Acknowledging

/- A command is answered, so it is not acknowledged too. -/
def shouldAck (type : PayloadType) (plain : Bytes) : Bool :=
  if type = .req then false
  else if type ≠ .txtMsg then true
  else
    match decodeText plain with
    | none => true
    | some message => textTypeOf message.txtType ≠ some .cli

/- What the type refuses, and then what the policy does. -/
def shouldForward
    (room : Room η)
    (p : Packet) :
    Bool × Room η :=
  if ¬ room.config.type.repeats then (false, room)
  else
    match room.config.forwarder with
    | none => (false, room)
    | some policy =>
        let (carry, policy) :=
          policy.shouldForward p room.now room.radioLoad
        (carry,
          { room with
            config :=
              { room.config with
                forwarder := some policy } })

------------------------------------------------------------
-- Pushing
------------------------------------------------------------

/- The name the author of a post advertises, if any. -/
def authorNameOf (store : Store) (post : Post) : Bytes :=
  match
    (store.findByHash (post.author.toList.getD 0 0)).find?
      fun candidate =>
        authorPrefixOf candidate.pk = post.author
  with
  | none => []
  | some candidate => candidate.name.take maxPostAuthorName

/- What a client is shown of a post. -/
def pushBodyFor (store : Store) (post : Post) : Bytes :=
  let name := authorNameOf store post
  let author :=
    if post.author = authorPrefixOf anonymous then []
    else if name = [] then
      ascii "?" ++ post.author.toList.flatMap hexByte ++
        ascii ": "
    else name ++ ascii ": "
  (author ++ post.text).take maxPushBody

/- Whether a row is to be pushed to now. -/
def pushable (room : Room η) (row : Nat) : Bool :=
  let client := room.client row
  ¬ client.pending ∧
    client.retryAfter ≤ room.now ∧
    room.can client .read ∧
    (room.nextPostFor client).isSome

/- Round robin, from where the last push stopped. -/
def nextClientToPush
    (room : Room η) :
    Option Nat × Room η :=
  let count := room.clients.length
  match
    ((List.range count).map fun step =>
      (room.nextClientIdx + step) % count).find?
        room.pushable
  with
  | none => (none, room)
  | some row =>
      (some row,
        { room with nextClientIdx := (row + 1) % count })

/- The plaintext of a push; it names no recipient. -/
def pushPlain (store : Store) (post : Post) : Option Bytes :=
  encodeText
    { timestamp := post.timestamp
      txtType := TextType.signed.value
      attempt := 0
      message := pushBodyFor store post }
    maxPacketPayload

/- One post at a time for each client. -/
def pushNextPost
    (room : Room η)
    (row : Nat) :
    SenderM (Room η) :=
  let client := room.client row
  match room.nextPostFor client with
  | none => return room
  | some post => do
      let store ← readStore
      match pushPlain store post with
      | none => return room
      | some payload => do
          let id ← sendDirect client.pk .txtMsg payload true
          return room.modifyClient row fun client =>
            { client with
              pendingId := id
              pending := true
              pendingSeq := post.seq }

def tick (room : Room η) (now : Millis) : SenderM (Room η) :=
  let room := { room with now := now }
  match room.nextClientToPush with
  | (none, room) => return room
  | (some row, room) => room.pushNextPost row

------------------------------------------------------------
-- The Fate Of A Push
------------------------------------------------------------

/- The client waits for the fate of this send. -/
def Awaits (id : SendId) (client : Client) : Prop :=
  client.pending = true ∧ client.pendingId = id

instance (id : SendId) : DecidablePred (Awaits id) :=
  fun _ => inferInstanceAs (Decidable (_ ∧ _))

/- The first row that waits for a send is changed. -/
def settle
    (room : Room η)
    (id : SendId)
    (f : Client → Client) :
    Room η :=
  match room.clients.findIdx? (Awaits id ·) with
  | none => room
  | some row => room.modifyClient row f

/- Only now does the bookmark move. -/
def onAck (room : Room η) (id : SendId) : Room η :=
  room.settle id fun client =>
    { client with
      syncSeq := client.pendingSeq
      pending := false
      retryAfter := 0 }

/- The bookmark stays, and the client is left in peace. -/
def onDeliveryFailed
    (room : Room η)
    (id : SendId) :
    Room η :=
  room.settle id fun client =>
    { client with
      pending := false
      retryAfter := room.now + room.config.retryDelay }

------------------------------------------------------------
-- The Delegate
------------------------------------------------------------

/- What routing sees of a room. -/
def delegate [CryptoCore] : Delegate (Room η) where
  onPayload := onPayload
  onAnon := onAnon
  keysMatching := keysMatching
  onGroup := fun room type payload =>
    return room.onGroup type payload
  onTrace := fun room _ _ => return room
  onAck := onAck
  onDeliveryFailed := onDeliveryFailed
  shouldAck := fun _ => shouldAck
  shouldForward := shouldForward

end Room

end MeshCore
