import MeshCore.Crypto.Protocol
import MeshCore.Repeater.Policy
import MeshCore.Routing.Interface

/-
  The noticeboard: what a room keeps, and who may do what.

  A client is one row of a table, and a pointer to one is
  the index of its row. What only the host can do is reached
  through `Admin`, whose functions act on a host state the
  room carries but does not look into.

  Key definitions include:
    * `Post`, `Client`
    * `Room`
    * `Room.can`
    * `Room.addPost`
    * `Room.nextPostFor`
    * `Room.seqFromTimestamp`
-/

namespace MeshCore

------------------------------------------------------------
-- Kinds
------------------------------------------------------------

/- The text types; the wire has room for others. -/
inductive TextType where
| plain
| cli
| signed
deriving DecidableEq, Repr

def TextType.value : TextType → UInt8
| .plain => 0
| .cli => 1
| .signed => 2

def textTypeOf (value : UInt8) : Option TextType :=
  if value = 0 then some .plain
  else if value = 1 then some .cli
  else if value = 2 then some .signed
  else none

inductive RequestType where
| status
| keepAlive
deriving DecidableEq, Repr

def RequestType.value : RequestType → UInt8
| .status => 0x01
| .keepAlive => 0x02

def requestTypeOf (value : UInt8) : Option RequestType :=
  if value = 0x01 then some .status
  else if value = 0x02 then some .keepAlive
  else none

/- The rights of a client; a file may hold any byte. -/
inductive Access where
| none
| readOnly
| guest
| admin
| other (code : UInt8) (hCode : 3 < code)
deriving DecidableEq, Repr

def Access.value : Access → UInt8
| .none => 0
| .readOnly => 1
| .guest => 2
| .admin => 3
| .other code _ => code

def Access.ofByte (b : UInt8) : Access :=
  if hCode : 3 < b then .other b hCode
  else if b = 0 then .none
  else if b = 1 then .readOnly
  else if b = 2 then .guest
  else .admin

theorem Access.ofByte_value (access : Access) :
    ofByte access.value = access := by
  cases access with
  | other code hCode => exact dif_pos hCode
  | _ => rfl

inductive Action where
| read
| post
| command
deriving DecidableEq, Repr

inductive NodeType where
| room
| repeater
| roomRepeater
deriving DecidableEq, Repr

def NodeType.keepsBoard : NodeType → Bool
| .repeater => false
| _ => true

def NodeType.repeats : NodeType → Bool
| .room => false
| _ => true

------------------------------------------------------------
-- Posts And Clients
------------------------------------------------------------

/- The four bytes of a key that are kept with a post. -/
abbrev AuthorPrefix :=
  Vector UInt8 postAuthorPrefix

def authorPrefixOf (pk : PublicKey) : AuthorPrefix :=
  copyInto postAuthorPrefix pk.toList

structure Post where
  seq : UInt32
  timestamp : UInt32
  author : AuthorPrefix
  text : Bytes
deriving DecidableEq, Repr

structure Client where
  pk : PublicKey
  access : Access := .none
  syncSeq : UInt32 := 0
  lastLogin : UInt32 := 0
  lastCommand : UInt32 := 0
  lastRequest : UInt32 := 0
  pending : Bool := false
  pendingId : SendId := 0
  pendingSeq : UInt32 := 0
  retryAfter : Millis := 0
deriving DecidableEq, Repr

instance : Inhabited Client :=
  ⟨{ pk := Vector.replicate packetPublicKeySize 0 }⟩

/- The client has not had the post and did not write it. -/
def Post.isNewFor (post : Post) (client : Client) : Bool :=
  client.syncSeq < post.seq ∧
    post.author ≠ authorPrefixOf client.pk

/- Wrong passwords, counted for each key. -/
structure Failure where
  pk : PublicKey
  count : UInt8 := 0
  lockedUntil : Millis := 0
deriving DecidableEq, Repr

/- A channel, and the byte its messages carry. -/
structure Channel where
  secret : SharedSecret
  hash : UInt8
deriving DecidableEq, Repr

def channelHashOf
    [CryptoCore]
    (secret : SharedSecret) :
    UInt8 :=
  (CryptoCore.sha256 secret.toList).toList.getD 0 0

------------------------------------------------------------
-- The Room
------------------------------------------------------------

/- What a command needs and the room does not own. -/
structure Admin (η : Type) where
  sendAdvert : η → η
  setClock : η → UInt32 → Bool × η
  nodeName : η → Bytes
  setNodeName : η → Bytes → Bool × η
  saveSetting : η → Bytes → Bytes → Bool × η
  requestReboot : η → η
  uptime : η → UInt32

structure RoomConfig (η : Type) where
  type : NodeType := .room
  adminPassword : Bytes := []
  guestPassword : Bytes := []
  allowAnonymousRead : Bool := false
  clockWindow : UInt32 := 3600
  retryDelay : Millis := 5000
  firmwareVersion : UInt16 := 1
  maxLoginAttempts : UInt8 := 5
  loginLockout : Millis := 60000
  channels : List Channel := []
  admin : Option (Admin η) := none
  forwarder : Option Repeater.Policy := none

structure Room (η : Type) where
  config : RoomConfig η
  host : η
  now : Millis := 0
  serverTime : UInt32 := 0
  radioLoad : UInt32 := 0
  posts : List Post := []
  clients : List Client := []
  failures : List Failure := []
  nextClientIdx : Nat := 0
  nextSeq : UInt32 := 1

namespace Room

variable {η : Type}

def create (config : RoomConfig η) (host : η) : Room η :=
  { config := config
    host := host }

def setServerTime
    (room : Room η)
    (unixSeconds : UInt32) :
    Room η :=
  { room with serverTime := unixSeconds }

def setRadioLoad
    (room : Room η)
    (permille : UInt32) :
    Room η :=
  { room with radioLoad := permille }

------------------------------------------------------------
-- Rows
------------------------------------------------------------

def client (room : Room η) (row : Nat) : Client :=
  room.clients.getD row default

def modifyClient
    (room : Room η)
    (row : Nat)
    (f : Client → Client) :
    Room η :=
  { room with clients := room.clients.modify row f }

def findClient
    (room : Room η)
    (pk : PublicKey) :
    Option Nat :=
  room.clients.findIdx? (·.pk == pk)

------------------------------------------------------------
-- Rights
------------------------------------------------------------

def can
    (room : Room η)
    (client : Client)
    (action : Action) :
    Bool :=
  match action with
  | .read => client.access ≠ .none
  | .post =>
      room.config.type.keepsBoard ∧
        (client.access = .guest ∨ client.access = .admin)
  | .command => client.access = .admin

------------------------------------------------------------
-- Posts
------------------------------------------------------------

/- A clock outside the window is replaced with ours. -/
def sanitiseTimestamp
    (room : Room η)
    (claimed : UInt32) :
    UInt32 :=
  if room.serverTime = 0 then claimed
  else
    let window := room.config.clockWindow
    let low :=
      if window < room.serverTime then
        room.serverTime - window
      else 0
    let high := room.serverTime + window
    if low ≤ claimed ∧ claimed ≤ high then claimed
    else room.serverTime

/- The post a text becomes. -/
def makePost
    (room : Room η)
    (author : PublicKey)
    (timestamp : UInt32)
    (text : Bytes) :
    Post :=
  { seq := room.nextSeq
    timestamp := room.sanitiseTimestamp timestamp
    author := authorPrefixOf author
    text := text.take maxPostText }

def addPost
    (room : Room η)
    (author : PublicKey)
    (timestamp : UInt32)
    (text : Bytes) :
    Bool × Room η :=
  let post := room.makePost author timestamp text
  let kept :=
    if maxPosts ≤ room.posts.length then
      room.posts.drop 1
    else room.posts
  (true,
    { room with
      nextSeq := room.nextSeq + 1
      posts := kept ++ [post] })

def unreadFor (room : Room η) (client : Client) : Nat :=
  room.posts.countP (Post.isNewFor · client)

def nextPostFor
    (room : Room η)
    (client : Client) :
    Option Post :=
  room.posts.find? (Post.isNewFor · client)

/-
  The last post before the first one that is younger than
  the bookmark.
-/
def seqFromTimestamp
    (room : Room η)
    (bookmark : UInt32) :
    UInt32 :=
  ((room.posts.takeWhile (·.timestamp ≤ bookmark)).getLast?.map
    (·.seq)).getD 0

end Room

end MeshCore
