import MeshCore.Room.Board

/-
  Logging in: who gets in, with what rights, and who is made
  to wait or to leave.

  Key definitions include:
    * `Room.authenticate`
    * `Room.evictClient`
    * `Room.onAnon`
    * `Room.keysMatching`
-/

namespace MeshCore

namespace Room

variable {η : Type}

------------------------------------------------------------
-- Passwords
------------------------------------------------------------

/- What clients pad a text with. -/
def isBlank (b : UInt8) : Bool :=
  b = 0x20 ∨ b = 0x09 ∨ b = 0x0D ∨ b = 0x0A ∨ b = 0

/- Without the blanks around it. -/
def trimmed (line : Bytes) : Bytes :=
  (((line.dropWhile isBlank).reverse).dropWhile
    isBlank).reverse

/- An empty password opens nothing. -/
def passwordMatches (candidate expected : Bytes) : Bool :=
  expected ≠ [] ∧ candidate = expected

------------------------------------------------------------
-- Failures
------------------------------------------------------------

/- An expired lockout is forgotten along with its count. -/
def lockedOut
    (room : Room η)
    (pk : PublicKey) :
    Bool × Room η :=
  match room.failures.find? (·.pk == pk) with
  | none => (false, room)
  | some failure =>
      if failure.lockedUntil ≠ 0 ∧
          failure.lockedUntil ≤ room.now then
        (false,
          { room with
            failures :=
              room.failures.eraseP (·.pk == pk) })
      else (room.now < failure.lockedUntil, room)

/- One wrong password more; enough of them lock the key. -/
def Failure.again
    (room : Room η)
    (failure : Failure) :
    Failure :=
  let count :=
    if failure.count < 255 then failure.count + 1
    else failure.count
  { failure with
    count := count
    lockedUntil :=
      if room.config.maxLoginAttempts ≤ count then
        room.now + room.config.loginLockout
      else failure.lockedUntil }

/- The lockout that ends first, the first of equals. -/
def firstToExpire (failures : List Failure) : Nat :=
  (List.range failures.length).foldl
    (fun victim row =>
      match failures[row]?, failures[victim]? with
      | some failure, some best =>
          if failure.lockedUntil < best.lockedUntil then row
          else victim
      | _, _ => victim)
    0

def noteFailure (room : Room η) (pk : PublicKey) : Room η :=
  match room.failures.findIdx? (·.pk == pk) with
  | some row =>
      { room with
        failures :=
          room.failures.modify row (Failure.again room) }
  | none =>
      let kept :=
        if maxLoginFailures ≤ room.failures.length then
          room.failures.eraseIdx
            (firstToExpire room.failures)
        else room.failures
      { room with
        failures :=
          kept ++ [Failure.again room { pk := pk }] }

def clearFailures
    (room : Room η)
    (pk : PublicKey) :
    Room η :=
  { room with
    failures := room.failures.eraseP (·.pk == pk) }

------------------------------------------------------------
-- Clients
------------------------------------------------------------

/-
  Among the admins, or among the others, the one who logged
  in longest ago, the first of equals.
-/
def longestAway
    (clients : List Client)
    (admins : Bool) :
    Option Nat :=
  (List.range clients.length).foldl
    (fun victim row =>
      let client := clients.getD row default
      if decide (client.access = .admin) ≠ admins then
        victim
      else
        match victim with
        | none => some row
        | some best =>
            if client.lastLogin <
                (clients.getD best default).lastLogin then
              some row
            else some best)
    none

/- No admin goes while anybody else is there. -/
def evictClient (room : Room η) : Room η :=
  if room.clients = [] then room
  else
    let victim :=
      ((longestAway room.clients false).or
        (longestAway room.clients true)).getD 0
    { room with clients := room.clients.eraseIdx victim }

/- The row of a key, entered as the newest if it has none. -/
def enterClient
    (room : Room η)
    (pk : PublicKey) :
    Nat × Room η :=
  match room.findClient pk with
  | some row => (row, room)
  | none =>
      let room :=
        if maxRoomClients ≤ room.clients.length then
          room.evictClient
        else room
      (room.clients.length,
        { room with clients := room.clients ++ [{ pk := pk }] })

/-
  Admin, guest or neither; and where reading needs no
  password, neither gets in as well.
-/
def authenticate
    (room : Room η)
    (pk : PublicKey)
    (password : Bytes)
    (timestamp : UInt32) :
    Option Nat × Room η :=
  let replayed :=
    (room.findClient pk).any fun row =>
      decide (timestamp ≤ (room.client row).lastLogin)
  if replayed then (none, room)
  else
    let (locked, room) := room.lockedOut pk
    if locked then (none, room)
    else
      let access :=
        if passwordMatches password
            room.config.adminPassword then
          Access.admin
        else if passwordMatches password
            room.config.guestPassword then
          Access.guest
        else Access.none
      let room :=
        if access = .none then
          if password ≠ [] then room.noteFailure pk
          else room
        else room.clearFailures pk
      if access = .none ∧
          ¬ room.config.allowAnonymousRead then
        (none, room)
      else
        let access :=
          if access = .none then Access.readOnly
          else access
        let (row, room) := room.enterClient pk
        (some row,
          room.modifyClient row fun client =>
            { client with
              access := access
              lastLogin := timestamp })

------------------------------------------------------------
-- The Login Request
------------------------------------------------------------

def responseOk : UInt8 := 0

/- The low and the high byte of the version. -/
def writeVersion (version : UInt16) : Bytes :=
  [version.toUInt8, (version >>> 8).toUInt8]

/- Two replies are never one packet, thanks to the nonce. -/
def sendLoginResponse
    (room : Room η)
    (dest : PublicKey)
    (client : Client) :
    SenderM Unit := do
  let nonce ← randomBytes loginResponseNonceSize
  let _ ← sendDirect dest .response
    (writeUint32 room.serverTime ++
      [responseOk, 0,
        if client.access = .admin then 1 else 0,
        client.access.value] ++
      nonce ++ writeVersion room.config.firmwareVersion)
    false
  return ()

/- The client's own bookmark, which is taken as it comes. -/
def login
    (room : Room η)
    (pk : PublicKey)
    (plain : Bytes) :
    Option Nat × Room η :=
  if plain.length < loginRequestPrefixSize then (none, room)
  else
    let timestamp := readUint32 plain 0
    let syncSince := readUint32 plain 4
    let password :=
      trimmed
        ((plain.drop loginRequestPrefixSize).take
          maxPassword)
    match room.authenticate pk password timestamp with
    | (none, room) => (none, room)
    | (some row, room) =>
        (some row,
          room.modifyClient row fun client =>
            { client with
              syncSeq := room.seqFromTimestamp syncSince })

/- A login that is replayed or refused gets no answer. -/
def onAnon
    (room : Room η)
    (pk : PublicKey)
    (plain : Bytes) :
    SenderM (Room η) :=
  match room.login pk plain with
  | (none, room) => return room
  | (some row, room) => do
      room.sendLoginResponse pk (room.client row)
      return room

/- Everybody logged in whose key starts with this byte. -/
def keysMatching
    (room : Room η)
    (hash : UInt8)
    (limit : Nat) :
    List PublicKey :=
  ((room.clients.map (·.pk)).filter
    (PublicKey.hash · == hash)).take limit

end Room

end MeshCore
