import MeshCore.Room.Login

/-
  Commands: what an admin types, and what is answered.

  A command is never acknowledged, so every path replies.
  Whatever reaches outside the room goes through the host,
  and a room without one refuses it.

  Key definitions include:
    * `Room.takeWord`
    * `Room.sendCliReply`
    * `Room.handleCommand`
-/

namespace MeshCore

namespace Room

variable {η : Type}

------------------------------------------------------------
-- Words
------------------------------------------------------------

/- What words are kept apart by. -/
def isSpace (b : UInt8) : Bool :=
  b = 0x20 ∨ b = 0x09

/- The leading word, and the line past it. -/
def takeWord (line : Bytes) : Bytes × Bytes :=
  let line := line.dropWhile isSpace
  (line.takeWhile (¬ isSpace ·),
    (line.dropWhile (¬ isSpace ·)).drop 1)

def isDigit (b : UInt8) : Bool :=
  48 ≤ b ∧ b ≤ 57

/- Ten digits at most, and nothing but digits. -/
def parseUint32 (text : Bytes) : Option UInt32 :=
  if text = [] ∨ 10 < text.length then none
  else if ¬ text.all isDigit then none
  else
    let value :=
      text.foldl (fun n b => n * 10 + (b.toNat - 48)) 0
    if 0xFFFFFFFF < value then none
    else some (UInt32.ofNat value)

def parseOnOff (text : Bytes) : Option Bool :=
  if text = ascii "on" ∨ text = ascii "1" ∨
      text = ascii "true" then
    some true
  else if text = ascii "off" ∨ text = ascii "0" ∨
      text = ascii "false" then
    some false
  else none

def onOff (on : Bool) : Bytes :=
  if on then ascii "on" else ascii "off"

------------------------------------------------------------
-- Dates
------------------------------------------------------------

/- Year, month and day of a day since the epoch. -/
def civilFromDays (days : Nat) : Nat × Nat × Nat :=
  let days := days + 719468
  let era := days / 146097
  let dayOfEra := days - era * 146097
  let yearOfEra :=
    (dayOfEra - dayOfEra / 1460 + dayOfEra / 36524 -
      dayOfEra / 146096) / 365
  let dayOfYear :=
    dayOfEra -
      (365 * yearOfEra + yearOfEra / 4 - yearOfEra / 100)
  let monthPrime := (5 * dayOfYear + 2) / 153
  let day := dayOfYear - (153 * monthPrime + 2) / 5 + 1
  let month :=
    if monthPrime < 10 then monthPrime + 3
    else monthPrime - 9
  (yearOfEra + era * 400 + (if month ≤ 2 then 1 else 0),
    month, day)

def formatUtc (epoch : UInt32) : Bytes :=
  let seconds := epoch.toNat % 86400
  let (year, month, day) :=
    civilFromDays (epoch.toNat / 86400)
  decimalPadded (seconds / 3600) ++ ascii ":" ++
    decimalPadded (seconds / 60 % 60) ++ ascii ":" ++
    decimalPadded (seconds % 60) ++ ascii " " ++
    decimal day ++ ascii "/" ++ decimal month ++
    ascii "/" ++ decimal year ++ ascii " UTC"

------------------------------------------------------------
-- Replies
------------------------------------------------------------

/- A reply that does not fit is cut, never dropped. -/
@[irreducible] def sendCliReply
    (room : Room η)
    (dest : PublicKey)
    (text : Bytes) :
    SenderM Unit :=
  match
    encodeText
      { timestamp := room.serverTime
        txtType := TextType.cli.value
        attempt := 0
        message := text.take maxCliReply }
      maxPacketPayload
  with
  | none => return ()
  | some payload => do
      let _ ← sendDirect dest .txtMsg payload false
      return ()

/- Reply, and leave the room as it is. -/
def reply
    (room : Room η)
    (dest : PublicKey)
    (text : Bytes) :
    SenderM (Room η) := do
  room.sendCliReply dest text
  return room

def saveSetting
    (room : Room η)
    (key value : Bytes) :
    Bool × Room η :=
  match room.config.admin with
  | none => (false, room)
  | some admin =>
      let (stored, host) :=
        admin.saveSetting room.host key value
      (stored, { room with host := host })

------------------------------------------------------------
-- One Command Each
------------------------------------------------------------

/- Without an argument the clock is told, with one set. -/
def commandClock
    (room : Room η)
    (dest : PublicKey)
    (rest : Bytes) :
    SenderM (Room η) :=
  let argument := (takeWord rest).1
  if argument = [] then
    if room.serverTime = 0 then
      room.reply dest (ascii "ERR - clock not set")
    else
      room.reply dest
        (formatUtc room.serverTime ++ ascii " (" ++
          decimal room.serverTime.toNat ++ ascii ")")
  else
    match parseUint32 argument with
    | none =>
        room.reply dest
          (ascii "ERR - expected a unix timestamp")
    | some epoch =>
        if epoch ≤ 1577836800 then
          room.reply dest
            (ascii "ERR - timestamp before 2020, refused")
        else
          let (accepted, room) :=
            match room.config.admin with
            | none => (false, room)
            | some admin =>
                let (accepted, host) :=
                  admin.setClock room.host epoch
                (accepted, { room with host := host })
          if accepted then
            (room.setServerTime epoch).reply dest
              (ascii "OK - clock set to " ++
                formatUtc epoch)
          else
            room.reply dest
              (ascii "ERR - host refused the clock change")

def setName
    (room : Room η)
    (dest : PublicKey)
    (value : Bytes) :
    SenderM (Room η) :=
  if value = [] ∨ maxNodeName < value.length then
    room.reply dest
      (ascii "ERR - name must be 1.." ++
        decimal maxNodeName ++ ascii " characters")
  else
    match room.config.admin with
    | none =>
        room.reply dest
          (ascii "ERR - host refused the name change")
    | some admin =>
        let (accepted, host) :=
          admin.setNodeName room.host value
        if accepted then
          { room with host := admin.sendAdvert host }.reply
            dest
            (ascii "OK - name is now " ++ cString value)
        else
          { room with host := host }.reply dest
            (ascii "ERR - host refused the name change")

/- Stored first and applied second, as every setting is. -/
def setPassword
    (room : Room η)
    (dest : PublicKey)
    (forAdmin : Bool)
    (value : Bytes) :
    SenderM (Room η) :=
  if maxPassword < value.length then
    room.reply dest
      (ascii "ERR - password longer than " ++
        decimal maxPassword ++ ascii " characters")
  else
    let (stored, room) :=
      room.saveSetting
        (if forAdmin then ascii "room.admin_password"
          else ascii "room.guest_password")
        value
    if stored then
      { room with
        config :=
          if forAdmin then
            { room.config with adminPassword := value }
          else
            { room.config with
              guestPassword := value } }.reply
        dest
        (ascii "OK - " ++
          (if forAdmin then ascii "admin"
            else ascii "guest") ++
          ascii " password " ++
          (if value = [] then ascii "cleared"
            else ascii "set"))
    else
      room.reply dest
        (ascii "ERR - could not store the new password")

def setAnonymousRead
    (room : Room η)
    (dest : PublicKey)
    (value : Bytes) :
    SenderM (Room η) :=
  match parseOnOff value with
  | none =>
      room.reply dest (ascii "ERR - expected on or off")
  | some allow =>
      let (stored, room) :=
        room.saveSetting (ascii "room.anonymous_read")
          (if allow then ascii "true" else ascii "false")
      if stored then
        { room with
          config :=
            { room.config with
              allowAnonymousRead := allow } }.reply
          dest
          (ascii "OK - anonymous read " ++ onOff allow)
      else
        room.reply dest
          (ascii "ERR - could not store the setting")

/- A setting of the transit policy, stored and applied. -/
def setForwarder
    (room : Room η)
    (dest : PublicKey)
    (key value : Bytes)
    (apply : Repeater.Policy → Repeater.Policy)
    (text : Repeater.Policy → Bytes) :
    SenderM (Room η) :=
  match room.config.forwarder with
  | none =>
      room.reply dest
        (ascii "ERR - no transit policy here")
  | some policy =>
      let (stored, room) := room.saveSetting key value
      if stored then
        { room with
          config :=
            { room.config with
              forwarder := some (apply policy) } }.reply
          dest (text (apply policy))
      else
        room.reply dest
          (ascii "ERR - could not store the setting")

def setRepeat
    (room : Room η)
    (dest : PublicKey)
    (value : Bytes) :
    SenderM (Room η) :=
  match parseOnOff value with
  | none =>
      room.reply dest (ascii "ERR - expected on or off")
  | some on =>
      room.setForwarder dest (ascii "repeater.enabled")
        (if on then ascii "true" else ascii "false")
        (·.setEnabled on)
        fun _ => ascii "OK - repeating " ++ onOff on

def setHopsMax
    (room : Room η)
    (dest : PublicKey)
    (value : Bytes) :
    SenderM (Room η) :=
  match
    (parseUint32 value).filter fun hops =>
      hops ≠ 0 ∧ hops.toNat ≤ maxHopCount
  with
  | none =>
      room.reply dest
        (ascii "ERR - hops must be 1.." ++
          decimal maxHopCount)
  | some hops =>
      room.setForwarder dest (ascii "repeater.max_hops")
        (decimal hops.toNat)
        (·.setMaxHops hops.toUInt8)
        fun policy =>
          ascii "OK - carrying up to " ++
            decimal policy.config.maxHops.toNat ++
            ascii " hops"

def commandSet
    (room : Room η)
    (dest : PublicKey)
    (rest : Bytes) :
    SenderM (Room η) :=
  let (key, rest) := takeWord rest
  let value := trimmed rest
  if key = ascii "name" then room.setName dest value
  else if key = ascii "password" then
    room.setPassword dest true value
  else if key = ascii "guest.password" then
    room.setPassword dest false value
  else if key = ascii "anonymous.read" then
    room.setAnonymousRead dest value
  else if key = ascii "repeat" then
    room.setRepeat dest value
  else if key = ascii "hops.max" then
    room.setHopsMax dest value
  else
    room.reply dest
      (ascii "ERR - known keys: name, password, " ++
        ascii "guest.password, anonymous.read, repeat, " ++
        ascii "hops.max")

/- Hours and minutes, as `%uh%02um` prints them. -/
def formatUptime (uptime : UInt32) : Bytes :=
  decimal (uptime / 3600).toNat ++ ascii "h" ++
    decimalPadded (uptime / 60 % 60).toNat ++ ascii "m"

/- What the node does not have is left out of the line. -/
def statsLine (room : Room η) : Bytes :=
  let uptime :=
    (room.config.admin.map (·.uptime room.host)).getD 0
  let board :=
    if room.config.type.keepsBoard then
      ascii "posts " ++ decimal room.posts.length ++
        ascii "/" ++ decimal maxPosts ++ ascii ", "
    else []
  let line :=
    board ++ ascii "clients " ++
      decimal room.clients.length ++ ascii "/" ++
      decimal maxRoomClients ++ ascii ", up " ++
      formatUptime uptime
  match room.config.forwarder with
  | none => line
  | some policy =>
      let transit := policy.stats
      let refused :=
        transit.hopLimit + transit.blocked +
          transit.rateLimited + transit.budget
      line ++ ascii ", fwd " ++
        decimal transit.forwarded.toNat ++
        ascii ", refused " ++ decimal refused.toNat ++
        ascii ", duty " ++
        decimal (room.radioLoad / 10).toNat ++ ascii "." ++
        decimal (room.radioLoad % 10).toNat ++ ascii "%"

def transitLine (policy : Repeater.Policy) : Bytes :=
  let transit := policy.stats
  ascii "repeat " ++ onOff policy.config.enabled ++
    ascii ", max " ++ decimal policy.config.maxHops.toNat ++
    ascii " hops, fwd " ++
    decimal transit.forwarded.toNat ++
    ascii ", hops " ++ decimal transit.hopLimit.toNat ++
    ascii ", blocked " ++ decimal transit.blocked.toNat ++
    ascii ", rate " ++ decimal transit.rateLimited.toNat ++
    ascii ", budget " ++ decimal transit.budget.toNat

/- Minutes since a neighbour was heard, or a dash. -/
def ageOf (room : Room η) (contact : Contact) : Bytes :=
  if room.serverTime ≠ 0 ∧ contact.lastHeard ≠ 0 ∧
      contact.lastHeard ≤ room.serverTime then
    decimal
        ((room.serverTime - contact.lastHeard) / 60).toNat ++
      ascii "m"
  else ascii "-"

def neighbourEntry
    (room : Room η)
    (contact : Contact) :
    Bytes :=
  let name :=
    if contact.name = [] then ascii "?"
    else contact.name.take 12
  hexByte contact.hash ++ ascii " " ++ cString name ++
    ascii " " ++ decimalSigned contact.snr.toInt ++
    ascii "dB " ++ room.ageOf contact

/- Entries are added as long as the reply holds them. -/
def appendNeighbours
    (room : Room η)
    (out : Bytes) :
    List Contact → Bytes
| [] => out
| contact :: rest =>
    let entry :=
      (if out = [] then [] else ascii "; ") ++
        room.neighbourEntry contact
    if maxCliReply < out.length + entry.length then out
    else room.appendNeighbours (out ++ entry) rest

def neighbourList (room : Room η) (store : Store) : Bytes :=
  match store.neighbours (maxCliReply / 24) with
  | [] => ascii "no neighbours heard yet"
  | heard => room.appendNeighbours [] heard

def nameLine (room : Room η) : Bytes :=
  let name :=
    (room.config.admin.map (·.nodeName room.host)).getD []
  ascii "name " ++
    (if name = [] then ascii "(unknown)" else cString name)

def commandGet
    (room : Room η)
    (dest : PublicKey)
    (rest : Bytes) :
    SenderM (Room η) :=
  let key := (takeWord rest).1
  if key = ascii "stats" then room.reply dest room.statsLine
  else if key = ascii "transit" then
    match room.config.forwarder with
    | none =>
        room.reply dest
          (ascii "ERR - no transit policy here")
    | some policy => room.reply dest (transitLine policy)
  else if key = ascii "neighbors" ∨
      key = ascii "neighbours" then do
    let store ← readStore
    room.reply dest (room.neighbourList store)
  else if key = ascii "name" then
    room.reply dest room.nameLine
  else if key = ascii "time" then room.commandClock dest []
  else
    room.reply dest
      (ascii "ERR - known keys: stats, transit, " ++
        ascii "neighbors, name, time")

/- The clients keep their bookmarks. -/
def commandClear
    (room : Room η)
    (dest : PublicKey)
    (rest : Bytes) :
    SenderM (Room η) :=
  let key := (takeWord rest).1
  if key = ascii "posts" then
    if ¬ room.config.type.keepsBoard then
      room.reply dest (ascii "ERR - no board on this node")
    else
      { room with posts := [] }.reply dest
        (ascii "OK - " ++ decimal room.posts.length ++
          ascii " posts cleared")
  else if key = ascii "stats" then
    match room.config.forwarder with
    | none =>
        room.reply dest
          (ascii "ERR - no transit policy here")
    | some policy =>
        { room with
          config :=
            { room.config with
              forwarder := some policy.clearStats } }.reply
          dest (ascii "OK - transit counters cleared")
  else
    room.reply dest (ascii "ERR - known keys: posts, stats")

------------------------------------------------------------
-- The Dispatcher
------------------------------------------------------------

/- A command that was taken, and the room it left. -/
def taken
    (command : SenderM (Room η)) :
    SenderM (Bool × Room η) := do
  let room ← command
  return (true, room)

def refused
    (command : SenderM (Room η)) :
    SenderM (Bool × Room η) := do
  let room ← command
  return (false, room)

def runCommand
    (room : Room η)
    (dest : PublicKey)
    (line : Bytes) :
    SenderM (Bool × Room η) :=
  let (verb, rest) := takeWord (trimmed line)
  if verb = ascii "help" then
    taken
      (room.reply dest
        (ascii "clock, time <epoch>, ver, advert, set, " ++
          ascii "get, clear posts|stats, reboot"))
  else if verb = ascii "ver" then
    taken
      (room.reply dest
        (ascii "MeshCore room v" ++
          decimal room.config.firmwareVersion.toNat))
  else if verb = ascii "clock" ∨ verb = ascii "time" then
    taken (room.commandClock dest rest)
  else if verb = ascii "advert" then
    match room.config.admin with
    | none =>
        refused
          (room.reply dest
            (ascii "ERR - no radio attached"))
    | some admin =>
        taken
          ({ room with
              host := admin.sendAdvert room.host }.reply
            dest (ascii "OK - advert sent"))
  else if verb = ascii "set" then
    taken (room.commandSet dest rest)
  else if verb = ascii "get" then
    taken (room.commandGet dest rest)
  else if verb = ascii "clear" then
    taken (room.commandClear dest rest)
  else if verb = ascii "reboot" then
    match room.config.admin with
    | none =>
        refused
          (room.reply dest
            (ascii "ERR - not supported here"))
    | some admin =>
        taken do
          room.sendCliReply dest (ascii "OK - rebooting")
          return { room with
            host := admin.requestReboot room.host }
  else
    refused
      (room.reply dest
        (ascii "ERR - unknown command '" ++
          cString (verb.take 24) ++ ascii "'"))

/-
  A refusal answers too. An older timestamp was replayed; an
  equal one comes from a client that saw no reply.
-/
def handleCommand
    (room : Room η)
    (row : Nat)
    (timestamp : UInt32)
    (line : Bytes) :
    SenderM (Bool × Room η) :=
  let client := room.client row
  if ¬ room.can client .command then
    refused
      (room.reply client.pk
        (ascii "ERR - admin rights required"))
  else if timestamp < client.lastCommand then
    return (false, room)
  else
    (room.modifyClient row fun client =>
      { client with
        lastCommand := timestamp }).runCommand
      client.pk line

end Room

end MeshCore
