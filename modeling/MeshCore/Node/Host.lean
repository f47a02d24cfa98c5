import MeshCore.Platform.Config
import MeshCore.Platform.Plain
import MeshCore.Room.Passwords

/-
  The host of a room, and the start of a node: what the
  settings are that a config, with the overlay laid over it,
  puts in force.

  Key definitions include:
    * `HostAdmin`, `HostAdmin.admin`
    * `ListReaders`, `startRoom`
    * `InForce`, `Room.inForce`, `restart`
    * `settingsOf`

  Key facts include:
    * `the_admin_stays_outside`
    * `restart_eq`
    * `HostAdmin.saveSetting_cases`
-/

namespace MeshCore

open Platform

------------------------------------------------------------
-- The Host
------------------------------------------------------------

/-
  What a command reaches for outside the room. Whether the
  system takes a new clock is not the node's to say, and an
  exception ends the process, since nothing catches it.
-/
structure HostAdmin where
  name : Bytes
  overlay : Overlay
  disk : Disk
  startedAt : Millis
  now : Millis := 0
  rebootAt : Millis := 0
  advertWanted : Bool := false
  takesClock : Bool := true
  terminated : Bool := false

namespace HostAdmin

def rebootDelay : Millis := 3000

def sendAdvert (host : HostAdmin) : HostAdmin :=
  { host with advertWanted := true }

def setClock
    (host : HostAdmin)
    (unixSeconds : UInt32) :
    Bool × HostAdmin :=
  (1577836800 < unixSeconds ∧ host.takesClock, host)

def saveSetting
    (lib : JsonLibrary)
    (host : HostAdmin)
    (key value : Bytes) :
    Bool × HostAdmin :=
  let (stored, overlay, disk) :=
    host.overlay.set lib host.disk key value
  (stored.getD false,
    { host with
      overlay := overlay
      disk := disk
      terminated := host.terminated || stored.isNone })

/- Stored before it takes effect. -/
def setNodeName
    (lib : JsonLibrary)
    (host : HostAdmin)
    (name : Bytes) :
    Bool × HostAdmin :=
  let (stored, host) :=
    host.saveSetting lib (ascii "node.name") name
  if stored then (true, { host with name := name })
  else (false, host)

/- Held back until the reply is on the air. -/
def requestReboot (host : HostAdmin) : HostAdmin :=
  { host with rebootAt := host.now + rebootDelay }

def uptime (host : HostAdmin) : UInt32 :=
  ((host.now - host.startedAt) / 1000).toUInt32

def admin (lib : JsonLibrary) : Admin HostAdmin where
  sendAdvert := sendAdvert
  setClock := setClock
  nodeName := name
  setNodeName := setNodeName lib
  saveSetting := saveSetting lib
  requestReboot := requestReboot
  uptime := uptime

end HostAdmin

------------------------------------------------------------
-- Starting
------------------------------------------------------------

/- A name that is not known is taken for a room. -/
def nodeTypeFromName (name : Bytes) : NodeType :=
  if name = ascii "room" then .room
  else if name = ascii "repeater" then .repeater
  else if name = ascii "room-repeater" then .roomRepeater
  else .room

/- How the entries of the lists of a config are read. -/
structure ListReaders where
  blockedFrom : List Bytes → List UInt8
  channelsFrom : List Bytes → List Channel

/- Only a type that repeats has a policy. -/
def forwarderFrom
    (readers : ListReaders)
    (config : Config)
    (type : NodeType) :
    Option Repeater.Policy :=
  let transit : Repeater.Config := {}
  if type.repeats then
    some
      (Repeater.Policy.create
        { enabled :=
            config.getBool (ascii "repeater.enabled")
              transit.enabled
          maxHops :=
            .ofInt
              (config.getInt (ascii "repeater.max_hops")
                transit.maxHops.toNat)
          floodPerMinute :=
            .ofInt
              (config.getInt
                (ascii "repeater.flood_per_minute")
                transit.floodPerMinute.toNat)
          dutyCeilingPermille :=
            .ofInt
              (config.getInt (ascii "repeater.duty_ceiling")
                transit.dutyCeilingPermille.toNat)
          blocked :=
            readers.blockedFrom
              (config.getList (ascii "repeater.blocked")) })
  else none

/- The room that a config sets up, and its host. -/
def roomFrom
    (lib : JsonLibrary)
    (readers : ListReaders)
    (config : Config)
    (overlay : Overlay)
    (disk : Disk)
    (now : Millis) :
    Room HostAdmin :=
  let type :=
    nodeTypeFromName
      (config.get (ascii "node.type") (ascii "room"))
  Room.create
    { type := type
      adminPassword :=
        config.get (ascii "room.admin_password")
      guestPassword :=
        config.get (ascii "room.guest_password")
      allowAnonymousRead :=
        config.getBool (ascii "room.anonymous_read") false
      channels :=
        if type.keepsBoard then
          readers.channelsFrom
            (config.getList (ascii "room.channels"))
        else []
      admin := some (HostAdmin.admin lib)
      forwarder := forwarderFrom readers config type }
    { name :=
        config.get (ascii "node.name") (ascii "room")
      overlay := overlay
      disk := disk
      startedAt := now }

/-
  What a node starts with, before anything is read of its
  state. An overlay that is damaged is fatal.
-/
def startRoom
    (lib : JsonLibrary)
    (readers : ListReaders)
    (config : Config)
    (disk : Disk)
    (now : Millis) :
    Option (Room HostAdmin) :=
  (Overlay.load lib disk.file).map fun overlay =>
    roomFrom lib readers (config.applyOverlay overlay)
      overlay disk now

section Example

open Sample

/- A config without any lists needs no readers for them. -/
def noLists : ListReaders where
  blockedFrom := fun _ => []
  channelsFrom := fun _ => []

/- The operator has chosen a phrase of 33 letters. -/
def longPhrase : Bytes := List.replicate 33 0x61

def phrased : Config :=
  { values :=
      .ofList [(ascii "room.admin_password", longPhrase)]
    lists := ∅ }

def bareDisk : Disk :=
  { file := none
    attempts := fun _ => {} }

def phrasedRoom : Room HostAdmin :=
  roomFrom Plain.library noLists
    (phrased.applyOverlay { values := ∅ }) { values := ∅ }
    bareDisk 0

/- The admin types that phrase. -/
def phraseTyped : Bytes :=
  writeUint32 7 ++ writeUint32 0 ++ longPhrase

/- Nothing of a config is trimmed or cut where it is used. -/
theorem the_admin_stays_outside :
    ¬ ∀ (config : Config) (disk : Disk)
        (room : Room HostAdmin) (pk : PublicKey)
        (password plain : Bytes),
        startRoom Plain.library noLists config disk 0 =
            some room →
          room.Offers pk password plain →
            room.Opens pk password plain := by
  intro hAll
  have hOffers :
      phrasedRoom.Offers (key 1) longPhrase phraseTyped :=
    { inForce := .inl (by decide +kernel)
      some := by decide
      free := rfl
      newer := rfl
      spelt :=
        ⟨writeUint32 7 ++ writeUint32 0, [], by decide,
          nofun, (List.append_nil _).symm⟩ }
  have hRefused :
      (phrasedRoom.login (key 1) phraseTyped).1 = none := by
    decide +kernel
  rcases hAll phrased bareDisk phrasedRoom (key 1)
      longPhrase phraseTyped rfl hOffers with
    ⟨row, room', hTaken, -⟩
  rw [hTaken] at hRefused
  cases hRefused

end Example

------------------------------------------------------------
-- Settings In Force
------------------------------------------------------------

/- What the commands that set something can change. -/
structure InForce where
  name : Bytes
  adminPassword : Bytes
  guestPassword : Bytes
  anonymousRead : Bool
  transit : Option (Bool × UInt8)
deriving DecidableEq, Repr

/- The settings a running room acts on. -/
def Room.inForce (room : Room HostAdmin) : InForce :=
  { name := room.host.name
    adminPassword := room.config.adminPassword
    guestPassword := room.config.guestPassword
    anonymousRead := room.config.allowAnonymousRead
    transit :=
      room.config.forwarder.map fun policy =>
        (policy.config.enabled, policy.config.maxHops) }

/- What a fresh start from a disk would put in force. -/
def restart
    (lib : JsonLibrary)
    (readers : ListReaders)
    (config : Config)
    (disk : Disk) :
    Option InForce :=
  (startRoom lib readers config disk 0).map Room.inForce

/- What the transit policy makes of a hop limit. -/
def clampHops (hops : UInt8) : UInt8 :=
  (({ config := {} } : Repeater.Policy).setMaxHops
    hops).config.maxHops

/- Those settings, read off the config. -/
def settingsOf (config : Config) : InForce :=
  let transit : Repeater.Config := {}
  { name := config.get (ascii "node.name") (ascii "room")
    adminPassword :=
      config.get (ascii "room.admin_password")
    guestPassword :=
      config.get (ascii "room.guest_password")
    anonymousRead :=
      config.getBool (ascii "room.anonymous_read") false
    transit :=
      if (nodeTypeFromName
          (config.get (ascii "node.type")
            (ascii "room"))).repeats then
        some
          (config.getBool (ascii "repeater.enabled")
            transit.enabled,
          clampHops
            (.ofInt
              (config.getInt (ascii "repeater.max_hops")
                transit.maxHops.toNat)))
      else none }

theorem inForce_roomFrom
    (lib : JsonLibrary)
    (readers : ListReaders)
    (config : Config)
    (overlay : Overlay)
    (disk : Disk)
    (now : Millis) :
    (roomFrom lib readers config overlay disk now).inForce =
      settingsOf config := by
  simp only [roomFrom, Room.create, Room.inForce, settingsOf,
    forwarderFrom, apply_ite (Option.map _), Option.map_some,
    Option.map_none]
  rfl

theorem restart_eq
    (lib : JsonLibrary)
    (readers : ListReaders)
    (config : Config)
    (disk : Disk) :
    restart lib readers config disk =
      (Overlay.load lib disk.file).map fun overlay =>
        settingsOf (config.applyOverlay overlay) := by
  simp only [restart, startRoom, Option.map_map,
    Function.comp_def, inForce_roomFrom]

------------------------------------------------------------
-- What The Host Stores
------------------------------------------------------------

/-
  A setting that is text is stored in the overlay and in its
  file, or the host stays as it was.
-/
theorem HostAdmin.saveSetting_cases
    {lib : JsonLibrary} {host : HostAdmin}
    {key value : Bytes}
    (hRound : lib.RoundTrips)
    (hSound : Sound host.overlay.values)
    (hKey : key ≠ [])
    (hKeyText : Utf8 key)
    (hValueText : Utf8 value) :
    (∃ overlay disk,
        host.saveSetting lib key value =
          (true,
            { host with
              overlay := overlay
              disk := disk }) ∧
        overlay.values =
          host.overlay.values.insert key value ∧
        Overlay.load lib disk.file = some overlay) ∨
      ∃ disk,
        host.saveSetting lib key value =
          (false, { host with disk := disk }) ∧
        disk.file = host.disk.file := by
  rcases Overlay.set_cases hRound hSound hKey hKeyText
      hValueText host.disk with
    ⟨disk, hSet, hLoad⟩ | ⟨disk, hSet, hFile⟩
  · left
    refine
      ⟨{ values := host.overlay.values.insert key value },
        disk, ?_, rfl, hLoad⟩
    simp only [saveSetting, hSet, Option.getD_some,
      Option.isNone_some, Bool.or_false]
  · right
    refine ⟨disk, ?_, hFile⟩
    simp only [saveSetting, hSet, Option.getD_some,
      Option.isNone_some, Bool.or_false]

end MeshCore
