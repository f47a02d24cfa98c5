import MeshCore.Identity.Receiver
import MeshCore.Packet.Writing
import MeshCore.Routing.Framing

/-
  Our own advert, from what it says to what others know of
  us by it: written, signed, flooded, sent on by repeaters,
  verified, and taken by a store.

  Key definitions include:
    * `Advertising.buildAdvertPayload`
    * `Advertising.Shows`
    * `Advertising.KnowsNothingElse`
    * `Advertising.Relayed`

  Key facts include:
    * `Advertising.applyAppdata_appdataOf`
    * `Advertising.buildAdvertPayload_eq`
    * `Advertising.packetVerify_of_payload`
    * `Advertising.bears_of_relayed`
    * `Advertising.advert_arrives_intact`
-/

namespace MeshCore

namespace Advertising

------------------------------------------------------------
-- What Is Said
------------------------------------------------------------

/- What an advert may call its node. -/
inductive NodeType where
| unknown
| chat
| repeater
| roomServer
| sensor
deriving DecidableEq, Repr

def NodeType.code : NodeType → UInt8
| .unknown => 0
| .chat => 1
| .repeater => 2
| .roomServer => 3
| .sensor => 4

structure Location where
  known : Bool := false
  latitude : Int32 := 0
  longitude : Int32 := 0

def appendInt32 (out : Bytes) (value : Int32) : Bytes :=
  out ++ writeUint32 value.toUInt32

def flagsOf
    (type : NodeType)
    (located named : Bool) :
    UInt8 :=
  let flags := type.code
  let flags :=
    if located then flags ||| advertHasLocation else flags
  if named then flags ||| advertHasName else flags

/- The flags, the position and the name. -/
def appdataOf
    (name : Bytes)
    (type : NodeType)
    (location : Location) :
    Bytes :=
  let appdata :=
    [flagsOf type location.known (name ≠ [])]
  let appdata :=
    if location.known then
      appendInt32 (appendInt32 appdata location.latitude)
        location.longitude
    else appdata
  appdata ++ name

/- The advert with some signature. -/
def advertOf
    (store : Store)
    (timestamp : UInt32)
    (name : Bytes)
    (type : NodeType)
    (location : Location)
    (signature : Bytes) :
    Advert :=
  { publicKey := store.selfPk.toList
    timestamp := timestamp
    signature := signature
    appdata := appdataOf name type location }

/-
  Our own advert: built with an empty signature, signed as
  the frame that results, the signature put back where it
  belongs. It is empty if the advert does not fit.
-/
def buildAdvertPayload
    (sign : PrivateKey → Bytes → Signature)
    (store : Store)
    (timestamp : UInt32)
    (name : Bytes)
    (type : NodeType)
    (location : Location) :
    Bytes :=
  let advert :=
    advertOf store timestamp name type location
      (List.replicate packetSignatureSize 0)
  match encodeAdvert advert maxPacketPayload with
  | none => []
  | some payload =>
      let frame :=
        headerOf .advert .flood :: 0x00 :: payload
      let signature := packetSign sign store.selfSk frame
      Wire.put payload
        (packetPublicKeySize + packetTimestampSize)
        signature.toList

/- A contact is what an advert of this key says. -/
structure Shows
    (c : Contact)
    (pk : PublicKey)
    (timestamp : UInt32)
    (name : Bytes)
    (type : NodeType)
    (location : Location) :
    Prop where
  pk : c.pk = pk
  timestamp : c.timestamp = timestamp
  type : c.type = type.code
  located : c.hasLocation = location.known
  latitude :
    location.known = true →
      c.latitude = location.latitude
  longitude :
    location.known = true →
      c.longitude = location.longitude
  name : c.name = name

------------------------------------------------------------
-- What Is Written Is Read
------------------------------------------------------------

/- No flag is taken for another, nor for the type. -/
theorem flagsOf_split
    (type : NodeType)
    (located named : Bool) :
    let flags := flagsOf type located named
    flags &&& advertTypeMask = type.code ∧
      (flags &&& advertHasLocation = 0 ↔ located = false) ∧
      flags &&& advertHasFeature1 = 0 ∧
      flags &&& advertHasFeature2 = 0 ∧
      (flags &&& advertHasName = 0 ↔ named = false) := by
  cases type <;> cases located <;> cases named <;> decide

/- The walk through an appdata with no feature blocks. -/
theorem applyAppdata_of_unlocated
    {flags : UInt8}
    (hLocated : flags &&& advertHasLocation = 0)
    (hFirst : flags &&& advertHasFeature1 = 0)
    (hSecond : flags &&& advertHasFeature2 = 0)
    (before : Contact)
    (name : Bytes) :
    applyAppdata before (flags :: name) =
      { before with
        type := flags &&& advertTypeMask
        hasLocation := false
        latitude := 0
        longitude := 0
        name :=
          if flags &&& advertHasName = 0 then []
          else name.take maxContactName } := by
  simp only [applyAppdata, hLocated, hFirst, hSecond,
    if_true, Option.bind_some, List.drop_one,
    List.tail_cons]
  split <;> rfl

theorem applyAppdata_of_located
    {flags : UInt8}
    (hLocated : flags &&& advertHasLocation ≠ 0)
    (hFirst : flags &&& advertHasFeature1 = 0)
    (hSecond : flags &&& advertHasFeature2 = 0)
    (before : Contact)
    (latitude longitude : UInt32)
    (name : Bytes) :
    applyAppdata before
        (flags :: (writeUint32 latitude ++
          (writeUint32 longitude ++ name))) =
      { before with
        type := flags &&& advertTypeMask
        hasLocation := true
        latitude := latitude.toInt32
        longitude := longitude.toInt32
        name :=
          if flags &&& advertHasName = 0 then []
          else name.take maxContactName } := by
  generalize hAll :
      flags :: (writeUint32 latitude ++
        (writeUint32 longitude ++ name)) = appdata
  have hLong :
      ¬ appdata.length < 1 + advertLocationSize := by
    simp only [← hAll, List.length_cons,
      List.length_append, length_writeUint32,
      advertLocationSize]
    omega
  have hLatitude : readUint32 appdata 1 = latitude := by
    rw [← hAll]
    exact readUint32_append (b := [flags]) rfl _ _
  have hLongitude : readUint32 appdata 5 = longitude := by
    rw [← hAll]
    exact readUint32_append
      (b := flags :: writeUint32 latitude) rfl _ _
  have hRest :
      appdata.drop (1 + advertLocationSize) = name := by
    rw [← hAll]
    rfl
  rw [← hAll]
  simp only [applyAppdata, hAll, if_neg hLocated, hLong,
    hFirst, hSecond, if_true, if_false, Option.bind_some,
    hLatitude, hLongitude, hRest]
  split <;> rfl

/-
  What one side writes is what the other side reads, with a
  position or without, with a name or without.
-/
theorem applyAppdata_appdataOf
    {name : Bytes}
    (hName : name.length ≤ maxContactName)
    (before : Contact)
    (type : NodeType)
    (location : Location) :
    Shows
      (applyAppdata before (appdataOf name type location))
      before.pk before.timestamp name type location := by
  rcases flagsOf_split type location.known (name ≠ []) with
    ⟨hType, hLocated, hFirst, hSecond, hNamed⟩
  have hRead :
      (if flagsOf type location.known (name ≠ []) &&&
            advertHasName = 0 then []
        else name.take maxContactName) =
        name := by
    rw [List.take_of_length_le hName]
    by_cases hEmpty : name = []
    · rw [hEmpty]
      exact ite_self _
    · rw [if_neg]
      intro hFlag
      exact hEmpty (by simpa using hNamed.mp hFlag)
  by_cases hKnown : location.known = true
  · have hParts :
        appdataOf name type location =
          flagsOf type location.known (name ≠ []) ::
            (writeUint32 location.latitude.toUInt32 ++
              (writeUint32 location.longitude.toUInt32 ++
                name)) := by
      simp [appdataOf, appendInt32, hKnown]
    have hThere :
        flagsOf type location.known (name ≠ []) &&&
            advertHasLocation ≠ 0 := by
      intro hNone
      rw [hLocated.mp hNone] at hKnown
      contradiction
    rw [hParts, applyAppdata_of_located hThere hFirst
      hSecond, hRead]
    exact
      { pk := rfl
        timestamp := rfl
        type := hType
        located := hKnown.symm
        latitude := fun _ => rfl
        longitude := fun _ => rfl
        name := rfl }
  · rw [Bool.not_eq_true] at hKnown
    have hParts :
        appdataOf name type location =
          flagsOf type location.known (name ≠ []) ::
            name := by
      simp [appdataOf, hKnown]
    rw [hParts, applyAppdata_of_unlocated
      (hLocated.mpr hKnown) hFirst hSecond, hRead]
    exact
      { pk := rfl
        timestamp := rfl
        type := hType
        located := hKnown.symm
        latitude := fun hHere =>
          absurd (hKnown.symm.trans hHere) Bool.false_ne_true
        longitude := fun hHere =>
          absurd (hKnown.symm.trans hHere) Bool.false_ne_true
        name := rfl }

------------------------------------------------------------
-- What Is Signed Is Verified
------------------------------------------------------------

/- What there is to sign, which no signature is part of. -/
def messageOf
    (store : Store)
    (timestamp : UInt32)
    (name : Bytes)
    (type : NodeType)
    (location : Location) :
    Bytes :=
  store.selfPk.toList ++ writeUint32 timestamp ++
    appdataOf name type location

theorem length_appdataOf_le
    (name : Bytes)
    (type : NodeType)
    (location : Location) :
    (appdataOf name type location).length ≤
      1 + advertLocationSize + name.length := by
  unfold appdataOf appendInt32
  have hSize : advertLocationSize = 8 := rfl
  cases location.known with
  | false =>
      simp only [Bool.false_eq_true, if_false,
        List.length_append, List.length_singleton]
      omega
  | true =>
      simp only [if_true, List.length_append,
        length_writeUint32, List.length_singleton]
      omega

section Signed

variable {store : Store} {timestamp : UInt32}
variable {name : Bytes} {type : NodeType}
variable {location : Location}

theorem key_advertOf (signature : Bytes) :
    copyInto packetPublicKeySize
        (advertOf store timestamp name type location
          signature).publicKey =
      store.selfPk :=
  copyInto_toList store.selfPk

theorem signedMessage_advertOf
    (hName : name.length ≤ maxNodeName)
    (signature : Bytes) :
    (advertOf store timestamp name type
        location signature).signedMessage
        maxPacketPayload =
      some
        (messageOf store timestamp name type location) := by
  have hAppdata := length_appdataOf_le name type location
  simp only [maxNodeName] at hName
  simp only [advertLocationSize] at hAppdata
  unfold Advert.signedMessage advertOf
  rw [if_neg (not_not.mpr store.selfPk.length_toList),
    if_neg]
  · rfl
  · simp only [packetPublicKeySize, packetTimestampSize,
      maxPacketPayload]
    omega

/- It fits, with the longest name and a position. -/
theorem encodeAdvert_advertOf
    (hName : name.length ≤ maxNodeName)
    {signature : Bytes}
    (hSignature : signature.length = packetSignatureSize) :
    encodeAdvert
        (advertOf store timestamp name type location
          signature)
        maxPacketPayload =
      some
        (store.selfPk.toList ++ writeUint32 timestamp ++
          signature ++ appdataOf name type location) := by
  have hAppdata := length_appdataOf_le name type location
  simp only [maxNodeName] at hName
  simp only [advertLocationSize] at hAppdata
  unfold encodeAdvert advertOf
  rw [if_neg (not_not.mpr store.selfPk.length_toList),
    if_neg (not_not.mpr hSignature)]
  dsimp only
  rw [if_neg]
  simp only [advertPayloadSize, packetPublicKeySize,
    packetTimestampSize, packetSignatureSize,
    maxPacketPayload]
  omega

theorem length_of_encodeAdvert
    {a : Advert} {room : Nat} {payload : Bytes}
    (hPayload : encodeAdvert a room = some payload) :
    payload.length ≤ maxPacketPayload := by
  unfold encodeAdvert at hPayload
  dsimp only at hPayload
  split_ifs at hPayload with hKey hSign hFull
  injection hPayload with hEq
  rw [not_not] at hKey hSign
  simp only [← hEq, List.length_append, hKey, hSign,
    length_writeUint32]
  simp only [advertPayloadSize, packetTimestampSize] at hFull
  omega

/- The frame that is signed is one as it will be sent. -/
theorem parse_unsent
    {payload : Bytes}
    (hFits : payload.length ≤ maxPacketPayload) :
    parse (headerOf .advert .flood :: 0x00 :: payload) =
      some (Router.built .advert payload none) := by
  have hValid : (Router.built .advert payload none).Valid :=
    Router.built_valid (by simp)
  apply parse_serialize hValid
  rw [serialize_of_valid hValid]
  have hTake : payload.take maxPacketPayload = payload :=
    List.take_of_length_le hFits
  simp [Router.built, hTake, codesOf, pathLengthOf,
    Packet.hasTransportCodes, Packet.routeType,
    RouteType.hasTransportCodes, nodeHashSize]

/- It is signed as what every receiver will verify. -/
theorem packetSign_advertOf
    (sign : PrivateKey → Bytes → Signature)
    (sk : PrivateKey)
    (hName : name.length ≤ maxNodeName)
    {signature payload : Bytes}
    (hPayload :
      encodeAdvert
          (advertOf store timestamp name type location
            signature)
          maxPacketPayload =
        some payload)
    (hFits : payload.length ≤ maxPacketPayload) :
    packetSign sign sk
        (headerOf .advert .flood :: 0x00 :: payload) =
      sign sk
        (messageOf store timestamp name type location) := by
  have hTake : payload.take maxPacketPayload = payload :=
    List.take_of_length_le hFits
  unfold packetSign
  simp only [parse_unsent hFits, Packet.payloadType,
    Router.built, payloadTypeOf_headerOf, ne_eq,
    not_true_eq_false, if_false, hTake,
    decodeAdvert_encodeAdvert hPayload,
    signedMessage_advertOf hName]

/- The signature is put where the empty one was. -/
theorem buildAdvertPayload_eq
    (sign : PrivateKey → Bytes → Signature)
    (hName : name.length ≤ maxNodeName) :
    buildAdvertPayload sign store timestamp name type
        location =
      store.selfPk.toList ++ writeUint32 timestamp ++
        (sign store.selfSk
          (messageOf store timestamp name type
            location)).toList ++
        appdataOf name type location := by
  have hPayload :
      encodeAdvert
          (advertOf store timestamp name type location
            (List.replicate packetSignatureSize 0))
          maxPacketPayload =
        some
          (store.selfPk.toList ++ writeUint32 timestamp ++
            List.replicate packetSignatureSize 0 ++
            appdataOf name type location) :=
    encodeAdvert_advertOf hName List.length_replicate
  have hFits := length_of_encodeAdvert hPayload
  have hHead :
      (store.selfPk.toList ++ writeUint32 timestamp).length =
        packetPublicKeySize + packetTimestampSize := by
    rw [List.length_append, store.selfPk.length_toList]
    rfl
  unfold buildAdvertPayload
  simp only [hPayload,
    packetSign_advertOf sign store.selfSk hName hPayload
      hFits]
  exact Wire.put_between hHead
    (List.length_replicate.trans
      (Vector.length_toList).symm)

theorem decodeAdvert_buildAdvertPayload
    (sign : PrivateKey → Bytes → Signature)
    (hName : name.length ≤ maxNodeName) :
    decodeAdvert
        (buildAdvertPayload sign store timestamp name type
          location) =
      some
        (advertOf store timestamp name type location
          (sign store.selfSk
            (messageOf store timestamp name type
              location)).toList) := by
  rw [buildAdvertPayload_eq sign hName]
  exact decodeAdvert_encodeAdvert
    (encodeAdvert_advertOf hName (Vector.length_toList))

theorem length_buildAdvertPayload
    (sign : PrivateKey → Bytes → Signature)
    (hName : name.length ≤ maxNodeName) :
    (buildAdvertPayload sign store timestamp name type
        location).length ≤
      maxPacketPayload := by
  rw [buildAdvertPayload_eq sign hName]
  exact length_of_encodeAdvert
    (encodeAdvert_advertOf hName (Vector.length_toList))

section Verified

variable [CryptoCore]

/- What is signed with the private key, the public verifies. -/
def Signs
    (sign : PrivateKey → Bytes → Signature)
    (store : Store) :
    Prop :=
  ∀ message,
    CryptoCore.verify store.selfPk message
      (sign store.selfSk message) = true

/- Whatever its path has become, the payload is verified. -/
theorem packetVerify_of_payload
    {sign : PrivateKey → Bytes → Signature}
    (hSigns : Signs sign store)
    (hName : name.length ≤ maxNodeName)
    {frame : Bytes} {p : Packet}
    (hParse : parse frame = some p)
    (hType : p.payloadType = .advert)
    (hPayload :
      p.payload =
        buildAdvertPayload sign store timestamp name type
          location) :
    packetVerify frame = true := by
  simp only [packetVerify, hParse, hType, hPayload, ne_eq,
    not_true_eq_false, if_false,
    decodeAdvert_buildAdvertPayload sign hName,
    signedMessage_advertOf hName]
  simp only [advertOf]
  rw [copyInto_toList, copyInto_toList]
  exact hSigns _

end Verified

------------------------------------------------------------
-- What Others Know By It
------------------------------------------------------------

/- Nothing newer is known, and nothing else of that time. -/
def KnowsNothingElse
    (other : Store)
    (pk : PublicKey)
    (timestamp : UInt32)
    (name : Bytes)
    (type : NodeType)
    (location : Location) :
    Prop :=
  ∀ known,
    other.contactOf pk = some known →
      known.timestamp < timestamp ∨
        Shows known pk timestamp name type location

theorem remember_shows
    {other : Store}
    (hIndexed : other.Indexed)
    (hName : name.length ≤ maxNodeName)
    (hKnows :
      KnowsNothingElse other store.selfPk timestamp name
        type location)
    (signature : Bytes) :
    ∃ c,
      (other.remember
            (advertOf store timestamp name type location
              signature)).2.contactOf
          store.selfPk = some c ∧
        Shows c store.selfPk timestamp name type
          location := by
  have hShort : name.length ≤ maxContactName := by
    simp only [maxNodeName] at hName
    simp only [maxContactName]
    omega
  by_cases hSame :
      ∃ known,
        other.contactOf store.selfPk = some known ∧
          Shows known store.selfPk timestamp name type
            location
  · rcases hSame with ⟨known, hKnown, hShows⟩
    have hStale :
        (other.remember
            (advertOf store timestamp name type location
              signature)).2 =
          other := by
      apply Store.remember_of_stale
      · rw [key_advertOf]
        exact hKnown
      · exact UInt32.le_of_eq hShows.timestamp.symm
    rw [hStale]
    exact ⟨known, hKnown, hShows⟩
  · rcases @Store.Indexed.contactOf_remember other
        (advertOf store timestamp name type location
          signature)
        hIndexed store.selfPk.length_toList
        (by
          intro known hKnown
          rw [key_advertOf] at hKnown
          rcases hKnows known hKnown with hOlder | hShows
          · exact hOlder
          · exact absurd ⟨known, hKnown, hShows⟩ hSame) with
      ⟨before, hPk, hTimestamp, hContact⟩
    have hShows :=
      applyAppdata_appdataOf hShort before type location
    rw [hPk, key_advertOf, hTimestamp] at hShows
    rw [key_advertOf] at hContact
    exact ⟨_, hContact, hShows⟩

/- So does a node that hears the frame and is not us. -/
theorem rememberIfAdvert_shows
    [CryptoCore]
    {sign : PrivateKey → Bytes → Signature}
    {other : Store}
    (hSigns : Signs sign store)
    (hIndexed : other.Indexed)
    (hOther : other.selfPk ≠ store.selfPk)
    (hName : name.length ≤ maxNodeName)
    (hKnows :
      KnowsNothingElse other store.selfPk timestamp name
        type location)
    {r : Reception} {p : Packet}
    (hParse : parse r.frame = some p)
    (hType : p.payloadType = .advert)
    (hPayload :
      p.payload =
        buildAdvertPayload sign store timestamp name type
          location) :
    ∃ c,
      (Receiver.rememberIfAdvert other r).contactOf
          store.selfPk = some c ∧
        Shows c store.selfPk timestamp name type
          location := by
  have hVerify :=
    packetVerify_of_payload hSigns hName hParse hType
      hPayload
  have hStrange :
      ∀ signature,
        (advertOf store timestamp name type location
            signature).publicKey ≠
          other.selfPk.toList :=
    fun _ hSame => hOther (Vector.toList_inj.mp hSame).symm
  rcases remember_shows hIndexed hName hKnows
      (sign store.selfSk
        (messageOf store timestamp name type
          location)).toList with
    ⟨c, hContact, hShows⟩
  refine
    ⟨{ c with lastHeard := r.wall, snr := r.snr,
              hops := p.hopCount }, ?_, ?_⟩
  · simp only [Receiver.rememberIfAdvert, hParse, hType,
      hVerify, hPayload, ne_eq, not_true_eq_false,
      Bool.not_true, Bool.false_eq_true, if_false,
      decodeAdvert_buildAdvertPayload sign hName]
    rw [if_neg (hStrange _), key_advertOf]
    exact Store.contactOf_noteHeard_eq hContact r.wall r.snr
      p.hopCount
  · exact
      { pk := hShows.pk
        timestamp := hShows.timestamp
        type := hShows.type
        located := hShows.located
        latitude := hShows.latitude
        longitude := hShows.longitude
        name := hShows.name }

end Signed

------------------------------------------------------------
-- The Way
------------------------------------------------------------

/- A flooded advert with this payload after `n` hops. -/
structure Bears
    (payload : Bytes)
    (n : Nat)
    (p : Packet) :
    Prop where
  header : p.header = headerOf .advert .flood
  payload : p.payload = payload
  hashSize : p.hashSize = UInt8.ofNat nodeHashSize
  hopCount : p.hopCount.toNat = n

theorem Bears.payloadType
    {payload : Bytes} {n : Nat} {p : Packet}
    (hBears : Bears payload n p) :
    p.payloadType = .advert := by
  rw [Packet.payloadType, hBears.header,
    payloadTypeOf_headerOf]

theorem Bears.isFlood
    {payload : Bytes} {n : Nat} {p : Packet}
    (hBears : Bears payload n p) :
    p.routeType.isFlood = true := by
  rw [Packet.routeType, hBears.header,
    routeTypeOf_headerOf]
  rfl

section Relays

variable [CryptoCore]

/- A repeater that hears a frame queues another for it. -/
def Forwards
    {δ : Type}
    (D : Delegate δ)
    (rx : RxMeta)
    (s : δ × Router)
    (frame out : Bytes) :
    Prop :=
  .queued out ∈
    s.2.actsSince (Router.onFrame D frame rx s).2

/-
  It has not had the frame, is not on its path, and is
  allowed to carry it by the layer above.
-/
def Willing
    {δ : Type}
    (D : Delegate δ)
    (s : δ × Router)
    (frame : Bytes) :
    Prop :=
  s.2.alreadySeen frame = false ∧
    ∃ p,
      parse frame = some p ∧
        s.2.store.selfHash ∉ p.path ∧
        (D.shouldForward s.1 p).1 = true

/-
  A frame that reaches those behind so many repeaters, each
  in any state and with any layer above.
-/
inductive Relayed (sent : Bytes) : Nat → Bytes → Prop where
| sent : Relayed sent 0 sent
| forwarded
    {n : Nat}
    {frame out : Bytes}
    {δ : Type}
    {D : Delegate δ}
    {rx : RxMeta}
    {s : δ × Router}
    (hSoFar : Relayed sent n frame)
    (hForwards : Forwards D rx s frame out) :
    Relayed sent (n + 1) out

/- A repeater changes nothing of it but its path. -/
theorem bears_of_forwards
    {δ : Type} {D : Delegate δ} {rx : RxMeta}
    {s : δ × Router}
    {payload frame out : Bytes} {n : Nat} {p : Packet}
    (hParse : parse frame = some p)
    (hBears : Bears payload n p)
    (hForwards : Forwards D rx s frame out) :
    ∃ q, parse out = some q ∧ Bears payload (n + 1) q := by
  have hValid := parse_valid hParse
  rcases Router.onwardFrame_onward hValid
      (Router.onwardFrame_of_queued hParse rx s hForwards)
    with ⟨q, hOut, hOnward⟩
  have hPath := hOnward.path
  rw [if_pos hBears.isFlood] at hPath
  have hPayload := hOnward.payload
  rw [Router.ReadingAdded, if_neg
    (by rw [hBears.payloadType]; decide)] at hPayload
  have hHops := (parse_valid hOut).path_length
  have hBefore := hValid.path_length
  rw [Packet.pathSize, hOnward.hashSize, hBears.hashSize,
    hPath, List.length_append, List.length_singleton]
    at hHops
  rw [Packet.pathSize, hBears.hashSize, hBears.hopCount]
    at hBefore
  refine ⟨q, hOut,
    { header := hOnward.header.trans hBears.header
      payload := hPayload.trans hBears.payload
      hashSize := hOnward.hashSize.trans hBears.hashSize
      hopCount := ?_ }⟩
  change _ = _ * 1 at hHops hBefore
  omega

/- Wherever it comes to, it is the advert that was sent. -/
theorem bears_of_relayed
    {payload frame : Bytes} {n : Nat}
    (hFits : payload.length ≤ maxPacketPayload)
    (hRelayed :
      Relayed (Router.buildFrame .advert payload none) n
        frame) :
    ∃ p, parse frame = some p ∧ Bears payload n p := by
  induction hRelayed with
  | sent =>
      refine ⟨_, Router.parse_buildFrame (by simp),
        { header := rfl
          payload := List.take_of_length_le hFits
          hashSize := rfl
          hopCount := rfl }⟩
  | forwarded hSoFar hForwards ih =>
      rcases ih with ⟨p, hParse, hBears⟩
      exact bears_of_forwards hParse hBears hForwards

/- Nothing of the advert stops whoever would carry it. -/
theorem forwards_of_willing
    {δ : Type} {D : Delegate δ} {s : δ × Router}
    {payload frame : Bytes} {n : Nat} {p : Packet}
    (hParse : parse frame = some p)
    (hBears : Bears payload n p)
    (hRoom : n < maxHopCount)
    (hWilling : Willing D s frame)
    (rx : RxMeta) :
    ∃ out, Forwards D rx s frame out := by
  rcases hWilling with ⟨hNew, q, hQ, hNotEcho, hCarry⟩
  rw [hParse, Option.some.injEq] at hQ
  subst hQ
  have hTravels :
      Router.CanTravel p s.2.store.selfHash :=
    { hashSize := hBears.hashSize
      next := by
        rw [if_pos hBears.isFlood, hBears.hopCount]
        exact hRoom
      room := by
        intro hTrace
        rw [hBears.payloadType] at hTrace
        contradiction }
  have hOut :=
    (Router.onwardFrame_isSome_iff (parse_valid hParse)
      s.2.store.selfHash rx.snr).mpr hTravels
  rcases Option.isSome_iff_exists.mp hOut with ⟨out, hOut⟩
  refine ⟨out, ?_⟩
  -- an advert is for nobody here, it only travels on
  have hTaken :
      Router.onFrame D frame rx s =
        Router.considerForwarding D p rx
          (s.1, s.2.takeIn frame) := by
    have hHash :
        (s.2.takeIn frame).store.selfHash =
          s.2.store.selfHash :=
      rfl
    simp [Router.onFrame, hParse, hNew, Router.isOwnEcho,
      hHash, hNotEcho, Router.dispatch, hBears.payloadType]
  have hDoes :=
    (Router.takeIn_does s.2 frame).trans
      (Router.considerForwarding_of_agreed hCarry rx
        (s.2.takeIn frame))
  rw [(Router.takeIn_does s.2 frame).selfHash, hOut]
    at hDoes
  rw [Forwards, hTaken, hDoes.actsSince]
  simp

/-
  The advert goes out as a flood. Through whatever repeaters
  it has come, it is verified; whoever is willing carries it
  on, up to as many hops as there may be; and a store that
  knew nothing newer, and nothing else of that time, knows
  by it just what it says: handed the advert, and at every
  other node that hears the frame.
-/
theorem advert_arrives_intact
    (sign : PrivateKey → Bytes → Signature)
    (author : Router)
    (hSigns : Signs sign author.store)
    (timestamp : UInt32)
    {name : Bytes}
    (hName : name.length ≤ maxNodeName)
    (type : NodeType)
    (location : Location) :
    let payload :=
      buildAdvertPayload sign author.store timestamp name
        type location
    let sent := Router.buildFrame .advert payload none
    .originated sent author.now ∈
        author.actsSince
          (author.sendFlood .advert payload) ∧
      ∀ n frame, Relayed sent n frame →
        packetVerify frame = true ∧
        (n < maxHopCount →
          ∀ (δ : Type) (D : Delegate δ) (s : δ × Router) rx,
            Willing D s frame →
              ∃ out, Forwards D rx s frame out) ∧
        ∀ other : Store,
          other.Indexed →
          KnowsNothingElse other author.store.selfPk
            timestamp name type location →
            (∀ p advert,
              parse frame = some p →
              decodeAdvert p.payload = some advert →
                ∃ c,
                  (other.remember advert).2.contactOf
                      author.store.selfPk = some c ∧
                    Shows c author.store.selfPk timestamp
                      name type location) ∧
            (other.selfPk ≠ author.store.selfPk →
              ∀ wall snr,
                ∃ c,
                  (Receiver.rememberIfAdvert other
                      ⟨frame, wall, snr⟩).contactOf
                      author.store.selfPk = some c ∧
                    Shows c author.store.selfPk timestamp
                      name type location) := by
  intro payload sent
  have hFits : payload.length ≤ maxPacketPayload :=
    length_buildAdvertPayload sign hName
  refine ⟨?_, ?_⟩
  · rw [(Router.sendFlood_does author .advert
      payload).actsSince]
    exact List.mem_cons_self
  · intro n frame hRelayed
    rcases bears_of_relayed hFits hRelayed with
      ⟨p, hParse, hBears⟩
    refine ⟨?_, ?_, ?_⟩
    · exact packetVerify_of_payload hSigns hName hParse
        hBears.payloadType hBears.payload
    · intro hRoom δ D s rx hWilling
      exact forwards_of_willing hParse hBears hRoom hWilling
        rx
    · intro other hIndexed hKnows
      constructor
      · intro q advert hQ hAdvert
        rw [hParse, Option.some.injEq] at hQ
        rw [← hQ, hBears.payload,
          decodeAdvert_buildAdvertPayload sign hName,
          Option.some.injEq] at hAdvert
        rw [← hAdvert]
        exact remember_shows hIndexed hName hKnows _
      · intro hOther wall snr
        exact rememberIfAdvert_shows hSigns hIndexed hOther
          hName hKnows (r := ⟨frame, wall, snr⟩) hParse
          hBears.payloadType hBears.payload

end Relays

section Example

open Sample

/- A signature that anything is content with. -/
def noSignature : PrivateKey → Bytes → Signature :=
  fun _ _ => Vector.replicate packetSignatureSize 0

/- An advert of the node 1, by the name of one letter. -/
def advertNamed (timestamp : UInt32) (letter : UInt8) :
    Bytes :=
  buildAdvertPayload noSignature (Router.ofByte 1).store
    timestamp [letter] .chat
    { known := true, latitude := -5, longitude := 7 }

def advertFrame (timestamp : UInt32) (letter : UInt8) :
    Bytes :=
  Router.buildFrame .advert (advertNamed timestamp letter)
    none

/- What the node 2 makes of it and hands on. -/
def carriedAdvert : Bytes :=
  0x11 :: 0x01 :: 0x02 :: advertNamed 7 97

theorem advert_arrives_at_the_third_node :
    packetVerify carriedAdvert = true ∧
      ∃ c,
        (Receiver.rememberIfAdvert (Store.ofByte 3)
            ⟨carriedAdvert, 9, 4⟩).contactOf
            (Router.ofByte 1).store.selfPk = some c ∧
          Shows c (Router.ofByte 1).store.selfPk 7 [97] .chat
            { known := true, latitude := -5,
              longitude := 7 } := by
  have hSent :
      Relayed (advertFrame 7 97) 0 (advertFrame 7 97) :=
    .sent
  have hForwards :
      Forwards .carrier {} ((), Router.ofByte 2)
        (advertFrame 7 97) carriedAdvert := by
    unfold Forwards
    decide +kernel
  have hNew :
      KnowsNothingElse (Store.ofByte 3)
        (Router.ofByte 1).store.selfPk 7 [97] .chat
        { known := true, latitude := -5, longitude := 7 } :=
    nofun
  have hIntact :=
    (advert_arrives_intact noSignature (Router.ofByte 1)
      (fun _ => rfl) 7
      (show ([97] : Bytes).length ≤ maxNodeName by decide)
      .chat
      { known := true, latitude := -5, longitude := 7 }).2
      1 carriedAdvert (hSent.forwarded hForwards)
  exact ⟨hIntact.1,
    (hIntact.2.2 (Store.ofByte 3)
      (Store.indexed_new _ _) hNew).2 (by decide) 9 4⟩

/-
  Two adverts of one second, of which the first had another
  name: the second is verified, nothing newer is known, and
  the name is not taken.
-/
theorem second_advert_of_a_second_is_lost :
    let other :=
      Receiver.rememberIfAdvert (Store.ofByte 3)
        ⟨advertFrame 7 97, 9, 4⟩
    let pk := (Router.ofByte 1).store.selfPk
    Signs noSignature (Router.ofByte 1).store ∧
      other.selfPk ≠ pk ∧
      Relayed (advertFrame 7 98) 0 (advertFrame 7 98) ∧
      packetVerify (advertFrame 7 98) = true ∧
      (∀ known,
        other.contactOf pk = some known →
          known.timestamp ≤ 7) ∧
      ¬ ∃ c,
        (Receiver.rememberIfAdvert other
            ⟨advertFrame 7 98, 9, 4⟩).contactOf pk =
            some c ∧
          Shows c pk 7 [98] .chat
            { known := true, latitude := -5,
              longitude := 7 } := by
  intro other pk
  have hKnown :
      (other.contactOf pk).map
          (fun c => (c.timestamp, c.name)) =
        some (7, [97]) := by
    decide +kernel
  have hAfter :
      ((Receiver.rememberIfAdvert other
          ⟨advertFrame 7 98, 9, 4⟩).contactOf pk).map
          (·.name) =
        some [97] := by
    decide +kernel
  refine ⟨fun _ => rfl, by decide +kernel, .sent,
    by decide +kernel, ?_, ?_⟩
  · intro known hHere
    rw [hHere] at hKnown
    injection hKnown with hKnown
    exact UInt32.le_of_eq (Prod.mk.inj hKnown).1
  · rintro ⟨c, hHere, hShows⟩
    rw [hHere, Option.map_some, hShows.name] at hAfter
    exact absurd hAfter (by decide)

end Example

end Advertising

end MeshCore
