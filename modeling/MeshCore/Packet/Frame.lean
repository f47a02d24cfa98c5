import MeshCore.Defines

/-
  Frames: the header, the optional transport codes, the path
  and the payload.

  A packet keeps the bytes of its path and of its payload
  that are in use; the rest of the fixed arrays is never
  read. `hopCount` and `hashSize` are kept beside the path,
  as the code keeps them, so a packet that does not fit the
  format can be written down and is refused by `serialize`.

  Key definitions include:
    * `Packet`
    * `parse`
    * `serialize`
    * `appendSelf`
    * `stripSelf`
    * `appendTraceHop`
-/

namespace MeshCore

------------------------------------------------------------
-- Types Named By The Header
------------------------------------------------------------

inductive RouteType where
| transportFlood
| flood
| direct
| transportDirect
deriving DecidableEq, Repr

/-
  The four bits of the header that name the payload. The
  code has no name for three of the sixteen values.
-/
inductive PayloadType where
| req
| response
| txtMsg
| ack
| advert
| grpTxt
| grpData
| anonReq
| path
| trace
| multipart
| control
| unnamed0C
| unnamed0D
| unnamed0E
| rawCustom
deriving DecidableEq, Repr

namespace RouteType

def ofCode (code : Nat) : RouteType :=
  match code with
  | 0 => .transportFlood
  | 1 => .flood
  | 2 => .direct
  | _ => .transportDirect

def code : RouteType → UInt8
| .transportFlood => 0x00
| .flood => 0x01
| .direct => 0x02
| .transportDirect => 0x03

def hasTransportCodes : RouteType → Bool
| .transportFlood => true
| .flood => false
| .direct => false
| .transportDirect => true

/- The two types that spread through the whole network. -/
def isFlood : RouteType → Bool
| .transportFlood => true
| .flood => true
| .direct => false
| .transportDirect => false

end RouteType

namespace PayloadType

def ofCode (code : Nat) : PayloadType :=
  match code with
  | 0x00 => .req
  | 0x01 => .response
  | 0x02 => .txtMsg
  | 0x03 => .ack
  | 0x04 => .advert
  | 0x05 => .grpTxt
  | 0x06 => .grpData
  | 0x07 => .anonReq
  | 0x08 => .path
  | 0x09 => .trace
  | 0x0A => .multipart
  | 0x0B => .control
  | 0x0C => .unnamed0C
  | 0x0D => .unnamed0D
  | 0x0E => .unnamed0E
  | _ => .rawCustom

def code : PayloadType → UInt8
| .req => 0x00
| .response => 0x01
| .txtMsg => 0x02
| .ack => 0x03
| .advert => 0x04
| .grpTxt => 0x05
| .grpData => 0x06
| .anonReq => 0x07
| .path => 0x08
| .trace => 0x09
| .multipart => 0x0A
| .control => 0x0B
| .unnamed0C => 0x0C
| .unnamed0D => 0x0D
| .unnamed0E => 0x0E
| .rawCustom => 0x0F

end PayloadType

def routeTypeOf (header : UInt8) : RouteType :=
  .ofCode (header &&& 0x03).toNat

def payloadTypeOf (header : UInt8) : PayloadType :=
  .ofCode ((header &&& 0x3C) >>> 2).toNat

/- The header of a frame this node builds. -/
def headerOf
    (type : PayloadType)
    (route : RouteType) :
    UInt8 :=
  (type.code <<< 2) ||| route.code

@[simp] theorem payloadTypeOf_headerOf
    (type : PayloadType) (route : RouteType) :
    payloadTypeOf (headerOf type route) = type := by
  cases type <;> cases route <;> rfl

@[simp] theorem routeTypeOf_headerOf
    (type : PayloadType) (route : RouteType) :
    routeTypeOf (headerOf type route) = route := by
  cases type <;> cases route <;> rfl

------------------------------------------------------------
-- Packets
------------------------------------------------------------

structure Packet where
  header : UInt8
  transportCode1 : UInt16 := 0
  transportCode2 : UInt16 := 0
  hashSize : UInt8
  hopCount : UInt8
  path : Bytes
  payload : Bytes
deriving DecidableEq, Repr

namespace Packet

def routeType (p : Packet) : RouteType :=
  routeTypeOf p.header

def payloadType (p : Packet) : PayloadType :=
  payloadTypeOf p.header

def hasTransportCodes (p : Packet) : Bool :=
  p.routeType.hasTransportCodes

def pathSize (p : Packet) : Nat :=
  p.hopCount.toNat * p.hashSize.toNat

/- The bytes of the transport codes, if the route has any. -/
def codesSize (p : Packet) : Nat :=
  if p.hasTransportCodes then packetTransportCodesSize
  else 0

end Packet

def fixedPrefixSize : Nat :=
  packetHeaderSize + packetPathLengthSize

------------------------------------------------------------
-- Parsing And Serializing
------------------------------------------------------------

/- Two bytes, least significant first. -/
def readUint16 (low high : UInt8) : UInt16 :=
  low.toUInt16 ||| (high.toUInt16 <<< 8)

/- The path length byte, the path and the payload. -/
def parsePath
    (header : UInt8)
    (transportCode1 transportCode2 : UInt16) :
    Bytes → Option Packet
| [] => none
| pathLength :: body =>
    let hopCount := pathLength &&& 0x3F
    let hashCode := (pathLength &&& 0xC0) >>> 6
    let pathSize := hopCount.toNat * (hashCode + 1).toNat
    -- a size code the format does not define
    if maxHashSize < (hashCode + 1).toNat then none
    else if maxPathSize < pathSize then none
    else if body.length < pathSize then none
    else if maxPacketPayload < body.length - pathSize then
      none
    else
      some
        { header := header
          transportCode1 := transportCode1
          transportCode2 := transportCode2
          hashSize := hashCode + 1
          hopCount := hopCount
          path := body.take pathSize
          payload := body.drop pathSize }

/-
  Split a frame. Nothing comes back for anything malformed:
  an undefined size code, a path past its ceiling or past
  the end of the frame, a payload that is too long.
-/
def parse (frame : Bytes) : Option Packet :=
  if frame.length < fixedPrefixSize ∨
      maxPacketFrame < frame.length then
    none
  else
    match frame with
    | [] => none
    | header :: rest =>
        if (routeTypeOf header).hasTransportCodes then
          match rest with
          | a :: b :: c :: d :: rest =>
              parsePath header (readUint16 a b)
                (readUint16 c d) rest
          | _ => none
        else parsePath header 0 0 rest

/- The bytes of the transport codes, as they go out. -/
def codesOf (p : Packet) : Bytes :=
  if p.hasTransportCodes then
    [p.transportCode1.toUInt8,
      (p.transportCode1 >>> 8).toUInt8,
      p.transportCode2.toUInt8,
      (p.transportCode2 >>> 8).toUInt8]
  else []

/- The byte that packs the hop count and the hash size. -/
def pathLengthOf (p : Packet) : UInt8 :=
  ((p.hashSize - 1) <<< 6) ||| p.hopCount

/- Write a packet out as a frame of at most `capacity`. -/
def serialize
    (p : Packet)
    (capacity : Nat) :
    Option Bytes :=
  if maxHopCount < p.hopCount.toNat then none
  else if p.hashSize < 1 ∨
      maxHashSize < p.hashSize.toNat then
    none
  else if maxPacketPayload < p.payload.length then none
  else if maxPathSize < p.pathSize then none
  else
    let total :=
      fixedPrefixSize + p.pathSize + p.payload.length +
        p.codesSize
    if maxPacketFrame < total ∨ capacity < total then none
    else
      some
        (p.header :: codesOf p ++
          pathLengthOf p :: p.path.take p.pathSize ++
            p.payload)

------------------------------------------------------------
-- In Transit
------------------------------------------------------------

/- Flood: write ourselves at the end of the path. -/
def appendSelf
    (p : Packet)
    (selfHash : UInt8) :
    Option Packet :=
  if p.hashSize.toNat ≠ nodeHashSize then none
  else if maxHopCount ≤ p.hopCount.toNat then none
  else if maxPathSize < p.pathSize + p.hashSize.toNat then
    none
  else
    some
      { p with
        path := p.path ++ [selfHash]
        hopCount := p.hopCount + 1 }

/- Direct: drop ourselves from the head of the path. -/
def stripSelf
    (p : Packet)
    (selfHash : UInt8) :
    Option Packet :=
  if p.hashSize.toNat ≠ nodeHashSize then none
  else if p.hopCount = 0 then none
  else if p.path.head? ≠ some selfHash then none
  else
    some
      { p with
        path := p.path.tail
        hopCount := p.hopCount - 1 }

/- A reading, clamped to the one signed byte it is given. -/
def clampSnr (snrQuarterDb : Int16) : UInt8 :=
  let clamped : Int16 :=
    if snrQuarterDb < -128 then -128
    else if 127 < snrQuarterDb then 127
    else snrQuarterDb
  clamped.toUInt16.toUInt8

/- Trace: write how we heard it after the other readings. -/
def appendTraceHop
    (p : Packet)
    (snrQuarterDb : Int16) :
    Option Packet :=
  if p.payloadType ≠ .trace then none
  else if p.payload.length < tracePrefixSize then none
  else if maxPacketPayload ≤ p.payload.length then none
  else
    some
      { p with
        payload := p.payload ++ [clampSnr snrQuarterDb] }

------------------------------------------------------------
-- Well-Formed Packets
------------------------------------------------------------

/- The packets that fit the format. -/
structure Packet.Valid (p : Packet) : Prop where
  hashSize_pos : 1 ≤ p.hashSize.toNat
  hashSize_le : p.hashSize.toNat ≤ maxHashSize
  hopCount_le : p.hopCount.toNat ≤ maxHopCount
  path_length : p.path.length = p.pathSize
  pathSize_le : p.pathSize ≤ maxPathSize
  payload_le : p.payload.length ≤ maxPacketPayload
  total_le :
    fixedPrefixSize + p.pathSize + p.payload.length +
      p.codesSize ≤ maxPacketFrame
  codes_zero :
    p.hasTransportCodes = false →
      p.transportCode1 = 0 ∧ p.transportCode2 = 0

/- The hop count has six bits. -/
theorem toNat_hopBits_le (b : UInt8) :
    (b &&& 0x3F).toNat ≤ maxHopCount := by
  rw [UInt8.toNat_and]
  exact Nat.and_le_right

/- The size code has two. -/
theorem toNat_sizeBits_le (b : UInt8) :
    ((b &&& 0xC0) >>> 6).toNat ≤ 3 := by
  have hAnd : (b &&& 0xC0).toNat ≤ 0xC0 := by
    rw [UInt8.toNat_and]
    exact Nat.and_le_right
  simp only [UInt8.toNat_shiftRight]
  change (b &&& 0xC0).toNat >>> 6 ≤ 3
  rw [Nat.shiftRight_eq_div_pow]
  omega

/- Everything `parsePath` promises of its result. -/
theorem parsePath_eq_some
    {header : UInt8} {code1 code2 : UInt16}
    {rest : Bytes} {p : Packet}
    (hParse : parsePath header code1 code2 rest = some p) :
    p.header = header ∧
      p.transportCode1 = code1 ∧
      p.transportCode2 = code2 ∧
      1 ≤ p.hashSize.toNat ∧
      p.hashSize.toNat ≤ maxHashSize ∧
      p.hopCount.toNat ≤ maxHopCount ∧
      p.path.length = p.pathSize ∧
      p.pathSize ≤ maxPathSize ∧
      p.payload.length ≤ maxPacketPayload ∧
      rest.length = 1 + p.pathSize + p.payload.length := by
  cases rest with
  | nil => simp [parsePath] at hParse
  | cons pathLength body =>
      simp only [parsePath] at hParse
      split_ifs at hParse with hCode hPath hBody hPayload
      injection hParse with hEq
      subst hEq
      have hSize := toNat_sizeBits_le pathLength
      have hSizePos :
          1 ≤ ((pathLength &&& 0xC0) >>> 6 + 1).toNat := by
        rw [UInt8.toNat_add]
        change 1 ≤ (_ + 1) % 256
        omega
      refine ⟨rfl, rfl, rfl, hSizePos, ?_,
        toNat_hopBits_le pathLength, ?_, ?_, ?_, ?_⟩
      · exact Nat.le_of_not_lt hCode
      · simp only [Packet.pathSize, List.length_take]
        omega
      · simp only [Packet.pathSize]
        omega
      · simp only [List.length_drop]
        omega
      · simp only [Packet.pathSize, List.length_cons,
          List.length_drop]
        omega

/- What the parser accepts fits the format. -/
theorem parse_valid
    {frame : Bytes} {p : Packet}
    (hParse : parse frame = some p) :
    p.Valid := by
  simp only [parse] at hParse
  split_ifs at hParse with hSize
  have hFrame : frame.length ≤ maxPacketFrame := by omega
  cases frame with
  | nil => simp at hParse
  | cons header rest =>
      simp only [List.length_cons] at hFrame
      by_cases hCodes :
          (routeTypeOf header).hasTransportCodes = true
      · simp only [hCodes, if_true] at hParse
        match rest with
        | [] | [_] | [_, _] | [_, _, _] =>
            simp at hParse
        | a :: b :: c :: d :: rest =>
            rcases parsePath_eq_some hParse with
              ⟨hHeader, _, _, hPos, hLe, hHops, hPath,
                hPathLe, hPayload, hRest⟩
            have hSelf : p.hasTransportCodes = true := by
              simpa [Packet.hasTransportCodes,
                Packet.routeType, hHeader] using hCodes
            refine ⟨hPos, hLe, hHops, hPath, hPathLe,
              hPayload, ?_, by simp [hSelf]⟩
            simp only [List.length_cons] at hFrame
            simp only [Packet.codesSize, hSelf, if_true,
              fixedPrefixSize, packetHeaderSize,
              packetPathLengthSize,
              packetTransportCodesSize]
            omega
      · simp only [hCodes] at hParse
        rcases parsePath_eq_some hParse with
          ⟨hHeader, hOne, hTwo, hPos, hLe, hHops, hPath,
            hPathLe, hPayload, hRest⟩
        have hSelf : p.hasTransportCodes = false := by
          simpa [Packet.hasTransportCodes,
            Packet.routeType, hHeader] using hCodes
        refine ⟨hPos, hLe, hHops, hPath, hPathLe,
          hPayload, ?_, fun _ => ⟨hOne, hTwo⟩⟩
        simp only [Packet.codesSize, hSelf,
          fixedPrefixSize, packetHeaderSize,
          packetPathLengthSize]
        simp only [Bool.false_eq_true, if_false]
        omega

/- A packet that fits the format can always be written. -/
theorem serialize_of_valid
    {p : Packet}
    (hValid : p.Valid) :
    serialize p maxPacketFrame =
      some
        (p.header :: codesOf p ++
          pathLengthOf p :: p.path ++ p.payload) := by
  have hTake : p.path.take p.pathSize = p.path := by
    rw [← hValid.path_length, List.take_length]
  have hOne : ¬ p.hashSize < 1 := by
    rw [UInt8.lt_iff_toNat_lt]
    have hPos := hValid.hashSize_pos
    change ¬ p.hashSize.toNat < 1
    omega
  have hTotal := hValid.total_le
  simp [serialize, hTake, hOne, hValid.hopCount_le,
    hValid.hashSize_le, hValid.payload_le,
    hValid.pathSize_le, hTotal]

/- What can be written fits, if its path is all there. -/
theorem valid_of_serialize
    {p : Packet} {frame : Bytes}
    (hWritten : serialize p maxPacketFrame = some frame)
    (hPath : p.path.length = p.pathSize)
    (hCodes :
      p.hasTransportCodes = false →
        p.transportCode1 = 0 ∧ p.transportCode2 = 0) :
    p.Valid := by
  simp only [serialize] at hWritten
  split_ifs at hWritten with hHops hSize hPayload hLong
    hTotal
  rw [UInt8.lt_iff_toNat_lt] at hSize
  change ¬ (p.hashSize.toNat < 1 ∨ _) at hSize
  exact
    { hashSize_pos := by omega
      hashSize_le := by omega
      hopCount_le := by omega
      path_length := hPath
      pathSize_le := by omega
      payload_le := by omega
      total_le := by omega
      codes_zero := hCodes }

/- Unpacking the path length byte. -/
theorem pathLength_bits
    {hashSize hopCount : UInt8}
    (hPos : 1 ≤ hashSize.toNat)
    (hSize : hashSize.toNat ≤ maxHashSize)
    (hHops : hopCount.toNat ≤ maxHopCount) :
    (((hashSize - 1) <<< 6) ||| hopCount) &&& 0x3F =
        hopCount ∧
      ((((hashSize - 1) <<< 6) ||| hopCount) &&& 0xC0)
          >>> 6 + 1 =
        hashSize := by
  have hAll :
      ∀ s : Fin 4, ∀ h : Fin 64, 1 ≤ s.val →
        (((UInt8.ofNat s - 1) <<< 6) ||| UInt8.ofNat h) &&&
            0x3F = UInt8.ofNat h ∧
          ((((UInt8.ofNat s - 1) <<< 6) |||
              UInt8.ofNat h) &&& 0xC0) >>> 6 + 1 =
            UInt8.ofNat s := by
    decide +kernel
  have hThis :=
    hAll ⟨hashSize.toNat, by
        simp only [maxHashSize] at hSize; omega⟩
      ⟨hopCount.toNat, by
        simp only [maxHopCount] at hHops; omega⟩ hPos
  simpa using hThis

theorem readUint16_bytes (code : UInt16) :
    readUint16 code.toUInt8 (code >>> 8).toUInt8 =
      code := by
  apply UInt16.eq_of_toBitVec_eq
  apply BitVec.eq_of_getLsbD_eq
  intro i hi
  simp only [readUint16, UInt16.toBitVec_or,
    UInt16.toBitVec_shiftLeft, UInt8.toBitVec_toUInt16,
    UInt16.toBitVec_toUInt8, UInt16.toBitVec_shiftRight,
    BitVec.getLsbD_or]
  rcases (by omega : i < 8 ∨ 8 ≤ i) with h | h
  · simp [hi, h]
  · simp [hi, show ¬ i < 8 by omega,
      show i - 8 < 8 by omega,
      show i - 8 < 16 by omega,
      show 8 + (i - 8) = i by omega]

/- The tail of a frame, read back. -/
theorem parsePath_serialized
    {p : Packet}
    (hValid : p.Valid) :
    parsePath p.header p.transportCode1 p.transportCode2
        (pathLengthOf p :: p.path ++ p.payload) =
      some p := by
  have hBits := pathLength_bits hValid.hashSize_pos
    hValid.hashSize_le hValid.hopCount_le
  have hSize :
      p.hopCount.toNat * p.hashSize.toNat =
        p.path.length :=
    hValid.path_length.symm
  have hPath := hValid.pathSize_le
  rw [← hValid.path_length] at hPath
  have hPayload := hValid.payload_le
  simp only [List.cons_append, parsePath, pathLengthOf,
    hBits.1, hBits.2, hSize, List.length_append]
  rw [if_neg (Nat.not_lt.mpr hValid.hashSize_le),
    if_neg (by omega), if_neg (by omega),
    if_neg (by omega)]
  simp

/- Parsing what was written gives the packet back. -/
theorem parse_serialize
    {p : Packet} {frame : Bytes}
    (hValid : p.Valid)
    (hWritten : serialize p maxPacketFrame = some frame) :
    parse frame = some p := by
  rw [serialize_of_valid hValid] at hWritten
  injection hWritten with hFrame
  have hTail := parsePath_serialized hValid
  have hTotal := hValid.total_le
  have hLength := hValid.path_length
  cases hCodes : p.hasTransportCodes with
  | true =>
      have hRoute :
          (routeTypeOf p.header).hasTransportCodes = true :=
        hCodes
      simp only [Packet.codesSize, hCodes, if_true,
        fixedPrefixSize, packetHeaderSize,
        packetPathLengthSize,
        packetTransportCodesSize] at hTotal
      subst hFrame
      simp only [parse, codesOf, hCodes, if_true,
        List.cons_append, List.nil_append, hRoute,
        readUint16_bytes]
      rw [if_neg (by
        simp only [List.length_cons, List.length_append,
          fixedPrefixSize, packetHeaderSize,
          packetPathLengthSize]
        omega)]
      exact hTail
  | false =>
      have hRoute :
          (routeTypeOf p.header).hasTransportCodes =
            false :=
        hCodes
      rcases hValid.codes_zero hCodes with ⟨hOne, hTwo⟩
      rw [hOne, hTwo] at hTail
      simp only [Packet.codesSize, hCodes,
        fixedPrefixSize, packetHeaderSize,
        packetPathLengthSize] at hTotal
      simp only [Bool.false_eq_true, if_false] at hTotal
      subst hFrame
      simp only [parse, codesOf, hCodes, hRoute,
        Bool.false_eq_true, if_false, List.cons_append,
        List.nil_append]
      rw [if_neg (by
        simp only [List.length_cons, List.length_append,
          fixedPrefixSize, packetHeaderSize,
          packetPathLengthSize]
        omega)]
      exact hTail

------------------------------------------------------------
-- Packets On Their Way
------------------------------------------------------------

/-
  `q` is `p` with another path: the same packet, seen from
  another place on its way.
-/
structure Packet.SameBut (p q : Packet) : Prop where
  header : q.header = p.header
  code1 : q.transportCode1 = p.transportCode1
  code2 : q.transportCode2 = p.transportCode2
  path_length : q.path.length = q.pathSize

theorem appendSelf_eq_some
    {p q : Packet} {selfHash : UInt8}
    (hValid : p.Valid)
    (hAppend : appendSelf p selfHash = some q) :
    p.SameBut q ∧
      q.payload = p.payload ∧
      q.path = p.path ++ [selfHash] := by
  simp only [appendSelf] at hAppend
  split_ifs at hAppend with hSize hHops hPath
  injection hAppend with hEq
  subst hEq
  refine ⟨⟨rfl, rfl, rfl, ?_⟩, rfl, rfl⟩
  have hLength := hValid.path_length
  have hSize' : p.hashSize.toNat = 1 := not_not.mp hSize
  have hCount : (p.hopCount + 1).toNat =
      p.hopCount.toNat + 1 := by
    rw [UInt8.toNat_add]
    simp only [maxHopCount] at hHops
    change (p.hopCount.toNat + 1) % 256 = _
    omega
  simp only [Packet.pathSize, hSize', Nat.mul_one]
    at hLength
  simp only [List.length_append, List.length_singleton,
    Packet.pathSize, hSize', hCount]
  omega

theorem stripSelf_eq_some
    {p q : Packet} {selfHash : UInt8}
    (hValid : p.Valid)
    (hStrip : stripSelf p selfHash = some q) :
    p.SameBut q ∧
      q.payload = p.payload ∧
      q.hashSize = p.hashSize ∧
      q.hopCount.toNat + 1 = p.hopCount.toNat ∧
      q.pathSize + 1 = p.pathSize := by
  simp only [stripSelf] at hStrip
  split_ifs at hStrip with hSize hHops hHead
  injection hStrip with hEq
  subst hEq
  have hLength := hValid.path_length
  have hSize' : p.hashSize.toNat = 1 := not_not.mp hSize
  have hPos : 0 < p.hopCount.toNat := by
    rw [← UInt8.toNat_inj] at hHops
    exact Nat.pos_of_ne_zero hHops
  have hCount : (p.hopCount - 1).toNat =
      p.hopCount.toNat - 1 := by
    rw [UInt8.toNat_sub_of_le _ _ (by
      rw [UInt8.le_iff_toNat_le]; exact hPos)]
    rfl
  simp only [Packet.pathSize, hSize', Nat.mul_one]
    at hLength
  refine ⟨⟨rfl, rfl, rfl, ?_⟩, rfl, rfl, ?_, ?_⟩
  · simp only [List.length_tail, Packet.pathSize, hSize',
      hCount]
    omega
  · simp only [hCount]
    omega
  · simp only [Packet.pathSize, hSize', hCount]
    omega

end MeshCore
