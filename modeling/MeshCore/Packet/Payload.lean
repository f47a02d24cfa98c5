import MeshCore.Packet.Frame

/-
  Payload codecs. The caller picks one from the payload type
  of the frame; none of them looks at it again. A decoder
  gives nothing for a malformed payload, an encoder nothing
  for one that does not fit.

  Key definitions include:
    * `Advert`, `decodeAdvert`, `encodeAdvert`
    * `TextMsg`, `decodeText`, `encodeText`
    * `AnonReq`, `decodeAnonReq`
    * `Envelope`, `decodeEnvelope`, `encodeEnvelope`
    * `GroupMsg`, `decodeGroup`, `encodeGroup`
    * `Trace`, `decodeTrace`, `encodeTrace`
    * `PathReturn`, `decodePath`, `encodePath`

  Key facts include:
    * `decodeEnvelope_encodeEnvelope`
    * `decodePath_encodePath`
-/

namespace MeshCore

/- The part of a buffer of `n` bytes from an offset. -/
def subspan (b : Bytes) (offset n : Nat) : Bytes :=
  (b.drop offset).take n

------------------------------------------------------------
-- Adverts
------------------------------------------------------------

structure Advert where
  publicKey : Bytes
  timestamp : UInt32
  signature : Bytes
  appdata : Bytes
deriving DecidableEq, Repr

/-
  What the signature covers, which is not the wire payload:
  the signature sits between its parts on the air.
-/
def Advert.signedMessage
    (advert : Advert)
    (capacity : Nat) :
    Option Bytes :=
  if advert.publicKey.length ≠ packetPublicKeySize then
    none
  else if capacity <
      packetPublicKeySize + packetTimestampSize +
        advert.appdata.length then
    none
  else
    some
      (advert.publicKey ++ writeUint32 advert.timestamp ++
        advert.appdata)

def decodeAdvert (payload : Bytes) : Option Advert :=
  if payload.length < advertPayloadSize then none
  else
    some
      { publicKey := subspan payload 0 packetPublicKeySize
        timestamp := readUint32 payload packetPublicKeySize
        signature :=
          subspan payload
            (packetPublicKeySize + packetTimestampSize)
            packetSignatureSize
        appdata := payload.drop advertPayloadSize }

def encodeAdvert
    (a : Advert)
    (capacity : Nat) :
    Option Bytes :=
  if a.publicKey.length ≠ packetPublicKeySize then none
  else if a.signature.length ≠ packetSignatureSize then none
  else
    let total := advertPayloadSize + a.appdata.length
    if maxPacketPayload < total ∨ capacity < total then none
    else
      some
        (a.publicKey ++ writeUint32 a.timestamp ++
          a.signature ++ a.appdata)

------------------------------------------------------------
-- Text
------------------------------------------------------------

structure TextMsg where
  timestamp : UInt32
  txtType : UInt8
  attempt : UInt8
  message : Bytes
deriving DecidableEq, Repr

def decodeText (plain : Bytes) : Option TextMsg :=
  if plain.length < textMsgPrefixSize then none
  else
    let flags := plain.getD packetTimestampSize 0
    some
      { timestamp := readUint32 plain 0
        txtType := (flags &&& 0xFC) >>> 2
        attempt := flags &&& 0x03
        message := plain.drop textMsgPrefixSize }

def encodeText
    (m : TextMsg)
    (capacity : Nat) :
    Option Bytes :=
  if 0x3F < m.txtType ∨ 0x03 < m.attempt then none
  else
    let total := textMsgPrefixSize + m.message.length
    if maxPacketPayload < total ∨ capacity < total then none
    else
      some
        (writeUint32 m.timestamp ++
          ((m.txtType <<< 2) ||| m.attempt) :: m.message)

------------------------------------------------------------
-- Logins
------------------------------------------------------------

structure AnonReq where
  destinationHash : UInt8
  publicKey : Bytes
  cipherMac : Bytes
  ciphertext : Bytes
deriving DecidableEq, Repr

def decodeAnonReq (payload : Bytes) : Option AnonReq :=
  if payload.length < anonReqPrefixSize then none
  else
    some
      { destinationHash := payload.getD 0 0
        publicKey :=
          subspan payload nodeHashSize packetPublicKeySize
        cipherMac :=
          subspan payload
            (nodeHashSize + packetPublicKeySize)
            packetMacSize
        ciphertext := payload.drop anonReqPrefixSize }

------------------------------------------------------------
-- Addressed Envelopes
------------------------------------------------------------

structure Envelope where
  destinationHash : UInt8
  sourceHash : UInt8
  cipherMac : Bytes
  ciphertext : Bytes
deriving DecidableEq, Repr

def decodeEnvelope (payload : Bytes) : Option Envelope :=
  if payload.length < envelopePrefixSize then none
  else
    some
      { destinationHash := payload.getD 0 0
        sourceHash := payload.getD 1 0
        cipherMac :=
          subspan payload (nodeHashSize * 2) packetMacSize
        ciphertext := payload.drop envelopePrefixSize }

def encodeEnvelope
    (e : Envelope)
    (capacity : Nat) :
    Option Bytes :=
  if e.cipherMac.length ≠ packetMacSize then none
  else
    let total := envelopePrefixSize + e.ciphertext.length
    if maxPacketPayload < total ∨ capacity < total then none
    else
      some
        (e.destinationHash :: e.sourceHash ::
          e.cipherMac ++ e.ciphertext)

------------------------------------------------------------
-- Channel Traffic
------------------------------------------------------------

structure GroupMsg where
  channelHash : UInt8
  cipherMac : Bytes
  ciphertext : Bytes
deriving DecidableEq, Repr

def decodeGroup (payload : Bytes) : Option GroupMsg :=
  if payload.length < groupPrefixSize then none
  else
    some
      { channelHash := payload.getD 0 0
        cipherMac :=
          subspan payload nodeHashSize packetMacSize
        ciphertext := payload.drop groupPrefixSize }

def encodeGroup
    (g : GroupMsg)
    (capacity : Nat) :
    Option Bytes :=
  if g.cipherMac.length ≠ packetMacSize then none
  else
    let total := groupPrefixSize + g.ciphertext.length
    if maxPacketPayload < total ∨ capacity < total then none
    else
      some (g.channelHash :: g.cipherMac ++ g.ciphertext)

------------------------------------------------------------
-- Traces
------------------------------------------------------------

structure Trace where
  tag : UInt32
  authCode : UInt32
  flags : UInt8
  snr : Bytes
deriving DecidableEq, Repr

def decodeTrace (payload : Bytes) : Option Trace :=
  if payload.length < tracePrefixSize then none
  else
    some
      { tag := readUint32 payload 0
        authCode := readUint32 payload packetTimestampSize
        flags := payload.getD (packetTimestampSize * 2) 0
        snr := payload.drop tracePrefixSize }

def encodeTrace
    (t : Trace)
    (capacity : Nat) :
    Option Bytes :=
  let total := tracePrefixSize + t.snr.length
  if maxPacketPayload < total ∨ capacity < total then none
  else
    some
      (writeUint32 t.tag ++ writeUint32 t.authCode ++
        t.flags :: t.snr)

------------------------------------------------------------
-- Returned Paths
------------------------------------------------------------

structure PathReturn where
  path : Bytes
  extraType : UInt8
  extra : Bytes
deriving DecidableEq, Repr

def decodePath (payload : Bytes) : Option PathReturn :=
  match payload with
  | [] => none
  | size :: _ =>
      let pathSize := size.toNat
      if maxPathSize < pathSize then none
      else
        let total :=
          packetPathLengthSize + pathSize +
            pathExtraTypeSize
        if payload.length < total then none
        else
          some
            { path :=
                subspan payload packetPathLengthSize
                  pathSize
              extraType :=
                payload.getD
                  (packetPathLengthSize + pathSize) 0
              extra := payload.drop total }

def encodePath
    (p : PathReturn)
    (capacity : Nat) :
    Option Bytes :=
  if maxPathSize < p.path.length then none
  else
    let total :=
      packetPathLengthSize + p.path.length +
        pathExtraTypeSize + p.extra.length
    if maxPacketPayload < total ∨ capacity < total then none
    else
      some
        (UInt8.ofNat p.path.length :: p.path ++
          p.extraType :: p.extra)

------------------------------------------------------------
-- Envelopes And Paths
------------------------------------------------------------

/- No envelope is longer than a payload can be. -/
theorem length_encodeEnvelope
    {e : Envelope} {capacity : Nat} {wire : Bytes}
    (hWire : encodeEnvelope e capacity = some wire) :
    wire.length ≤ maxPacketPayload := by
  simp only [encodeEnvelope] at hWire
  split_ifs at hWire with hMac hRoom
  injection hWire with hEq
  rw [not_not] at hMac
  rw [not_or, Nat.not_lt, Nat.not_lt] at hRoom
  rw [← hEq]
  simp only [envelopePrefixSize, nodeHashSize] at hRoom
  simp only [List.cons_append, List.length_cons,
    List.length_append, hMac]
  omega

theorem decodeEnvelope_encodeEnvelope
    {e : Envelope} {capacity : Nat} {wire : Bytes}
    (hWire : encodeEnvelope e capacity = some wire) :
    decodeEnvelope wire = some e := by
  simp only [encodeEnvelope] at hWire
  split_ifs at hWire with hMac hRoom
  injection hWire with hEq
  rw [not_not] at hMac
  have hLong : ¬ wire.length < envelopePrefixSize := by
    rw [← hEq]
    simp [envelopePrefixSize, nodeHashSize, hMac]
    omega
  have hMacRead :
      (e.cipherMac ++ e.ciphertext).take packetMacSize =
        e.cipherMac :=
    List.take_left' hMac
  have hRest :
      (e.cipherMac ++ e.ciphertext).drop packetMacSize =
        e.ciphertext :=
    List.drop_left' hMac
  rw [decodeEnvelope, if_neg hLong, ← hEq, Option.some.injEq,
    Envelope.mk.injEq]
  exact ⟨rfl, rfl, hMacRead, hRest⟩

theorem decodePath_encodePath
    {p : PathReturn} {capacity : Nat} {plain : Bytes}
    (hPlain : encodePath p capacity = some plain) :
    decodePath plain = some p := by
  simp only [encodePath] at hPlain
  split_ifs at hPlain with hLong hRoom
  injection hPlain with hEq
  have hSize :
      (UInt8.ofNat p.path.length).toNat = p.path.length := by
    unfold maxPathSize at hLong
    rw [UInt8.toNat_ofNat']
    omega
  rw [← hEq]
  simp only [List.cons_append, decodePath, hSize]
  rw [if_neg hLong, if_neg (by
    simp [packetPathLengthSize, pathExtraTypeSize]
    omega)]
  have hPath :
      (p.path ++ p.extraType :: p.extra).take
          p.path.length =
        p.path :=
    List.take_left
  have hRest :
      (p.path ++ p.extraType :: p.extra).drop
          p.path.length =
        p.extraType :: p.extra :=
    List.drop_left
  have hType :
      (p.path ++ p.extraType :: p.extra)[p.path.length]? =
        some p.extraType := by
    rw [List.getElem?_append_right (Nat.le_refl _),
      Nat.sub_self]
    rfl
  simp only [subspan, packetPathLengthSize,
    pathExtraTypeSize, List.drop_succ_cons, List.drop_zero,
    hPath, Nat.add_comm 1, List.getElem?_cons_succ,
    List.getD_eq_getElem?_getD, hType, Option.getD_some,
    ← List.drop_drop, hRest]

end MeshCore
