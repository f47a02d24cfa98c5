import MeshCore.Library.Wire
import MeshCore.Packet.Codec
import MeshCore.Packet.Payload

/-
  The payload encoders as they fill the buffer they are
  given, and the six codecs they make with the decoders.
  Every one of them is exact: what fits is written and read
  back, what is read is written again, and nothing else is
  written at all.

  Key definitions include:
    * `writeUint32At`
    * `encodeAdvertInto`, `encodeTextInto`
    * `encodeEnvelopeInto`, `encodeGroupInto`
    * `encodeTraceInto`, `encodePathInto`
    * `Advert.codec`, `TextMsg.codec`
    * `Envelope.codec`, `GroupMsg.codec`
    * `Trace.codec`, `PathReturn.codec`

  Key facts include:
    * `codecs_are_exact`
-/

namespace MeshCore

open Wire (put headed put_zero put_headed set_headed set_zero)
open Wire.Codec (fill)

------------------------------------------------------------
-- Encoders
------------------------------------------------------------

def writeUint32At
    (out : Bytes)
    (offset : Nat)
    (value : UInt32) :
    Bytes :=
  (((out.set offset value.toUInt8).set
    (offset + 1) (value >>> 8).toUInt8).set
      (offset + 2) (value >>> 16).toUInt8).set
        (offset + 3) (value >>> 24).toUInt8

def encodeAdvertInto
    (a : Advert)
    (out : Bytes) :
    Option Nat × Bytes :=
  if a.publicKey.length ≠ packetPublicKeySize then
    (none, out)
  else if a.signature.length ≠ packetSignatureSize then
    (none, out)
  else
    let total := advertPayloadSize + a.appdata.length
    if maxPacketPayload < total ∨ out.length < total then
      (none, out)
    else
      let out := put out 0 a.publicKey
      let offset := packetPublicKeySize
      let out := writeUint32At out offset a.timestamp
      let offset := offset + packetTimestampSize
      let out := put out offset a.signature
      let offset := offset + packetSignatureSize
      let out := put out offset a.appdata
      (some (offset + a.appdata.length), out)

def encodeTextInto
    (m : TextMsg)
    (out : Bytes) :
    Option Nat × Bytes :=
  if 0x3F < m.txtType ∨ 0x03 < m.attempt then (none, out)
  else
    let total := textMsgPrefixSize + m.message.length
    if maxPacketPayload < total ∨ out.length < total then
      (none, out)
    else
      let out := writeUint32At out 0 m.timestamp
      let out :=
        out.set packetTimestampSize
          ((m.txtType <<< 2) ||| m.attempt)
      let out := put out textMsgPrefixSize m.message
      (some total, out)

def encodeEnvelopeInto
    (e : Envelope)
    (out : Bytes) :
    Option Nat × Bytes :=
  if e.cipherMac.length ≠ packetMacSize then (none, out)
  else
    let total := envelopePrefixSize + e.ciphertext.length
    if maxPacketPayload < total ∨ out.length < total then
      (none, out)
    else
      let out := out.set 0 e.destinationHash
      let out := out.set 1 e.sourceHash
      let out := put out (nodeHashSize * 2) e.cipherMac
      let out := put out envelopePrefixSize e.ciphertext
      (some total, out)

def encodeGroupInto
    (g : GroupMsg)
    (out : Bytes) :
    Option Nat × Bytes :=
  if g.cipherMac.length ≠ packetMacSize then (none, out)
  else
    let total := groupPrefixSize + g.ciphertext.length
    if maxPacketPayload < total ∨ out.length < total then
      (none, out)
    else
      let out := out.set 0 g.channelHash
      let out := put out nodeHashSize g.cipherMac
      let out := put out groupPrefixSize g.ciphertext
      (some total, out)

def encodeTraceInto
    (t : Trace)
    (out : Bytes) :
    Option Nat × Bytes :=
  let total := tracePrefixSize + t.snr.length
  if maxPacketPayload < total ∨ out.length < total then
    (none, out)
  else
    let out := writeUint32At out 0 t.tag
    let out :=
      writeUint32At out packetTimestampSize t.authCode
    let out := out.set (packetTimestampSize * 2) t.flags
    let out := put out tracePrefixSize t.snr
    (some total, out)

def encodePathInto
    (p : PathReturn)
    (out : Bytes) :
    Option Nat × Bytes :=
  if maxPathSize < p.path.length then (none, out)
  else
    let total :=
      packetPathLengthSize + p.path.length +
        pathExtraTypeSize + p.extra.length
    if maxPacketPayload < total ∨ out.length < total then
      (none, out)
    else
      let out := out.set 0 (UInt8.ofNat p.path.length)
      let offset := packetPathLengthSize
      let out := put out offset p.path
      let offset := offset + p.path.length
      let out := out.set offset p.extraType
      let offset := offset + 1
      let out := put out offset p.extra
      (some (offset + p.extra.length), out)

------------------------------------------------------------
-- Numbers And Parts Of A Buffer
------------------------------------------------------------

theorem writeUint32At_headed
    {out bytes : Bytes} {offset : Nat}
    (hOffset : bytes.length = offset)
    (hRoom : offset + 4 ≤ out.length)
    (value : UInt32) :
    writeUint32At (headed out bytes) offset value =
      headed out (bytes ++ writeUint32 value) := by
  unfold writeUint32At
  rw [set_headed hOffset (by omega),
    set_headed (by simp [hOffset]) (by omega),
    set_headed (by simp [hOffset]) (by omega),
    set_headed (by simp [hOffset]) (by omega)]
  simp [writeUint32]

theorem writeUint32At_zero
    {out : Bytes}
    (hRoom : 4 ≤ out.length)
    (value : UInt32) :
    writeUint32At out 0 value =
      headed out (writeUint32 value) := by
  have hNone : ([] : Bytes).length = 0 := rfl
  exact writeUint32At_headed hNone (by omega) value

/- Reading a number does not see what stands before it. -/
theorem readUint32_append
    {b : Bytes} {offset : Nat}
    (hOffset : b.length = offset)
    (value : UInt32)
    (rest : Bytes) :
    readUint32 (b ++ (writeUint32 value ++ rest)) offset =
      value := by
  subst hOffset
  have hHere :
      readUint32 (b ++ (writeUint32 value ++ rest))
          b.length =
        readUint32 (writeUint32 value ++ rest) 0 := by
    simp [readUint32, List.getD_eq_getElem?_getD,
      List.getElem?_append_right]
  rw [hHere, readUint32_writeUint32]

theorem subspan_append
    {b part : Bytes} {offset n : Nat}
    (hOffset : b.length = offset)
    (hPart : part.length = n)
    (rest : Bytes) :
    subspan (b ++ (part ++ rest)) offset n = part := by
  rw [subspan, ← hOffset, List.drop_left, ← hPart,
    List.take_left]

theorem length_subspan
    {b : Bytes} {offset n : Nat}
    (hInside : offset + n ≤ b.length) :
    (subspan b offset n).length = n := by
  rw [subspan, List.length_take, List.length_drop]
  omega

/- A part of a buffer is cut anywhere into two. -/
theorem subspan_add (b : Bytes) (offset n m : Nat) :
    subspan b offset (n + m) =
      subspan b offset n ++ subspan b (offset + n) m := by
  rw [subspan, subspan, subspan, List.take_add,
    List.drop_drop]

theorem subspan_append_drop (b : Bytes) (n : Nat) :
    subspan b 0 n ++ b.drop n = b :=
  List.take_append_drop n b

theorem subspan_one
    {b : Bytes} {offset : Nat}
    (hInside : offset < b.length) :
    [b.getD offset 0] = subspan b offset 1 := by
  rw [subspan, List.drop_eq_getElem_cons hInside,
    List.getD_eq_getElem?_getD,
    List.getElem?_eq_getElem hInside]
  rfl

/- The four bytes that a number is read from. -/
theorem writeUint32_of_bytes (b₀ b₁ b₂ b₃ : UInt8) :
    writeUint32
        (b₀.toUInt32 ||| (b₁.toUInt32 <<< 8) |||
          (b₂.toUInt32 <<< 16) ||| (b₃.toUInt32 <<< 24)) =
      [b₀, b₁, b₂, b₃] := by
  simp only [writeUint32, List.cons.injEq, and_true]
  refine ⟨?_, ?_, ?_, ?_⟩ <;>
    apply UInt8.eq_of_toBitVec_eq <;>
    apply BitVec.eq_of_getLsbD_eq <;>
    intro i hi
  · simp [hi]
  · simp (disch := omega) [show 8 + i < 24 by omega,
      show ¬ 8 + i < 8 by omega, show 8 + i < 16 by omega]
  · simp (disch := omega) [show 16 + i < 24 by omega]
  · simp (disch := omega)

/- The bytes of the number at an offset are those there. -/
theorem writeUint32_readUint32
    {b : Bytes} {offset : Nat}
    (hInside : offset + packetTimestampSize ≤ b.length) :
    writeUint32 (readUint32 b offset) =
      subspan b offset packetTimestampSize := by
  simp only [packetTimestampSize] at hInside ⊢
  rw [readUint32, writeUint32_of_bytes,
    subspan_add b offset 3 1, subspan_add b offset 2 1,
    subspan_add b offset 1 1, ← subspan_one (by omega),
    ← subspan_one (by omega), ← subspan_one (by omega),
    ← subspan_one (by omega)]
  rfl

------------------------------------------------------------
-- The Head Of A View
------------------------------------------------------------

theorem head_readUint32
    {view : Bytes}
    (hLong : 4 ≤ view.length) :
    writeUint32 (readUint32 view 0) ++ view.drop 4 =
      view := by
  have hInside :
      0 + packetTimestampSize ≤ view.length := by
    simpa [packetTimestampSize] using hLong
  rw [writeUint32_readUint32 hInside]
  exact subspan_append_drop view 4

theorem head_copyInto
    {n : Nat} {view : Bytes}
    (hLong : n ≤ view.length) :
    (copyInto n view).toList ++ view.drop n = view := by
  rw [toList_copyInto, List.take_append_of_le_length hLong,
    List.take_append_drop]

theorem head_byte
    {view : Bytes}
    (hLong : 1 ≤ view.length) :
    view.getD 0 0 :: view.drop 1 = view := by
  cases view with
  | nil => simp at hLong
  | cons b rest => rfl

------------------------------------------------------------
-- Adverts
------------------------------------------------------------

def Advert.codec : Wire.Codec Advert UInt8 where
  fits a :=
    a.publicKey.length = packetPublicKeySize ∧
      a.signature.length = packetSignatureSize
  size a := advertPayloadSize + a.appdata.length
  decode := decodeAdvert
  encode := encodeAdvertInto

theorem encodeAdvertInto_eq (a : Advert) (out : Bytes) :
    encodeAdvertInto a out =
      fill (encodeAdvert a out.length) out := by
  unfold encodeAdvertInto encodeAdvert
  dsimp only
  split_ifs with hKey hSign hFull
  · rfl
  · rfl
  · rfl
  · rw [not_not] at hKey hSign
    simp only [advertPayloadSize] at hFull
    have hStamp :
        (a.publicKey ++ writeUint32 a.timestamp).length =
          packetPublicKeySize + packetTimestampSize := by
      rw [List.length_append, hKey]
      rfl
    have hSigned :
        (a.publicKey ++ writeUint32 a.timestamp ++
            a.signature).length =
          packetPublicKeySize + packetTimestampSize +
            packetSignatureSize := by
      rw [List.length_append, hStamp, hSign]
    rw [put_zero,
      writeUint32At_headed hKey
        (by simp only [packetTimestampSize] at hFull; omega),
      put_headed hStamp, put_headed hSigned, fill,
      List.length_append, hSigned]

theorem encodeAdvert_isSome_iff (a : Advert) (room : Nat) :
    (encodeAdvert a room).isSome = true ↔
      Advert.codec.fits a ∧
        Advert.codec.HasRoom maxPacketPayload a room := by
  simp only [encodeAdvert, Advert.codec,
    Wire.Codec.HasRoom]
  split_ifs with hKey hSign hFull
  · simp [hKey]
  · simp [hSign]
  · rw [not_not] at hKey hSign
    simp [hKey, hSign]
    omega
  · rw [not_not] at hKey hSign
    simp [hKey, hSign]
    omega

theorem decodeAdvert_encodeAdvert
    {a : Advert} {room : Nat} {bytes : Bytes}
    (hBytes : encodeAdvert a room = some bytes) :
    decodeAdvert bytes = some a := by
  simp only [encodeAdvert] at hBytes
  split_ifs at hBytes with hKey hSign hFull
  injection hBytes with hEq
  rw [not_not] at hKey hSign
  have hLong : ¬ bytes.length < advertPayloadSize := by
    rw [← hEq]
    simp only [List.length_append, length_writeUint32, hKey,
      hSign, advertPayloadSize, packetTimestampSize]
    omega
  have hStamp :
      (a.publicKey ++ writeUint32 a.timestamp).length =
        packetPublicKeySize + packetTimestampSize := by
    rw [List.length_append, hKey]
    rfl
  have hSigned :
      (a.publicKey ++ writeUint32 a.timestamp ++
          a.signature).length =
        advertPayloadSize := by
    rw [List.length_append, hStamp, hSign]
    rfl
  rw [decodeAdvert, if_neg hLong, ← hEq, Option.some.injEq,
    Advert.mk.injEq]
  refine ⟨?_, ?_, ?_, ?_⟩
  · simp only [List.append_assoc]
    exact List.take_left' hKey
  · simp only [List.append_assoc]
    exact readUint32_append hKey _ _
  · rw [List.append_assoc _ a.signature]
    exact subspan_append hStamp hSign _
  · rw [← hSigned]
    exact List.drop_left

theorem encodeAdvert_of_decodeAdvert
    {a : Advert} {payload : Bytes} {room : Nat}
    (hPayload : decodeAdvert payload = some a)
    (hLimit : payload.length ≤ maxPacketPayload)
    (hRoom : payload.length ≤ room) :
    encodeAdvert a room = some payload := by
  unfold decodeAdvert at hPayload
  split_ifs at hPayload with hShort
  injection hPayload with hEq
  rw [Nat.not_lt] at hShort
  have hParts :
      packetPublicKeySize + packetTimestampSize +
          packetSignatureSize ≤
        payload.length :=
    hShort
  have hKey :
      a.publicKey.length = packetPublicKeySize := by
    rw [← hEq]
    exact length_subspan (by omega)
  have hSign :
      a.signature.length = packetSignatureSize := by
    rw [← hEq]
    exact length_subspan hParts
  have hRest :
      advertPayloadSize + a.appdata.length =
        payload.length := by
    rw [← hEq, List.length_drop]
    omega
  simp only [encodeAdvert]
  rw [if_neg (not_not.mpr hKey), if_neg (not_not.mpr hSign),
    hRest, if_neg (by omega), ← hEq, Option.some.injEq]
  dsimp only
  rw [writeUint32_readUint32 (by omega)]
  have hHead := subspan_add payload 0
    (packetPublicKeySize + packetTimestampSize)
    packetSignatureSize
  rw [subspan_add payload 0 packetPublicKeySize,
    Nat.zero_add, Nat.zero_add] at hHead
  exact (congrArg (· ++ payload.drop advertPayloadSize)
    hHead.symm).trans (subspan_append_drop payload _)

theorem Advert.codec_exact :
    Advert.codec.Exact maxPacketPayload :=
  Wire.Codec.exact_of_fill encodeAdvertInto_eq
    encodeAdvert_isSome_iff
    (fun _ _ _ => decodeAdvert_encodeAdvert)
    (fun _ _ hPayload _ =>
      encodeAdvert_of_decodeAdvert hPayload)

------------------------------------------------------------
-- Text
------------------------------------------------------------

/- Six bits of type and two of attempt share a byte. -/
theorem flags_joined (b : UInt8) :
    ((b &&& 0xFC) >>> 2) <<< 2 ||| (b &&& 0x03) = b := by
  revert b
  apply forall_byte
  decide +kernel

theorem flags_fit (b : UInt8) :
    ¬ ((0x3F : UInt8) < (b &&& 0xFC) >>> 2 ∨
      (0x03 : UInt8) < b &&& 0x03) := by
  revert b
  apply forall_byte
  decide +kernel

theorem flags_split
    {txtType attempt : UInt8}
    (hFields : ¬ (0x3F < txtType ∨ 0x03 < attempt)) :
    let flags := (txtType <<< 2) ||| attempt
    (flags &&& 0xFC) >>> 2 = txtType ∧
      flags &&& 0x03 = attempt := by
  have hAll :
      ∀ i : Fin 64, ∀ j : Fin 4,
        let flags :=
          (UInt8.ofNat i <<< 2) ||| UInt8.ofNat j
        (flags &&& 0xFC) >>> 2 = UInt8.ofNat i ∧
          flags &&& 0x03 = UInt8.ofNat j := by
    decide +kernel
  rw [not_or, UInt8.not_lt, UInt8.not_lt,
    UInt8.le_iff_toNat_le, UInt8.le_iff_toNat_le] at hFields
  have hThis :=
    hAll ⟨txtType.toNat, Nat.lt_succ_of_le hFields.1⟩
      ⟨attempt.toNat, Nat.lt_succ_of_le hFields.2⟩
  simpa using hThis

def TextMsg.codec : Wire.Codec TextMsg UInt8 where
  fits m := ¬ (0x3F < m.txtType ∨ 0x03 < m.attempt)
  size m := textMsgPrefixSize + m.message.length
  decode := decodeText
  encode := encodeTextInto

theorem encodeTextInto_eq (m : TextMsg) (out : Bytes) :
    encodeTextInto m out =
      fill (encodeText m out.length) out := by
  unfold encodeTextInto encodeText
  dsimp only
  split_ifs with hFields hFull
  · rfl
  · rfl
  · simp only [textMsgPrefixSize, packetTimestampSize]
      at hFull ⊢
    have hStamp : (writeUint32 m.timestamp).length = 4 :=
      rfl
    have hFlags :
        (writeUint32 m.timestamp ++
            [(m.txtType <<< 2) ||| m.attempt]).length =
          4 + 1 :=
      rfl
    rw [writeUint32At_zero (by omega),
      set_headed hStamp (by omega), put_headed hFlags,
      ← hFlags, ← List.length_append, List.append_assoc]
    rfl

theorem encodeText_isSome_iff (m : TextMsg) (room : Nat) :
    (encodeText m room).isSome = true ↔
      TextMsg.codec.fits m ∧
        TextMsg.codec.HasRoom maxPacketPayload m room := by
  simp only [encodeText, TextMsg.codec, Wire.Codec.HasRoom]
  split_ifs with hFields hFull
  · simp [hFields]
  · simp [hFields]
    omega
  · simp [hFields]
    omega

theorem decodeText_encodeText
    {m : TextMsg} {room : Nat} {bytes : Bytes}
    (hBytes : encodeText m room = some bytes) :
    decodeText bytes = some m := by
  simp only [encodeText] at hBytes
  split_ifs at hBytes with hFields hFull
  injection hBytes with hEq
  have hSplit := flags_split hFields
  subst hEq
  rw [decodeText, if_neg (by
    simp only [List.length_append, length_writeUint32,
      List.length_cons, textMsgPrefixSize,
      packetTimestampSize]
    omega), Option.some.injEq, TextMsg.mk.injEq]
  exact ⟨readUint32_writeUint32 _ _, hSplit.1, hSplit.2, rfl⟩

/- A text that has room in a payload is written whole. -/
theorem exists_encodeText
    {m : TextMsg}
    (hFits : TextMsg.codec.fits m)
    (hRoom :
      textMsgPrefixSize + m.message.length ≤
        maxPacketPayload) :
    ∃ plain,
      encodeText m maxPacketPayload = some plain ∧
        decodeText plain = some m ∧
        plain.length =
          textMsgPrefixSize + m.message.length := by
  have hSome :
      (encodeText m maxPacketPayload).isSome = true :=
    (encodeText_isSome_iff m _).mpr ⟨hFits, hRoom, hRoom⟩
  rcases Option.isSome_iff_exists.mp hSome with
    ⟨plain, hPlain⟩
  refine ⟨plain, hPlain, decodeText_encodeText hPlain, ?_⟩
  simp only [encodeText] at hPlain
  split_ifs at hPlain
  injection hPlain with hEq
  rw [← hEq, List.length_append, length_writeUint32,
    List.length_cons, textMsgPrefixSize,
    packetTimestampSize]
  omega

theorem encodeText_of_decodeText
    {m : TextMsg} {payload : Bytes} {room : Nat}
    (hPayload : decodeText payload = some m)
    (hLimit : payload.length ≤ maxPacketPayload)
    (hRoom : payload.length ≤ room) :
    encodeText m room = some payload := by
  unfold decodeText at hPayload
  split_ifs at hPayload with hShort
  injection hPayload with hEq
  rw [Nat.not_lt] at hShort
  have hRest :
      textMsgPrefixSize + m.message.length =
        payload.length := by
    rw [← hEq, List.length_drop]
    omega
  have hHead :=
    subspan_add payload 0 packetTimestampSize 1
  rw [Nat.zero_add] at hHead
  simp only [encodeText]
  rw [hRest, ← hEq]
  dsimp only
  rw [if_neg (flags_fit _), if_neg (by omega),
    Option.some.injEq, flags_joined,
    writeUint32_readUint32 (by
      simp only [textMsgPrefixSize] at hShort
      omega),
    ← List.singleton_append, subspan_one hShort,
    ← List.append_assoc, ← hHead]
  exact subspan_append_drop payload _

theorem TextMsg.codec_exact :
    TextMsg.codec.Exact maxPacketPayload :=
  Wire.Codec.exact_of_fill encodeTextInto_eq
    encodeText_isSome_iff
    (fun _ _ _ => decodeText_encodeText)
    (fun _ _ hPayload _ =>
      encodeText_of_decodeText hPayload)

------------------------------------------------------------
-- Envelopes
------------------------------------------------------------

def Envelope.codec : Wire.Codec Envelope UInt8 where
  fits e := e.cipherMac.length = packetMacSize
  size e := envelopePrefixSize + e.ciphertext.length
  decode := decodeEnvelope
  encode := encodeEnvelopeInto

theorem encodeEnvelopeInto_eq
    (e : Envelope)
    (out : Bytes) :
    encodeEnvelopeInto e out =
      fill (encodeEnvelope e out.length) out := by
  unfold encodeEnvelopeInto encodeEnvelope
  dsimp only
  split_ifs with hMac hFull
  · rfl
  · rfl
  · rw [not_not] at hMac
    simp only [envelopePrefixSize, nodeHashSize] at hFull ⊢
    have hFirst : [e.destinationHash].length = 1 := rfl
    have hBoth :
        ([e.destinationHash] ++ [e.sourceHash]).length =
          1 * 2 :=
      rfl
    have hHead :
        ([e.destinationHash] ++ [e.sourceHash] ++
            e.cipherMac).length =
          1 * 2 + packetMacSize := by
      rw [List.length_append, hBoth, hMac]
    rw [set_zero (by omega), set_headed hFirst (by omega),
      put_headed hBoth, put_headed hHead, ← hHead,
      ← List.length_append]
    rfl

theorem encodeEnvelope_isSome_iff
    (e : Envelope)
    (room : Nat) :
    (encodeEnvelope e room).isSome = true ↔
      Envelope.codec.fits e ∧
        Envelope.codec.HasRoom maxPacketPayload e room := by
  simp only [encodeEnvelope, Envelope.codec,
    Wire.Codec.HasRoom]
  split_ifs with hMac hFull
  · simp [hMac]
  · rw [not_not] at hMac
    simp [hMac]
    omega
  · rw [not_not] at hMac
    simp [hMac]
    omega

theorem encodeEnvelope_of_decodeEnvelope
    {e : Envelope} {payload : Bytes} {room : Nat}
    (hPayload : decodeEnvelope payload = some e)
    (hLimit : payload.length ≤ maxPacketPayload)
    (hRoom : payload.length ≤ room) :
    encodeEnvelope e room = some payload := by
  unfold decodeEnvelope at hPayload
  split_ifs at hPayload with hShort
  injection hPayload with hEq
  rw [Nat.not_lt] at hShort
  have hMac : e.cipherMac.length = packetMacSize := by
    rw [← hEq]
    exact length_subspan hShort
  have hRest :
      envelopePrefixSize + e.ciphertext.length =
        payload.length := by
    rw [← hEq, List.length_drop]
    omega
  have hHashes :
      subspan payload 0 (nodeHashSize * 2) =
        subspan payload 0 1 ++ subspan payload 1 1 :=
    subspan_add payload 0 1 1
  have hHead :=
    subspan_add payload 0 (nodeHashSize * 2) packetMacSize
  rw [Nat.zero_add, hHashes] at hHead
  have hLong : 2 ≤ payload.length := by
    simp only [envelopePrefixSize, nodeHashSize] at hShort
    omega
  simp only [encodeEnvelope]
  rw [if_neg (not_not.mpr hMac), hRest,
    if_neg (by omega), Option.some.injEq, ← hEq]
  calc payload.getD 0 0 :: payload.getD 1 0 ::
          subspan payload (nodeHashSize * 2)
            packetMacSize ++
        payload.drop envelopePrefixSize
    _ = [payload.getD 0 0] ++ [payload.getD 1 0] ++
          subspan payload (nodeHashSize * 2)
            packetMacSize ++
        payload.drop envelopePrefixSize := rfl
    _ = payload := by
        rw [subspan_one (by omega), subspan_one (by omega),
          ← hHead]
        exact subspan_append_drop payload _

theorem Envelope.codec_exact :
    Envelope.codec.Exact maxPacketPayload :=
  Wire.Codec.exact_of_fill encodeEnvelopeInto_eq
    encodeEnvelope_isSome_iff
    (fun _ _ _ => decodeEnvelope_encodeEnvelope)
    (fun _ _ hPayload _ =>
      encodeEnvelope_of_decodeEnvelope hPayload)

------------------------------------------------------------
-- Channel Traffic
------------------------------------------------------------

def GroupMsg.codec : Wire.Codec GroupMsg UInt8 where
  fits g := g.cipherMac.length = packetMacSize
  size g := groupPrefixSize + g.ciphertext.length
  decode := decodeGroup
  encode := encodeGroupInto

theorem encodeGroupInto_eq
    (g : GroupMsg)
    (out : Bytes) :
    encodeGroupInto g out =
      fill (encodeGroup g out.length) out := by
  unfold encodeGroupInto encodeGroup
  dsimp only
  split_ifs with hMac hFull
  · rfl
  · rfl
  · rw [not_not] at hMac
    simp only [groupPrefixSize, nodeHashSize] at hFull ⊢
    have hFirst : [g.channelHash].length = 1 := rfl
    have hHead :
        ([g.channelHash] ++ g.cipherMac).length =
          1 + packetMacSize := by
      rw [List.length_append, hFirst, hMac]
    rw [set_zero (by omega), put_headed hFirst,
      put_headed hHead, ← hHead, ← List.length_append]
    rfl

theorem encodeGroup_isSome_iff
    (g : GroupMsg)
    (room : Nat) :
    (encodeGroup g room).isSome = true ↔
      GroupMsg.codec.fits g ∧
        GroupMsg.codec.HasRoom maxPacketPayload g room := by
  simp only [encodeGroup, GroupMsg.codec,
    Wire.Codec.HasRoom]
  split_ifs with hMac hFull
  · simp [hMac]
  · rw [not_not] at hMac
    simp [hMac]
    omega
  · rw [not_not] at hMac
    simp [hMac]
    omega

theorem decodeGroup_encodeGroup
    {g : GroupMsg} {room : Nat} {bytes : Bytes}
    (hBytes : encodeGroup g room = some bytes) :
    decodeGroup bytes = some g := by
  simp only [encodeGroup] at hBytes
  split_ifs at hBytes with hMac hFull
  injection hBytes with hEq
  rw [not_not] at hMac
  have hLong : ¬ bytes.length < groupPrefixSize := by
    rw [← hEq]
    simp [groupPrefixSize, nodeHashSize, hMac]
    omega
  have hMacRead :
      (g.cipherMac ++ g.ciphertext).take packetMacSize =
        g.cipherMac :=
    List.take_left' hMac
  have hRest :
      (g.cipherMac ++ g.ciphertext).drop packetMacSize =
        g.ciphertext :=
    List.drop_left' hMac
  rw [decodeGroup, if_neg hLong, ← hEq, Option.some.injEq,
    GroupMsg.mk.injEq]
  exact ⟨rfl, hMacRead, hRest⟩

theorem length_encodeGroup
    {g : GroupMsg} {capacity : Nat} {bytes : Bytes}
    (hBytes : encodeGroup g capacity = some bytes) :
    bytes.length ≤ maxPacketPayload := by
  simp only [encodeGroup] at hBytes
  split_ifs at hBytes with hMac hRoom
  injection hBytes with hEq
  rw [not_not] at hMac
  rw [not_or, Nat.not_lt, Nat.not_lt] at hRoom
  rw [← hEq]
  simp only [groupPrefixSize, nodeHashSize] at hRoom
  simp only [List.cons_append, List.length_cons,
    List.length_append, hMac]
  omega

theorem encodeGroup_of_decodeGroup
    {g : GroupMsg} {payload : Bytes} {room : Nat}
    (hPayload : decodeGroup payload = some g)
    (hLimit : payload.length ≤ maxPacketPayload)
    (hRoom : payload.length ≤ room) :
    encodeGroup g room = some payload := by
  unfold decodeGroup at hPayload
  split_ifs at hPayload with hShort
  injection hPayload with hEq
  rw [Nat.not_lt] at hShort
  have hMac : g.cipherMac.length = packetMacSize := by
    rw [← hEq]
    exact length_subspan hShort
  have hRest :
      groupPrefixSize + g.ciphertext.length =
        payload.length := by
    rw [← hEq, List.length_drop]
    omega
  have hHead :=
    subspan_add payload 0 nodeHashSize packetMacSize
  rw [Nat.zero_add] at hHead
  have hLong : 0 < payload.length := by
    simp only [groupPrefixSize, nodeHashSize] at hShort
    omega
  simp only [encodeGroup]
  rw [if_neg (not_not.mpr hMac), hRest,
    if_neg (by omega), Option.some.injEq, ← hEq]
  calc payload.getD 0 0 ::
          subspan payload nodeHashSize packetMacSize ++
        payload.drop groupPrefixSize
    _ = [payload.getD 0 0] ++
          subspan payload nodeHashSize packetMacSize ++
        payload.drop groupPrefixSize := rfl
    _ = payload := by
        rw [subspan_one hLong]
        exact (congrArg (· ++ payload.drop groupPrefixSize)
          hHead.symm).trans (subspan_append_drop payload _)

theorem GroupMsg.codec_exact :
    GroupMsg.codec.Exact maxPacketPayload :=
  Wire.Codec.exact_of_fill encodeGroupInto_eq
    encodeGroup_isSome_iff
    (fun _ _ _ => decodeGroup_encodeGroup)
    (fun _ _ hPayload _ =>
      encodeGroup_of_decodeGroup hPayload)

------------------------------------------------------------
-- Traces
------------------------------------------------------------

def Trace.codec : Wire.Codec Trace UInt8 where
  fits _ := True
  size t := tracePrefixSize + t.snr.length
  decode := decodeTrace
  encode := encodeTraceInto

theorem encodeTraceInto_eq
    (t : Trace)
    (out : Bytes) :
    encodeTraceInto t out =
      fill (encodeTrace t out.length) out := by
  unfold encodeTraceInto encodeTrace
  dsimp only
  split_ifs with hFull
  · rfl
  · simp only [tracePrefixSize, packetTimestampSize]
      at hFull ⊢
    have hTag : (writeUint32 t.tag).length = 4 := rfl
    have hCode :
        (writeUint32 t.tag ++
            writeUint32 t.authCode).length =
          4 * 2 :=
      rfl
    have hHead :
        (writeUint32 t.tag ++ writeUint32 t.authCode ++
            [t.flags]).length =
          4 + 4 + 1 :=
      rfl
    rw [writeUint32At_zero (by omega),
      writeUint32At_headed hTag (by omega),
      set_headed hCode (by omega), put_headed hHead, ← hHead,
      ← List.length_append, List.append_assoc _ [t.flags]]
    rfl

theorem encodeTrace_isSome_iff (t : Trace) (room : Nat) :
    (encodeTrace t room).isSome = true ↔
      Trace.codec.fits t ∧
        Trace.codec.HasRoom maxPacketPayload t room := by
  simp only [encodeTrace, Trace.codec, Wire.Codec.HasRoom]
  split_ifs with hFull
  · simp
    omega
  · simp
    omega

theorem decodeTrace_encodeTrace
    {t : Trace} {room : Nat} {bytes : Bytes}
    (hBytes : encodeTrace t room = some bytes) :
    decodeTrace bytes = some t := by
  simp only [encodeTrace] at hBytes
  split_ifs at hBytes with hFull
  injection hBytes with hEq
  subst hEq
  have hLong :
      ¬ (writeUint32 t.tag ++ writeUint32 t.authCode ++
          t.flags :: t.snr).length <
        tracePrefixSize := by
    simp only [List.length_append, length_writeUint32,
      List.length_cons, tracePrefixSize]
    omega
  rw [decodeTrace, if_neg hLong, Option.some.injEq,
    Trace.mk.injEq]
  refine ⟨?_, ?_, rfl, rfl⟩
  · rw [List.append_assoc]
    exact readUint32_writeUint32 _ _
  · rw [List.append_assoc]
    exact readUint32_append rfl _ _

theorem encodeTrace_of_decodeTrace
    {t : Trace} {payload : Bytes} {room : Nat}
    (hPayload : decodeTrace payload = some t)
    (hLimit : payload.length ≤ maxPacketPayload)
    (hRoom : payload.length ≤ room) :
    encodeTrace t room = some payload := by
  unfold decodeTrace at hPayload
  split_ifs at hPayload with hShort
  injection hPayload with hEq
  rw [Nat.not_lt] at hShort
  have hRest :
      tracePrefixSize + t.snr.length = payload.length := by
    rw [← hEq, List.length_drop]
    omega
  have hLong :
      packetTimestampSize + packetTimestampSize + 1 ≤
        payload.length :=
    hShort
  have hNumbers :
      subspan payload 0 (packetTimestampSize * 2) =
        subspan payload 0 packetTimestampSize ++
          subspan payload packetTimestampSize
            packetTimestampSize :=
    subspan_add payload 0 packetTimestampSize
      packetTimestampSize
  have hHead :=
    subspan_add payload 0 (packetTimestampSize * 2) 1
  rw [Nat.zero_add, hNumbers] at hHead
  simp only [encodeTrace]
  rw [hRest, if_neg (by omega), Option.some.injEq, ← hEq]
  dsimp only
  rw [writeUint32_readUint32 (by omega),
    writeUint32_readUint32 (by omega),
    ← List.singleton_append, ← List.append_assoc,
    subspan_one (by omega), ← hHead]
  exact subspan_append_drop payload _

theorem Trace.codec_exact :
    Trace.codec.Exact maxPacketPayload :=
  Wire.Codec.exact_of_fill encodeTraceInto_eq
    encodeTrace_isSome_iff
    (fun _ _ _ => decodeTrace_encodeTrace)
    (fun _ _ hPayload _ =>
      encodeTrace_of_decodeTrace hPayload)

------------------------------------------------------------
-- Returned Paths
------------------------------------------------------------

def PathReturn.codec : Wire.Codec PathReturn UInt8 where
  fits p := p.path.length ≤ maxPathSize
  size p :=
    packetPathLengthSize + p.path.length +
      pathExtraTypeSize + p.extra.length
  decode := decodePath
  encode := encodePathInto

theorem encodePathInto_eq
    (p : PathReturn)
    (out : Bytes) :
    encodePathInto p out =
      fill (encodePath p out.length) out := by
  unfold encodePathInto encodePath
  dsimp only
  split_ifs with hPath hFull
  · rfl
  · rfl
  · simp only [packetPathLengthSize, pathExtraTypeSize]
      at hFull ⊢
    have hSize : [UInt8.ofNat p.path.length].length = 1 :=
      rfl
    have hHops :
        ([UInt8.ofNat p.path.length] ++ p.path).length =
          1 + p.path.length :=
      List.length_append
    have hHead :
        ([UInt8.ofNat p.path.length] ++ p.path ++
            [p.extraType]).length =
          1 + p.path.length + 1 := by
      rw [List.length_append, hHops]
      rfl
    rw [set_zero (by omega), put_headed hSize,
      set_headed hHops (by omega), put_headed hHead, ← hHead,
      ← List.length_append, List.append_assoc _ [_] p.extra]
    rfl

theorem encodePath_isSome_iff
    (p : PathReturn)
    (room : Nat) :
    (encodePath p room).isSome = true ↔
      PathReturn.codec.fits p ∧
        PathReturn.codec.HasRoom maxPacketPayload p room := by
  simp only [encodePath, PathReturn.codec,
    Wire.Codec.HasRoom]
  split_ifs with hPath hFull
  · simp [Nat.not_le.mpr hPath]
  · simp
    omega
  · simp
    omega

theorem encodePath_of_decodePath
    {p : PathReturn} {payload : Bytes} {room : Nat}
    (hPayload : decodePath payload = some p)
    (hLimit : payload.length ≤ maxPacketPayload)
    (hRoom : payload.length ≤ room) :
    encodePath p room = some payload := by
  cases payload with
  | nil => cases hPayload
  | cons size rest =>
      simp only [decodePath] at hPayload
      split_ifs at hPayload with hPath hShort
      injection hPayload with hEq
      rw [Nat.not_lt] at hShort
      have hLong :
          packetPathLengthSize + size.toNat + 1 ≤
            (size :: rest).length :=
        hShort
      have hHops : p.path.length = size.toNat := by
        rw [← hEq]
        exact length_subspan (by omega)
      have hRest :
          packetPathLengthSize + size.toNat +
              pathExtraTypeSize + p.extra.length =
            (size :: rest).length := by
        rw [← hEq, List.length_drop]
        omega
      have hFirst :
          [size] = subspan (size :: rest) 0
            packetPathLengthSize :=
        rfl
      have hHead :=
        subspan_add (size :: rest) 0
          (packetPathLengthSize + size.toNat) 1
      rw [subspan_add (size :: rest) 0 packetPathLengthSize,
        Nat.zero_add, Nat.zero_add, ← hFirst] at hHead
      simp only [encodePath]
      rw [hHops, if_neg hPath, hRest, if_neg (by omega),
        Option.some.injEq, UInt8.ofNat_toNat, ← hEq]
      calc size ::
              subspan (size :: rest) packetPathLengthSize
                size.toNat ++
            (size :: rest).getD
                (packetPathLengthSize + size.toNat) 0 ::
              (size :: rest).drop
                (packetPathLengthSize + size.toNat +
                  pathExtraTypeSize)
        _ = [size] ++
              subspan (size :: rest) packetPathLengthSize
                size.toNat ++
              [(size :: rest).getD
                (packetPathLengthSize + size.toNat) 0] ++
            (size :: rest).drop
              (packetPathLengthSize + size.toNat +
                pathExtraTypeSize) := by
            rw [List.append_assoc _ [_]]
            rfl
        _ = size :: rest := by
            rw [subspan_one hLong, ← hHead]
            exact subspan_append_drop (size :: rest) _

theorem PathReturn.codec_exact :
    PathReturn.codec.Exact maxPacketPayload :=
  Wire.Codec.exact_of_fill encodePathInto_eq
    encodePath_isSome_iff
    (fun _ _ _ => decodePath_encodePath)
    (fun _ _ hPayload _ =>
      encodePath_of_decodePath hPayload)

------------------------------------------------------------
-- All Of Them
------------------------------------------------------------

/-
  For every kind of payload, what fits is written and read
  back, what is read is written again byte for byte, and the
  rest leaves the buffer as it was.
-/
theorem codecs_are_exact :
    Advert.codec.Exact maxPacketPayload ∧
      TextMsg.codec.Exact maxPacketPayload ∧
      Envelope.codec.Exact maxPacketPayload ∧
      GroupMsg.codec.Exact maxPacketPayload ∧
      Trace.codec.Exact maxPacketPayload ∧
      PathReturn.codec.Exact maxPacketPayload :=
  ⟨Advert.codec_exact, TextMsg.codec_exact,
    Envelope.codec_exact, GroupMsg.codec_exact,
    Trace.codec_exact, PathReturn.codec_exact⟩

/- A text that does not fit leaves the buffer as it was. -/
example :
    encodeTextInto
        { timestamp := 1
          txtType := 64
          attempt := 0
          message := [5] }
        (List.replicate 8 9) =
      (none, List.replicate 8 9) := by
  decide

end MeshCore
