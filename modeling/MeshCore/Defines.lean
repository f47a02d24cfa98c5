import Mathlib.Algebra.Group.Int.Defs
import Mathlib.Algebra.Group.Nat.Defs
import Mathlib.Data.List.Basic

/-
  Bytes, keys and the limits every module shares.

  A buffer is the list of its bytes. Key material of a fixed
  length is a vector, so a key of another length cannot be
  built. Numbers keep the width the code gives them.

  Key definitions include:
    * `Bytes`
    * `PublicKey`
    * `readUint32`
    * `writeUint32`
    * `copyInto`
-/

namespace MeshCore

/- A run of bytes: a view, a span or a buffer. -/
abbrev Bytes :=
  List UInt8

abbrev Millis :=
  UInt64

abbrev SendId :=
  UInt32

------------------------------------------------------------
-- Limits
------------------------------------------------------------

def maxPacketFrame : Nat := 255
def maxPathSize : Nat := 64
def maxPacketPayload : Nat := 184
def maxHopCount : Nat := 63
def maxHashSize : Nat := 3
def nodeHashSize : Nat := 1

def packetHeaderSize : Nat := 1
def packetPathLengthSize : Nat := 1
def packetTransportCodesSize : Nat := 4
def packetTimestampSize : Nat := 4

def packetHashSize : Nat := 32
def packetPublicKeySize : Nat := 32
def packetPrivateKeySize : Nat := 64
def packetSignatureSize : Nat := 64
def packetSharedSecretSize : Nat := 32
def packetMacSize : Nat := 2
def packetCipherKeySize : Nat := 16
def packetCipherBlockSize : Nat := 16

def advertPayloadSize : Nat :=
  packetPublicKeySize + packetTimestampSize +
    packetSignatureSize

def textMsgPrefixSize : Nat := packetTimestampSize + 1

def anonReqPrefixSize : Nat :=
  nodeHashSize + packetPublicKeySize + packetMacSize

def pathExtraTypeSize : Nat := 1

def envelopePrefixSize : Nat :=
  nodeHashSize * 2 + packetMacSize

def tracePrefixSize : Nat := 4 + 4 + 1

def groupPrefixSize : Nat :=
  nodeHashSize + packetMacSize

def loginResponseNonceSize : Nat := 4

def advertTypeMask : UInt8 := 0x0F
def advertHasLocation : UInt8 := 0x10
def advertHasFeature1 : UInt8 := 0x20
def advertHasFeature2 : UInt8 := 0x40
def advertHasName : UInt8 := 0x80
def advertLocationSize : Nat := 8
def advertFeatureSize : Nat := 2

def maxContacts : Nat := 512
def maxContactName : Nat := 64
def maxSecretCache : Nat := 256
def contactsFormatVersion : UInt8 := 2
def contactsFormatMinVersion : UInt8 := 1
def maxLoggedInCandidates : Nat := 8

def maxPosts : Nat := 32
def maxPostText : Nat := 151
def postAuthorPrefix : Nat := 4
def maxRoomClients : Nat := 64
def roomFormatVersion : UInt8 := 2
def roomFormatMinVersion : UInt8 := 1
def maxPassword : Nat := 32
def maxPostAuthorName : Nat := 16
def maxPushBody : Nat := 170
def maxLoginFailures : Nat := 32
def maxNodeName : Nat := 32
def maxCliReply : Nat := 160

def repeaterSourceBuckets : Nat := 257
def repeaterDirectBucket : Nat := 256
def repeaterRateWindowMs : Millis := 60000

def loginRequestPrefixSize : Nat := 8
def requestPrefixSize : Nat := 5
def keepAliveAckBytes : Nat := 9

------------------------------------------------------------
-- Key Material
------------------------------------------------------------

abbrev PublicKey := Vector UInt8 packetPublicKeySize
abbrev PrivateKey := Vector UInt8 packetPrivateKeySize
abbrev Signature := Vector UInt8 packetSignatureSize
abbrev SharedSecret := Vector UInt8 packetSharedSecretSize
abbrev CipherKey := Vector UInt8 packetCipherKeySize
abbrev CipherBlock := Vector UInt8 packetCipherBlockSize
abbrev Hash := Vector UInt8 packetHashSize
abbrev Mac := Vector UInt8 packetMacSize

/- The byte a node goes by on the air. -/
def PublicKey.hash (pk : PublicKey) : UInt8 :=
  pk.toList.getD 0 0

/- Copy the head of a buffer into a zeroed array. -/
def copyInto (n : Nat) (b : Bytes) : Vector UInt8 n :=
  ⟨((b ++ List.replicate n 0).take n).toArray, by simp⟩

@[simp] theorem toList_copyInto (n : Nat) (b : Bytes) :
    (copyInto n b).toList =
      (b ++ List.replicate n 0).take n := by
  simp [copyInto, Vector.toList]

/- A buffer of the right length is copied unchanged. -/
theorem toList_copyInto_of_length
    {n : Nat} {b : Bytes}
    (hLength : b.length = n) :
    (copyInto n b).toList = b := by
  rw [toList_copyInto, List.take_append_of_le_length
    (by omega), ← hLength, List.take_length]

theorem copyInto_toList
    {n : Nat} (v : Vector UInt8 n) :
    copyInto n v.toList = v := by
  apply Vector.toList_inj.mp
  exact toList_copyInto_of_length v.length_toList

/- The head of a buffer fills an array of its length. -/
theorem copyInto_append
    {n : Nat} {block : Bytes}
    (hBlock : block.length = n)
    (rest : Bytes) :
    copyInto n (block ++ rest) = copyInto n block := by
  apply Vector.toList_inj.mp
  rw [toList_copyInto, toList_copyInto, List.append_assoc,
    ← hBlock, List.take_left, List.take_left]

theorem copyInto_toList_append
    {n : Nat}
    (v : Vector UInt8 n)
    (rest : Bytes) :
    copyInto n (v.toList ++ rest) = v := by
  rw [copyInto_append v.length_toList, copyInto_toList]

theorem drop_toList
    {n : Nat}
    (v : Vector UInt8 n)
    (rest : Bytes) :
    (v.toList ++ rest).drop n = rest :=
  List.drop_left' v.length_toList

/- Every byte, tried one by one. -/
theorem forall_byte
    {P : UInt8 → Prop}
    (hAll : ∀ i : Fin 256, P (UInt8.ofNat i)) :
    ∀ b, P b := by
  intro b
  have hThis := hAll ⟨b.toNat, b.toNat_lt⟩
  simpa using hThis

------------------------------------------------------------
-- Little-Endian Numbers
------------------------------------------------------------

/- Four bytes at an offset, least significant first. -/
def readUint32 (b : Bytes) (offset : Nat) : UInt32 :=
  (b.getD offset 0).toUInt32 |||
    ((b.getD (offset + 1) 0).toUInt32 <<< 8) |||
    ((b.getD (offset + 2) 0).toUInt32 <<< 16) |||
    ((b.getD (offset + 3) 0).toUInt32 <<< 24)

/- The four bytes of a number, least significant first. -/
def writeUint32 (value : UInt32) : Bytes :=
  [value.toUInt8, (value >>> 8).toUInt8,
    (value >>> 16).toUInt8, (value >>> 24).toUInt8]

@[simp] theorem length_writeUint32 (value : UInt32) :
    (writeUint32 value).length = 4 :=
  rfl

theorem drop_writeUint32 (value : UInt32) (rest : Bytes) :
    (writeUint32 value ++ rest).drop 4 = rest :=
  rfl

/- Reading back what was written, whatever follows it. -/
theorem readUint32_writeUint32
    (value : UInt32) (rest : Bytes) :
    readUint32 (writeUint32 value ++ rest) 0 = value := by
  simp only [readUint32, writeUint32, List.cons_append,
    List.nil_append, List.getD_cons_zero,
    List.getD_cons_succ]
  apply UInt32.eq_of_toBitVec_eq
  apply BitVec.eq_of_getLsbD_eq
  intro i hi
  simp only [UInt32.toBitVec_or,
    UInt32.toBitVec_shiftLeft, UInt8.toBitVec_toUInt32,
    UInt32.toBitVec_toUInt8, UInt32.toBitVec_shiftRight,
    BitVec.getLsbD_or]
  -- bit `i` comes from byte `i / 8`, and from no other
  rcases (by omega :
      i < 8 ∨ (8 ≤ i ∧ i < 16) ∨
        (16 ≤ i ∧ i < 24) ∨ 24 ≤ i) with
    h | h | h | h
  · simp [hi, h, show i < 16 by omega,
      show i < 24 by omega]
  · simp [hi, h, show ¬ i < 8 by omega,
      show i < 24 by omega, show i - 8 < 8 by omega,
      show i - 8 < 32 by omega,
      show 8 + (i - 8) = i by omega]
  · simp [hi, h, show ¬ i < 8 by omega,
      show ¬ i < 16 by omega, show ¬ i - 8 < 8 by omega,
      show i - 16 < 8 by omega,
      show i - 16 < 32 by omega,
      show 16 + (i - 16) = i by omega]
  · simp [hi, show ¬ i < 8 by omega,
      show ¬ i < 16 by omega, show ¬ i < 24 by omega,
      show ¬ i - 8 < 8 by omega,
      show ¬ i - 16 < 8 by omega,
      show i - 24 < 8 by omega,
      show i - 24 < 32 by omega,
      show 24 + (i - 24) = i by omega]

------------------------------------------------------------
-- Text
------------------------------------------------------------

/- The bytes of a text that the source spells out. -/
def ascii (s : String) : Bytes :=
  s.toList.map fun c => UInt8.ofNat c.toNat

/- The decimal digits of a number, as `%u` prints them. -/
def decimal (n : Nat) : Bytes :=
  (Nat.toDigits 10 n).map fun c => UInt8.ofNat c.toNat

/- `%02u`. -/
def decimalPadded (n : Nat) : Bytes :=
  if n < 10 then ascii "0" ++ decimal n else decimal n

/- `%d`. -/
def decimalSigned (n : Int) : Bytes :=
  if n < 0 then ascii "-" ++ decimal n.natAbs
  else decimal n.toNat

/- `%02x`. -/
def hexByte (b : UInt8) : Bytes :=
  [b.toNat / 16, b.toNat % 16].map fun d =>
    UInt8.ofNat (Nat.digitChar d).toNat

/- What `%s` prints of a text: up to the first NUL. -/
def cString (b : Bytes) : Bytes :=
  b.takeWhile (· ≠ 0)

end MeshCore
