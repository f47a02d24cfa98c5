import MeshCore.Crypto.Core
import MeshCore.Packet.Payload

/-
  What the protocol feeds into the primitives, and in which
  order: the deduplication key, sealing and opening, the
  number an acknowledgement carries.

  Key definitions include:
    * `packetHash`
    * `packetSign`, `packetVerify`
    * `sealPlaintext`
    * `openCiphertext`
    * `expectedAck`
-/

namespace MeshCore

variable [CryptoCore]

/- The cipher key is the head of the secret, taken raw. -/
def cipherKeyFrom (secret : SharedSecret) : CipherKey :=
  copyInto packetCipherKeySize secret.toList

/-
  The deduplication key: the header and the payload. The
  path is left out, since it grows on every hop.
-/
def packetHash (frame : Bytes) : Hash :=
  match parse frame with
  | none => Vector.replicate packetHashSize 0
  | some p => CryptoCore.sha256 (p.header :: p.payload)

/-
  Sign an advert with a private key, by whatever signs. A
  frame that is not an advert gets an empty signature.
-/
def packetSign
    (sign : PrivateKey → Bytes → Signature)
    (sk : PrivateKey)
    (frame : Bytes) :
    Signature :=
  let blank : Signature :=
    Vector.replicate packetSignatureSize 0
  match parse frame with
  | none => blank
  | some p =>
      if p.payloadType ≠ .advert then blank
      else
        match decodeAdvert p.payload with
        | none => blank
        | some advert =>
            match advert.signedMessage maxPacketPayload with
            | none => blank
            | some message => sign sk message

/- Check an advert against the key it carries. -/
def packetVerify (frame : Bytes) : Bool :=
  match parse frame with
  | none => false
  | some p =>
      if p.payloadType ≠ .advert then false
      else
        match decodeAdvert p.payload with
        | none => false
        | some advert =>
            match advert.signedMessage maxPacketPayload with
            | none => false
            | some message =>
                CryptoCore.verify
                  (copyInto packetPublicKeySize
                    advert.publicKey)
                  message
                  (copyInto packetSignatureSize
                    advert.signature)

------------------------------------------------------------
-- Sealing And Opening
------------------------------------------------------------

def truncateMac (full : Hash) : Mac :=
  copyInto packetMacSize full.toList

/- Padding always adds between one byte and one block. -/
def paddedLength (length : Nat) : Nat :=
  length +
    (packetCipherBlockSize - length % packetCipherBlockSize)

structure Sealed where
  mac : Mac
  ciphertext : Bytes
deriving DecidableEq, Repr

/- `seal`: pad, encrypt, authenticate the ciphertext. -/
def sealPlaintext
    (secret : SharedSecret)
    (plaintext : Bytes)
    (capacity : Nat) :
    Option Sealed :=
  let total := paddedLength plaintext.length
  if capacity < total then none
  else
    let pad := total - plaintext.length
    let padded :=
      plaintext ++ List.replicate pad (UInt8.ofNat pad)
    match aesEncrypt (cipherKeyFrom secret) padded total with
    | none => none
    | some ciphertext =>
        some
          { mac :=
              truncateMac
                (CryptoCore.hmacSha256 secret.toList
                  ciphertext)
            ciphertext := ciphertext }

/- The padding that describes itself, if it is consistent. -/
def pkcs7Length (plain : Bytes) : Option Nat :=
  let length := plain.length
  let pad := plain.getLast?.getD 0
  if pad ≠ 0 ∧ pad.toNat ≤ packetCipherBlockSize ∧
      pad.toNat ≤ length then
    if (plain.drop (length - pad.toNat)).all (· == pad) then
      some (length - pad.toNat)
    else none
  else none

/- What is left when the trailing NULs are cut off. -/
def zeroPaddedLength (plain : Bytes) : Nat :=
  (plain.reverse.dropWhile (· == 0)).length

/-
  `open`: the code first, the cipher second, and the padding
  last, which may be either convention.
-/
def openCiphertext
    (secret : SharedSecret)
    (mac : Mac)
    (ciphertext : Bytes)
    (capacity : Nat) :
    Option Bytes :=
  if ciphertext = [] ∨
      ciphertext.length % packetCipherBlockSize ≠ 0 then
    none
  else if capacity < ciphertext.length then none
  else if
      truncateMac
          (CryptoCore.hmacSha256 secret.toList
            ciphertext) ≠
        mac then
    none
  else
    match
      aesDecrypt (cipherKeyFrom secret) ciphertext capacity
    with
    | none => none
    | some out =>
        match pkcs7Length out with
        | some length => some (out.take length)
        | none => some (out.take (zeroPaddedLength out))

------------------------------------------------------------
-- Acknowledgements
------------------------------------------------------------

/-
  The number that acknowledges a plaintext: a hash of it and
  of the key of whoever sent it, cut to four bytes.
-/
def expectedAck
    (plaintext : Bytes)
    (sender : PublicKey) :
    UInt32 :=
  readUint32
    (CryptoCore.sha256 (plaintext ++ sender.toList)).toList 0

end MeshCore
