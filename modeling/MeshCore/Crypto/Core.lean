import MeshCore.Defines

/-
  Cryptographic primitives.

  The primitives belong to libsodium and to the block cipher
  beside it. What they compute is not looked into: every
  result holds for any primitives of these types, and what a
  result needs of them is one of its hypotheses.

  Key definitions include:
    * `CryptoCore`
    * `aesEncrypt`, `aesDecrypt`
    * `Sample.core`
    * `Entropy`, `Entropy.take`
-/

namespace MeshCore

/- The primitives the protocol is built from. -/
class CryptoCore where
  deriveShared :
    PrivateKey → PublicKey → Option SharedSecret
  sha256 : Bytes → Hash
  hmacSha256 : Bytes → Bytes → Hash
  verify : PublicKey → Bytes → Signature → Bool
  encryptBlock : CipherKey → CipherBlock → CipherBlock
  decryptBlock : CipherKey → CipherBlock → CipherBlock

/- Apply a block function to every whole block. -/
def mapBlocks
    (f : CipherBlock → CipherBlock)
    (b : Bytes) :
    Bytes :=
  (List.range (b.length / packetCipherBlockSize)).flatMap
    fun i =>
      (f (copyInto packetCipherBlockSize
        (b.drop (i * packetCipherBlockSize)))).toList

@[simp] theorem length_mapBlocks
    (f : CipherBlock → CipherBlock)
    (b : Bytes) :
    (mapBlocks f b).length =
      b.length / packetCipherBlockSize *
        packetCipherBlockSize := by
  simp [mapBlocks, List.length_flatMap]

section Primitives

variable [CryptoCore]

/- AES-128 in ECB over whole blocks. -/
def aesEncrypt
    (key : CipherKey)
    (input : Bytes)
    (capacity : Nat) :
    Option Bytes :=
  if input.length % packetCipherBlockSize ≠ 0 ∨
      capacity < input.length then
    none
  else
    some (mapBlocks (CryptoCore.encryptBlock key) input)

def aesDecrypt
    (key : CipherKey)
    (input : Bytes)
    (capacity : Nat) :
    Option Bytes :=
  if input.length % packetCipherBlockSize ≠ 0 ∨
      capacity < input.length then
    none
  else
    some (mapBlocks (CryptoCore.decryptBlock key) input)

end Primitives

------------------------------------------------------------
-- A Core To Evaluate With
------------------------------------------------------------

namespace Sample

/-
  A small core, for evaluating the protocol on examples. Its
  digest keeps short inputs apart, its key agreement is
  symmetric, and its cipher leaves blocks as they are.
-/
scoped instance core : CryptoCore :=
  let digest (b : Bytes) : Hash :=
    let n :=
      b.foldl (fun n byte => n * 257 + byte.toNat + 1) 1
    Vector.ofFn fun i => UInt8.ofNat (n / 256 ^ i.val)
  { deriveShared := fun sk pk =>
      some
        (Vector.ofFn fun i =>
          sk.toList.getD (32 + i.val) 0 ^^^
            pk.toList.getD i.val 0)
    sha256 := digest
    hmacSha256 := fun key message => digest (key ++ message)
    verify := fun _ _ _ => true
    encryptBlock := fun _ block => block
    decryptBlock := fun _ block => block }

end Sample

------------------------------------------------------------
-- Randomness
------------------------------------------------------------

/-
  The random source: the bytes it will give, and how many it
  has given. A result for every source is a result for every
  behaviour of the real one.
-/
structure Entropy where
  byte : Nat → UInt8
  used : Nat := 0

/- The next `n` random bytes. -/
def Entropy.take (e : Entropy) (n : Nat) : Bytes × Entropy :=
  ((List.range n).map fun i => e.byte (e.used + i),
    { e with used := e.used + n })

end MeshCore
