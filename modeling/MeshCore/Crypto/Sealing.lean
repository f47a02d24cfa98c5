import MeshCore.Crypto.Protocol

/-
  What is sealed can be opened: the round trip that delivery
  to a peer rests on.

  Key definitions include:
    * `Deciphers`
    * `unpadded`

  Key facts include:
    * `mapBlocks_mapBlocks`
    * `pkcs7Length_padded`
    * `openCiphertext_mapBlocks`
    * `openCiphertext_sealPlaintext`
    * `opening_undoes_sealing`
-/

namespace MeshCore

------------------------------------------------------------
-- Blocks
------------------------------------------------------------

/- The first block is mapped by itself. -/
theorem mapBlocks_append
    (f : CipherBlock → CipherBlock)
    {block : Bytes}
    (hBlock : block.length = packetCipherBlockSize)
    (rest : Bytes) :
    mapBlocks f (block ++ rest) =
      (f (copyInto packetCipherBlockSize block)).toList ++
        mapBlocks f rest := by
  have hCount :
      (block ++ rest).length / packetCipherBlockSize =
        rest.length / packetCipherBlockSize + 1 := by
    rw [List.length_append, hBlock, Nat.add_comm,
      Nat.add_div_right _ (by decide)]
  unfold mapBlocks
  rw [hCount, List.range_succ_eq_map, List.flatMap_cons,
    List.flatMap_map]
  congr 1
  · rw [Nat.zero_mul, List.drop_zero,
      copyInto_append hBlock]
  · apply List.flatMap_congr
    intro i _
    rw [Nat.succ_mul, Nat.add_comm, ← List.drop_drop,
      List.drop_left' hBlock]

/- Where one function undoes another, so do their maps. -/
theorem mapBlocks_mapBlocks
    {f g : CipherBlock → CipherBlock}
    (hUndo : ∀ block, g (f block) = block)
    (n : Nat)
    {b : Bytes}
    (hLength : b.length = n * packetCipherBlockSize) :
    mapBlocks g (mapBlocks f b) = b := by
  induction n generalizing b with
  | zero =>
      rw [Nat.zero_mul, List.length_eq_zero_iff] at hLength
      rw [hLength]
      simp [mapBlocks]
  | succ n ih =>
      rw [Nat.succ_mul] at hLength
      have hHead :
          (b.take packetCipherBlockSize).length =
            packetCipherBlockSize := by
        rw [List.length_take]
        omega
      have hTail :
          (b.drop packetCipherBlockSize).length =
            n * packetCipherBlockSize := by
        rw [List.length_drop]
        omega
      rw [← List.take_append_drop packetCipherBlockSize b,
        mapBlocks_append f hHead,
        mapBlocks_append g (by simp), copyInto_toList,
        hUndo, ih hTail, toList_copyInto_of_length hHead]

------------------------------------------------------------
-- Padding
------------------------------------------------------------

/- Between one byte and one block is added. -/
theorem paddedLength_bounds (length : Nat) :
    0 < paddedLength length - length ∧
      paddedLength length - length ≤
        packetCipherBlockSize ∧
      length ≤ paddedLength length := by
  have hRest :
      length % packetCipherBlockSize <
        packetCipherBlockSize :=
    Nat.mod_lt _ (by decide)
  unfold paddedLength
  omega

theorem paddedLength_mod (length : Nat) :
    paddedLength length % packetCipherBlockSize = 0 := by
  unfold paddedLength packetCipherBlockSize
  omega

/- A plaintext with its padding behind it. -/
def padded (plaintext : Bytes) : Bytes :=
  let pad := paddedLength plaintext.length - plaintext.length
  plaintext ++ List.replicate pad (UInt8.ofNat pad)

theorem length_padded (plaintext : Bytes) :
    (padded plaintext).length =
      paddedLength plaintext.length := by
  have hBounds := paddedLength_bounds plaintext.length
  rw [padded, List.length_append, List.length_replicate]
  omega

/- Padding that was put there is recognised. -/
theorem pkcs7Length_padded (plaintext : Bytes) :
    pkcs7Length (padded plaintext) =
      some plaintext.length := by
  rcases paddedLength_bounds plaintext.length with
    ⟨hPos, hPad, -⟩
  unfold padded
  generalize
    paddedLength plaintext.length - plaintext.length = pad
      at hPos hPad
  have hByte : (UInt8.ofNat pad).toNat = pad := by
    unfold packetCipherBlockSize at hPad
    rw [UInt8.toNat_ofNat']
    omega
  have hLast :
      (plaintext ++
          List.replicate pad
            (UInt8.ofNat pad)).getLast?.getD 0 =
        UInt8.ofNat pad := by
    rw [List.getLast?_append, List.getLast?_replicate,
      if_neg (by omega)]
    rfl
  have hNonzero : UInt8.ofNat pad ≠ 0 := by
    intro hZero
    rw [hZero, UInt8.toNat_zero] at hByte
    omega
  unfold pkcs7Length
  simp only [hLast, hByte, List.length_append,
    List.length_replicate, Nat.add_sub_cancel]
  rw [if_pos ⟨hNonzero, hPad, by omega⟩, List.drop_left,
    if_pos (by simp)]

------------------------------------------------------------
-- Sealing And Opening
------------------------------------------------------------

section Sealing

variable [CryptoCore]

/- Deciphering a block undoes enciphering it. -/
def Deciphers : Prop :=
  ∀ key block,
    CryptoCore.decryptBlock key
        (CryptoCore.encryptBlock key block) =
      block

/- Whatever fits with its padding is sealed. -/
theorem sealPlaintext_eq
    (secret : SharedSecret)
    (plaintext : Bytes)
    (capacity : Nat) :
    sealPlaintext secret plaintext capacity =
      if capacity < paddedLength plaintext.length then none
      else
        let ciphertext :=
          mapBlocks
            (CryptoCore.encryptBlock (cipherKeyFrom secret))
            (padded plaintext)
        some
          { mac :=
              truncateMac
                (CryptoCore.hmacSha256 secret.toList
                  ciphertext)
            ciphertext := ciphertext } := by
  have hLength := length_padded plaintext
  have hMod := paddedLength_mod plaintext.length
  have hEncrypted :
      aesEncrypt (cipherKeyFrom secret) (padded plaintext)
          (paddedLength plaintext.length) =
        some
          (mapBlocks
            (CryptoCore.encryptBlock (cipherKeyFrom secret))
            (padded plaintext)) := by
    rw [aesEncrypt, hLength, if_neg (by omega)]
  unfold padded at hEncrypted ⊢
  simp only [sealPlaintext, hEncrypted]

theorem length_ciphertext
    {secret : SharedSecret} {plaintext : Bytes}
    {capacity : Nat} {sealing : Sealed}
    (hSealed :
      sealPlaintext secret plaintext capacity =
        some sealing) :
    sealing.ciphertext.length =
      paddedLength plaintext.length := by
  rw [sealPlaintext_eq] at hSealed
  split_ifs at hSealed with hRoom
  injection hSealed with hEq
  have hMod := paddedLength_mod plaintext.length
  rw [← hEq, length_mapBlocks, length_padded]
  exact Nat.div_mul_cancel (Nat.dvd_of_mod_eq_zero hMod)

/- A plaintext without its padding, of either kind. -/
def unpadded (plain : Bytes) : Bytes :=
  match pkcs7Length plain with
  | some length => plain.take length
  | none => plain.take (zeroPaddedLength plain)

/- Whole blocks come out as they went in, but unpadded. -/
theorem openCiphertext_mapBlocks
    (hCipher : Deciphers)
    (secret : SharedSecret)
    {blocks : Bytes}
    (hSome : blocks ≠ [])
    (hWhole : blocks.length % packetCipherBlockSize = 0) :
    let ciphertext :=
      mapBlocks
        (CryptoCore.encryptBlock (cipherKeyFrom secret))
        blocks
    openCiphertext secret
        (truncateMac
          (CryptoCore.hmacSha256 secret.toList ciphertext))
        ciphertext ciphertext.length =
      some (unpadded blocks) := by
  intro ciphertext
  have hCount :
      blocks.length / packetCipherBlockSize *
          packetCipherBlockSize =
        blocks.length :=
    Nat.div_mul_cancel (Nat.dvd_of_mod_eq_zero hWhole)
  have hLength : ciphertext.length = blocks.length :=
    (length_mapBlocks _ blocks).trans hCount
  have hNotEmpty : ciphertext ≠ [] := by
    intro hNil
    rw [hNil, List.length_nil] at hLength
    exact hSome (List.length_eq_zero_iff.mp hLength.symm)
  have hDecrypted :
      aesDecrypt (cipherKeyFrom secret) ciphertext
          ciphertext.length =
        some blocks := by
    rw [aesDecrypt, hLength,
      if_neg (by simp [hWhole]),
      mapBlocks_mapBlocks (hCipher _)
        (blocks.length / packetCipherBlockSize)
        hCount.symm]
  unfold openCiphertext
  rw [if_neg (by simp [hNotEmpty, hLength, hWhole]),
    if_neg (Nat.lt_irrefl _), if_neg (not_not.mpr rfl),
    hDecrypted]
  unfold unpadded
  simp only
  cases pkcs7Length blocks <;> rfl

/- What was sealed under a secret is opened by it. -/
theorem openCiphertext_sealPlaintext
    (hCipher : Deciphers)
    {secret : SharedSecret} {plaintext : Bytes}
    {capacity : Nat} {sealing : Sealed}
    (hSealed :
      sealPlaintext secret plaintext capacity =
        some sealing) :
    openCiphertext secret sealing.mac sealing.ciphertext
        sealing.ciphertext.length =
      some plaintext := by
  have hLength := length_padded plaintext
  have hMod := paddedLength_mod plaintext.length
  have hBounds := paddedLength_bounds plaintext.length
  have hSome : padded plaintext ≠ [] := by
    intro hNil
    rw [hNil, List.length_nil] at hLength
    omega
  have hUnpadded : unpadded (padded plaintext) = plaintext := by
    rw [unpadded, pkcs7Length_padded]
    exact List.take_left
  rw [sealPlaintext_eq] at hSealed
  split_ifs at hSealed with hRoom
  rw [← Option.some.inj hSealed]
  have hOpened :=
    openCiphertext_mapBlocks hCipher secret hSome
      (by rw [hLength, hMod])
  rw [hUnpadded] at hOpened
  exact hOpened

/- More room than the ciphertext needs makes no difference. -/
theorem openCiphertext_of_le
    {ciphertext : Bytes} {capacity : Nat}
    (hRoom : ciphertext.length ≤ capacity)
    (secret : SharedSecret)
    (mac : Mac) :
    openCiphertext secret mac ciphertext capacity =
      openCiphertext secret mac ciphertext
        ciphertext.length := by
  unfold openCiphertext aesDecrypt
  simp only [Nat.not_lt.mpr hRoom, Nat.lt_irrefl]

/-
  Opening undoes sealing to the byte, whatever the plaintext
  ends in, so that both ends expect the same acknowledgement.
-/
theorem opening_undoes_sealing
    (hCipher : Deciphers)
    (secret : SharedSecret)
    {plaintext : Bytes} {capacity : Nat}
    (hRoom : paddedLength plaintext.length ≤ capacity) :
    ∃ sealing,
      sealPlaintext secret plaintext capacity =
          some sealing ∧
        ∀ room,
          sealing.ciphertext.length ≤ room →
            ∃ opened,
              openCiphertext secret sealing.mac
                  sealing.ciphertext room =
                some opened ∧
              opened = plaintext ∧
              ∀ sender,
                expectedAck opened sender =
                  expectedAck plaintext sender := by
  have hSeal := sealPlaintext_eq secret plaintext capacity
  rw [if_neg (Nat.not_lt.mpr hRoom)] at hSeal
  refine ⟨_, hSeal, ?_⟩
  intro room hOpenRoom
  refine ⟨plaintext, ?_, rfl, fun _ => rfl⟩
  rw [openCiphertext_of_le hOpenRoom]
  exact openCiphertext_sealPlaintext hCipher hSeal

end Sealing

section Example

open Sample

/- A plaintext of one block that looks like its padding. -/
theorem padding_lookalike_is_opened :
    ∃ sealing,
      sealPlaintext (Vector.replicate _ 7)
            (List.replicate 16 0x10) 32 =
          some sealing ∧
        ∀ room,
          sealing.ciphertext.length ≤ room →
            ∃ opened,
              openCiphertext (Vector.replicate _ 7)
                  sealing.mac sealing.ciphertext room =
                some opened ∧
              opened = List.replicate 16 0x10 ∧
              ∀ sender,
                expectedAck opened sender =
                  expectedAck (List.replicate 16 0x10)
                    sender :=
  opening_undoes_sealing (fun _ _ => rfl)
    (Vector.replicate _ 7) (by decide)

end Example

end MeshCore
