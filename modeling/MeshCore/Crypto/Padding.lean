import Mathlib.Data.List.TakeWhile
import MeshCore.Crypto.Sealing

/-
  The other convention: a plaintext that is filled up with
  NULs to whole blocks, and what is left of it when it is
  opened. Nothing marks where the plaintext ends, so its own
  last bytes may be taken for padding.

  Key definitions include:
    * `zeroPadded`, `zeroSealed`
    * `lookalike`, `kept`

  Key facts include:
    * `openCiphertext_zeroSealed`
    * `kept_append`
    * `lookalike_cases`
-/

namespace MeshCore

------------------------------------------------------------
-- Filling Up
------------------------------------------------------------

def zeroPadded (plain : Bytes) : Bytes :=
  plain ++
    List.replicate
      ((packetCipherBlockSize -
          plain.length % packetCipherBlockSize) %
        packetCipherBlockSize)
      0

theorem length_zeroPadded_mod (plain : Bytes) :
    (zeroPadded plain).length % packetCipherBlockSize =
      0 := by
  simp only [zeroPadded, List.length_append,
    List.length_replicate]
  unfold packetCipherBlockSize
  omega

/- How a peer seals that fills its blocks up with NULs. -/
def zeroSealed
    [CryptoCore]
    (secret : SharedSecret)
    (plain : Bytes) :
    Sealed :=
  let ciphertext :=
    mapBlocks
      (CryptoCore.encryptBlock (cipherKeyFrom secret))
      (zeroPadded plain)
  { mac :=
      truncateMac
        (CryptoCore.hmacSha256 secret.toList ciphertext)
    ciphertext := ciphertext }

------------------------------------------------------------
-- What Looks Like Padding
------------------------------------------------------------

def lastByte (plain : Bytes) : UInt8 :=
  plain.getLast?.getD 0

def trailingNuls (plain : Bytes) : Nat :=
  (plain.reverse.takeWhile (· == 0)).length

/-
  How long the tail of a plaintext is that looks like
  padding. Whole blocks may end as if they were padded the
  first way; what does not may end in NULs.
-/
def lookalike (plain : Bytes) : Nat :=
  if plain.length % packetCipherBlockSize = 0 ∧
      (pkcs7Length plain).isSome then
    (lastByte plain).toNat
  else trailingNuls plain

def kept (plain : Bytes) : Bytes :=
  plain.take (plain.length - lookalike plain)

theorem zeroPaddedLength_eq (plain : Bytes) :
    zeroPaddedLength plain =
      plain.length - trailingNuls plain := by
  have hParts :=
    congrArg List.length
      (List.takeWhile_append_dropWhile
        (p := fun b : UInt8 => b == 0) (l := plain.reverse))
  rw [List.length_append, List.length_reverse] at hParts
  unfold zeroPaddedLength trailingNuls
  omega

theorem trailingNuls_append (plain : Bytes) :
    plain.take (plain.length - trailingNuls plain) ++
        List.replicate (trailingNuls plain) 0 =
      plain := by
  have hNuls :
      plain.reverse.takeWhile (· == 0) =
        List.replicate (trailingNuls plain) 0 := by
    apply List.eq_replicate_of_mem
    intro b hb
    simpa using List.mem_takeWhile_imp hb
  have hParts :
      (plain.reverse.dropWhile (· == 0)).reverse ++
          List.replicate (trailingNuls plain) 0 =
        plain := by
    rw [← List.reverse_replicate, ← hNuls,
      ← List.reverse_append, List.takeWhile_append_dropWhile,
      List.reverse_reverse]
  have hLength :
      plain.length - trailingNuls plain =
        (plain.reverse.dropWhile (· == 0)).reverse.length := by
    rw [List.length_reverse, ← zeroPaddedLength_eq]
    rfl
  generalize (plain.reverse.dropWhile (· == 0)).reverse = head
    at hParts hLength
  have hHead :
      plain.take (plain.length - trailingNuls plain) =
        head := by
    rw [hLength, ← hParts]
    exact List.take_left
  rw [hHead, hParts]

theorem pkcs7Length_eq_some
    {plain : Bytes} {n : Nat}
    (hPadded : pkcs7Length plain = some n) :
    (lastByte plain).toNat ≤ packetCipherBlockSize ∧
      (lastByte plain).toNat ≤ plain.length ∧
      n = plain.length - (lastByte plain).toNat ∧
      plain.drop n =
        List.replicate (lastByte plain).toNat
          (lastByte plain) := by
  unfold pkcs7Length at hPadded
  simp only at hPadded
  split_ifs at hPadded with hPad hSame
  rw [← lastByte] at hPad hSame hPadded
  rcases hPad with ⟨-, hBlock, hLong⟩
  have hLength := (Option.some.inj hPadded).symm
  refine ⟨hBlock, hLong, hLength, ?_⟩
  rw [List.eq_replicate_iff, hLength, List.length_drop]
  refine ⟨by omega, ?_⟩
  intro b hb
  simpa using List.all_eq_true.mp hSame b hb

theorem lookalike_le (plain : Bytes) :
    lookalike plain ≤ plain.length := by
  unfold lookalike
  split
  next hPadded =>
    rcases Option.isSome_iff_exists.mp hPadded.2 with
      ⟨n, hn⟩
    exact (pkcs7Length_eq_some hn).2.1
  next =>
    have hLength :=
      congrArg List.length (trailingNuls_append plain)
    rw [List.length_append, List.length_replicate] at hLength
    omega

/- What is cut off is one byte, over and over. -/
theorem kept_append (plain : Bytes) :
    kept plain ++
        List.replicate (lookalike plain) (lastByte plain) =
      plain := by
  unfold kept lookalike
  split
  next hPadded =>
    rcases Option.isSome_iff_exists.mp hPadded.2 with
      ⟨n, hn⟩
    rcases pkcs7Length_eq_some hn with ⟨-, -, hLength, hDrop⟩
    rw [← hLength, ← hDrop, List.take_append_drop]
  next =>
    have hNuls := trailingNuls_append plain
    by_cases hNone : trailingNuls plain = 0
    · rw [hNone] at hNuls ⊢
      exact hNuls
    · have hLast : lastByte plain = 0 := by
        rw [lastByte, ← hNuls, List.getLast?_append,
          List.getLast?_replicate, if_neg hNone]
        rfl
      rw [hLast]
      exact hNuls

theorem length_kept (plain : Bytes) :
    (kept plain).length = plain.length - lookalike plain := by
  rw [kept, List.length_take]
  omega

/- It is NULs, or a whole block's padding by its looks. -/
theorem lookalike_cases (plain : Bytes) :
    lookalike plain = 0 ∨
      lastByte plain = 0 ∨
      (lastByte plain).toNat = lookalike plain ∧
        lookalike plain ≤ packetCipherBlockSize ∧
        plain.length % packetCipherBlockSize = 0 := by
  by_cases hNone : lookalike plain = 0
  · exact .inl hNone
  · right
    unfold lookalike at hNone ⊢
    split
    next hPadded =>
      rcases Option.isSome_iff_exists.mp hPadded.2 with
        ⟨n, hn⟩
      exact .inr ⟨rfl, (pkcs7Length_eq_some hn).1,
        hPadded.1⟩
    next hNot =>
      rw [if_neg hNot] at hNone
      left
      rw [lastByte, ← trailingNuls_append plain,
        List.getLast?_append, List.getLast?_replicate,
        if_neg hNone]
      rfl

------------------------------------------------------------
-- Opening
------------------------------------------------------------

/- Behind NULs nothing looks padded the first way. -/
theorem pkcs7Length_append_nul
    {plain : Bytes} {n : Nat}
    (hSome : n ≠ 0) :
    pkcs7Length (plain ++ List.replicate n 0) = none := by
  have hLast :
      (plain ++ List.replicate n (0 : UInt8)).getLast?.getD
          0 =
        0 := by
    rw [List.getLast?_append, List.getLast?_replicate,
      if_neg hSome]
    rfl
  unfold pkcs7Length
  simp only [hLast]
  exact if_neg fun hPad => hPad.1 rfl

theorem trailingNuls_append_nul (plain : Bytes) (n : Nat) :
    trailingNuls (plain ++ List.replicate n 0) =
      trailingNuls plain + n := by
  unfold trailingNuls
  rw [List.reverse_append, List.reverse_replicate,
    List.takeWhile_append_of_pos (by simp),
    List.length_append, List.length_replicate, Nat.add_comm]

/- What is left when the padding is taken off again. -/
theorem unpadded_zeroPadded (plain : Bytes) :
    unpadded (zeroPadded plain) = kept plain := by
  by_cases hWhole :
      plain.length % packetCipherBlockSize = 0
  · have hSame : zeroPadded plain = plain := by
      rw [zeroPadded, hWhole, Nat.sub_zero, Nat.mod_self,
        List.replicate_zero, List.append_nil]
    rw [hSame, unpadded, kept, lookalike]
    cases hPadded : pkcs7Length plain with
    | none =>
        rw [if_neg (by simp), zeroPaddedLength_eq]
    | some n =>
        rw [if_pos ⟨hWhole, rfl⟩,
          (pkcs7Length_eq_some hPadded).2.2.1]
  · have hFill :
        (packetCipherBlockSize -
              plain.length % packetCipherBlockSize) %
            packetCipherBlockSize ≠
          0 := by
      unfold packetCipherBlockSize at hWhole ⊢
      omega
    have hTail : lookalike plain = trailingNuls plain :=
      if_neg fun h => hWhole h.1
    rw [unpadded, zeroPadded, pkcs7Length_append_nul hFill,
      kept, hTail]
    simp only
    rw [zeroPaddedLength_eq, trailingNuls_append_nul,
      List.length_append, List.length_replicate,
      Nat.add_sub_add_right,
      List.take_append_of_le_length (Nat.sub_le _ _)]

theorem openCiphertext_zeroSealed
    [CryptoCore]
    (hCipher : Deciphers)
    (secret : SharedSecret)
    {plain : Bytes}
    (hSome : plain ≠ []) :
    openCiphertext secret (zeroSealed secret plain).mac
        (zeroSealed secret plain).ciphertext
        (zeroSealed secret plain).ciphertext.length =
      some (kept plain) := by
  have hPadded : zeroPadded plain ≠ [] := by
    intro hNil
    exact hSome (List.append_eq_nil_iff.mp hNil).1
  rw [← unpadded_zeroPadded]
  exact openCiphertext_mapBlocks hCipher secret hPadded
    (length_zeroPadded_mod plain)

end MeshCore
