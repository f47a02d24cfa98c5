import MeshCore.Crypto.Sealing
import MeshCore.Library.Fips197
import MeshCore.Library.Loop

/-
  The block cipher beside libsodium, which has a table for
  the S-box, one derived from it for its inverse, and a
  folded multiplication by the matrix of the columns. It is
  the cipher of the standard, and it can be undone.

  Key definitions include:
    * `SBOX`, `InvSbox`
    * `aes128Init`
    * `aes128EncryptBlock`, `aes128DecryptBlock`

  Key facts include:
    * `sboxAt_eq`, `gmul_eq`
    * `stateOf_shiftRows`, `stateOf_mixColumns`
    * `expanded_aes128Init`
    * `aes128_is_the_standard`
    * `deciphers_withAes128`
-/

namespace MeshCore

namespace Aes128

open Fips197 (mul stateOf keyWord)

/- The state is column-major: `c * 4 + r` is row `r`. -/
abbrev Block := Vector UInt8 16

/- The eleven round keys, one after another. -/
abbrev RoundKeys := Vector UInt8 176

structure Aes128Ctx where
  roundKeys : RoundKeys

------------------------------------------------------------
-- The Tables
------------------------------------------------------------

set_option maxRecDepth 4000 in
def SBOX : Vector UInt8 256 := #v[
    0x63, 0x7c, 0x77, 0x7b, 0xf2, 0x6b, 0x6f, 0xc5,
    0x30, 0x01, 0x67, 0x2b, 0xfe, 0xd7, 0xab, 0x76,
    0xca, 0x82, 0xc9, 0x7d, 0xfa, 0x59, 0x47, 0xf0,
    0xad, 0xd4, 0xa2, 0xaf, 0x9c, 0xa4, 0x72, 0xc0,
    0xb7, 0xfd, 0x93, 0x26, 0x36, 0x3f, 0xf7, 0xcc,
    0x34, 0xa5, 0xe5, 0xf1, 0x71, 0xd8, 0x31, 0x15,
    0x04, 0xc7, 0x23, 0xc3, 0x18, 0x96, 0x05, 0x9a,
    0x07, 0x12, 0x80, 0xe2, 0xeb, 0x27, 0xb2, 0x75,
    0x09, 0x83, 0x2c, 0x1a, 0x1b, 0x6e, 0x5a, 0xa0,
    0x52, 0x3b, 0xd6, 0xb3, 0x29, 0xe3, 0x2f, 0x84,
    0x53, 0xd1, 0x00, 0xed, 0x20, 0xfc, 0xb1, 0x5b,
    0x6a, 0xcb, 0xbe, 0x39, 0x4a, 0x4c, 0x58, 0xcf,
    0xd0, 0xef, 0xaa, 0xfb, 0x43, 0x4d, 0x33, 0x85,
    0x45, 0xf9, 0x02, 0x7f, 0x50, 0x3c, 0x9f, 0xa8,
    0x51, 0xa3, 0x40, 0x8f, 0x92, 0x9d, 0x38, 0xf5,
    0xbc, 0xb6, 0xda, 0x21, 0x10, 0xff, 0xf3, 0xd2,
    0xcd, 0x0c, 0x13, 0xec, 0x5f, 0x97, 0x44, 0x17,
    0xc4, 0xa7, 0x7e, 0x3d, 0x64, 0x5d, 0x19, 0x73,
    0x60, 0x81, 0x4f, 0xdc, 0x22, 0x2a, 0x90, 0x88,
    0x46, 0xee, 0xb8, 0x14, 0xde, 0x5e, 0x0b, 0xdb,
    0xe0, 0x32, 0x3a, 0x0a, 0x49, 0x06, 0x24, 0x5c,
    0xc2, 0xd3, 0xac, 0x62, 0x91, 0x95, 0xe4, 0x79,
    0xe7, 0xc8, 0x37, 0x6d, 0x8d, 0xd5, 0x4e, 0xa9,
    0x6c, 0x56, 0xf4, 0xea, 0x65, 0x7a, 0xae, 0x08,
    0xba, 0x78, 0x25, 0x2e, 0x1c, 0xa6, 0xb4, 0xc6,
    0xe8, 0xdd, 0x74, 0x1f, 0x4b, 0xbd, 0x8b, 0x8a,
    0x70, 0x3e, 0xb5, 0x66, 0x48, 0x03, 0xf6, 0x0e,
    0x61, 0x35, 0x57, 0xb9, 0x86, 0xc1, 0x1d, 0x9e,
    0xe1, 0xf8, 0x98, 0x11, 0x69, 0xd9, 0x8e, 0x94,
    0x9b, 0x1e, 0x87, 0xe9, 0xce, 0x55, 0x28, 0xdf,
    0x8c, 0xa1, 0x89, 0x0d, 0xbf, 0xe6, 0x42, 0x68,
    0x41, 0x99, 0x2d, 0x0f, 0xb0, 0x54, 0xbb, 0x16]

/- The S-box of a byte. -/
def sboxAt (b : UInt8) : UInt8 :=
  SBOX.get b.toFin

def RCON : Vector UInt8 10 :=
  ⟨#[0x01, 0x02, 0x04, 0x08, 0x10, 0x20, 0x40, 0x80, 0x1b,
    0x36], rfl⟩

/- What the affine map is undone to is the inverse. -/
theorem mul_unaffine_sboxAt
    {b : UInt8}
    (hOther : b ≠ 0) :
    mul b (Fips197.unaffine (sboxAt b)) = 1 := by
  revert b
  apply forall_byte
  decide +kernel

theorem unaffine_sboxAt_zero :
    Fips197.unaffine (sboxAt 0) = 0 := by
  decide +kernel

/- The table is the S-box of the standard. -/
theorem sboxAt_eq (b : UInt8) :
    sboxAt b = Fips197.sbox b := by
  by_cases hZero : b = 0
  · have hUndone := Fips197.affine_unaffine (sboxAt 0)
    rw [unaffine_sboxAt_zero] at hUndone
    rw [hZero, Fips197.sbox, Fips197.inv_zero, hUndone]
  · exact (Fips197.sbox_eq (mul_unaffine_sboxAt hZero)).symm

/- No two bytes have one S-box. -/
theorem sboxAt_injective
    (a b : UInt8)
    (hSame : sboxAt a = sboxAt b) :
    a = b := by
  have hNotZero :
      ∀ a b, sboxAt a = sboxAt b → a ≠ 0 → b ≠ 0 := by
    rintro a b hSame hA rfl
    have hOne := mul_unaffine_sboxAt hA
    rw [hSame, unaffine_sboxAt_zero,
      Fips197.mul_zero_byte] at hOne
    contradiction
  by_cases hA : a = 0
  · by_contra hOther
    have hB : b ≠ 0 := fun hZero =>
      hOther (hA.trans hZero.symm)
    exact hNotZero b a hSame.symm hB hA
  · have hB := hNotZero a b hSame hA
    have hOneA := mul_unaffine_sboxAt hA
    have hOneB := mul_unaffine_sboxAt hB
    rw [hSame] at hOneA
    rw [Fips197.mul_exchange] at hOneA hOneB
    exact Fips197.eq_of_mul_eq_one hOneA hOneB

/-
  The inverse table, and whether it is made: where it is, it
  is the inverse.
-/
structure InvSbox where
  INV_SBOX : Vector UInt8 256
  ready : Bool
  hReady :
    ready = true → ∀ b, INV_SBOX.get (sboxAt b).toFin = b

/- As the program starts. -/
def InvSbox.start : InvSbox :=
  { INV_SBOX := Vector.replicate 256 0
    ready := false
    hReady := Bool.noConfusion }

def invertSbox (table : Vector UInt8 256) :
    Vector UInt8 256 :=
  Loop.scatter (fun i : Fin 256 => (SBOX.get i).toFin)
    (fun i => UInt8.ofNat i.val) (List.finRange 256) table

theorem get_invertSbox
    (table : Vector UInt8 256)
    (b : UInt8) :
    (invertSbox table).get (sboxAt b).toFin = b := by
  have hPlace :
      ∀ i j : Fin 256,
        (SBOX.get i).toFin = (SBOX.get j).toFin → i = j := by
    intro i j hSame
    have hBytes :
        sboxAt (UInt8.ofFin i) = sboxAt (UInt8.ofFin j) :=
      UInt8.toFin_inj.mp hSame
    exact congrArg UInt8.toFin
      (sboxAt_injective _ _ hBytes)
  have hThere :=
    Loop.get_scatter hPlace
      (fun i => UInt8.ofNat i.val)
      (List.mem_finRange b.toFin) table
  exact hThere.trans UInt8.ofNat_toNat

def buildInvSbox (inverse : InvSbox) : InvSbox :=
  if inverse.ready then inverse
  else
    { INV_SBOX := invertSbox inverse.INV_SBOX
      ready := true
      hReady := fun _ => get_invertSbox inverse.INV_SBOX }

------------------------------------------------------------
-- Products
------------------------------------------------------------

/- Multiply by `x`, modulo the polynomial. -/
def xtime (b : UInt8) : UInt8 :=
  (b <<< 1) ^^^ ((b >>> 7) * 0x1b)

/- Its loop: the sum, the one factor, and the other. -/
def gmulTurn (s : UInt8 × UInt8 × UInt8) :
    UInt8 × UInt8 × UInt8 :=
  let (result, a, b) := s
  let result :=
    if b &&& 1 ≠ 0 then result ^^^ a else result
  (result, xtime a, b >>> 1)

def gmul (a b : UInt8) : UInt8 :=
  (Loop.count 8 (fun s _ => gmulTurn s) (0, a, b)).1

theorem mul_two (a : UInt8) : mul 0x02 a = xtime a := by
  revert a
  apply forall_byte
  decide +kernel

/- The product, by the lowest bit and by those above it. -/
theorem mul_halved (a b : UInt8) :
    mul a b =
      (if b &&& 1 ≠ 0 then a else 0) ^^^
        mul (xtime a) (b >>> 1) := by
  have hBits :
      ∀ b : UInt8,
        (b &&& (1 : UInt8)) ^^^ xtime (b >>> 1) = b := by
    apply forall_byte
    decide +kernel
  have hLow : ∀ b : UInt8, b &&& 1 = 0 ∨ b &&& 1 = 1 := by
    apply forall_byte
    decide +kernel
  have hHigh :
      mul a (xtime (b >>> 1)) =
        mul (xtime a) (b >>> 1) := by
    rw [← mul_two, ← mul_two, ← Fips197.mul_regroup,
      Fips197.mul_exchange a]
  have hBit :
      mul a (b &&& 1) =
        if b &&& 1 ≠ 0 then a else 0 := by
    rcases hLow b with h | h
    · rw [h, Fips197.mul_zero_byte]
      rfl
    · rw [h, Fips197.mul_one_byte]
      rfl
  calc
    mul a b =
        mul a
          ((b &&& (1 : UInt8)) ^^^ xtime (b >>> 1)) := by
      rw [hBits]
    _ = _ := by
      rw [Fips197.mul_xor, hBit, hHigh]

/- A turn moves a part of the product into the sum. -/
theorem gmulTurn_sum (s : UInt8 × UInt8 × UInt8) :
    (gmulTurn s).1 ^^^
        mul (gmulTurn s).2.1 (gmulTurn s).2.2 =
      s.1 ^^^ mul s.2.1 s.2.2 := by
  rcases s with ⟨result, a, b⟩
  rw [mul_halved a b]
  dsimp only [gmulTurn]
  by_cases hBit : b &&& 1 ≠ 0
  · rw [if_pos hBit, if_pos hBit, UInt8.xor_assoc]
  · rw [if_neg hBit, if_neg hBit, UInt8.zero_xor]

/- The loop runs until nothing of the factor is left. -/
theorem gmul_eq (a b : UInt8) :
    gmul a b = mul a b := by
  have hLoop :=
    Loop.invariant (n := 8) (fun s _ => gmulTurn s)
      (0, a, b)
      (fun k s =>
        s.1 ^^^ mul s.2.1 s.2.2 = mul a b ∧
          s.2.2.toNat * 2 ^ k < 256)
      ⟨UInt8.zero_xor, by simpa using b.toNat_lt⟩
      (by
        rintro i s ⟨hSum, hLeft⟩
        refine ⟨(gmulTurn_sum s).trans hSum, ?_⟩
        have hHalf :
            (gmulTurn s).2.2.toNat = s.2.2.toNat / 2 :=
          UInt8.toNat_shiftRight _ _
        rw [hHalf, Nat.pow_succ]
        have := Nat.div_mul_le_self s.2.2.toNat 2
        calc
          s.2.2.toNat / 2 * (2 ^ i.val * 2) =
              s.2.2.toNat / 2 * 2 * 2 ^ i.val := by ring
          _ ≤ s.2.2.toNat * 2 ^ i.val :=
            Nat.mul_le_mul_right _ this
          _ < 256 := hLeft)
  rcases hLoop with ⟨hSum, hLeft⟩
  have hNone :
      (Loop.count 8 (fun s _ => gmulTurn s) (0, a, b)).2.2 =
        0 := by
    apply UInt8.toNat_inj.mp
    change _ = 0
    omega
  rw [hNone, Fips197.mul_zero_byte, UInt8.xor_zero] at hSum
  exact hSum

theorem mul_three (a : UInt8) :
    mul 0x03 a = xtime a ^^^ a := by
  have hThree : (0x03 : UInt8) = 0x02 ^^^ 0x01 := rfl
  rw [hThree, Fips197.xor_mul, mul_two,
    Fips197.mul_exchange 1, Fips197.mul_one_byte]

/- A row of the matrix. -/
def mixedRow (a b c d : UInt8) : UInt8 :=
  mul 0x02 a ^^^ mul 0x03 b ^^^ mul 0x01 c ^^^ mul 0x01 d

theorem foldedRow_eq (a b c d : UInt8) :
    a ^^^ ((a ^^^ b ^^^ c ^^^ d) ^^^ xtime (a ^^^ b)) =
      mixedRow a b c d := by
  have hTimes :
      xtime (a ^^^ b) = xtime a ^^^ xtime b := by
    rw [← mul_two, Fips197.mul_xor, mul_two, mul_two]
  have hOne : ∀ e, mul 0x01 e = e := by
    intro e
    rw [Fips197.mul_exchange, Fips197.mul_one_byte]
  rw [mixedRow, mul_two, mul_three, hOne, hOne, hTimes]
  generalize xtime a = p
  generalize xtime b = q
  calc
    a ^^^ ((a ^^^ b ^^^ c ^^^ d) ^^^ (p ^^^ q)) =
        (a ^^^ a) ^^^ (p ^^^ (q ^^^ b) ^^^ c ^^^ d) := by
      ac_rfl
    _ = p ^^^ (q ^^^ b) ^^^ c ^^^ d := by
      rw [UInt8.xor_self, UInt8.zero_xor]

/- A row of the inverse matrix. -/
def unmixedRow (a b c d : UInt8) : UInt8 :=
  gmul a 0x0e ^^^ gmul b 0x0b ^^^ gmul c 0x0d ^^^
    gmul d 0x09

/- What the two matrices make of one byte of a column. -/
theorem unmixed_coefficient (a k l m n : UInt8) :
    unmixedRow (mul k a) (mul l a) (mul m a) (mul n a) =
      mul a
        (mul k 0x0e ^^^ mul l 0x0b ^^^ mul m 0x0d ^^^
          mul n 0x09) := by
  have hByte :
      ∀ k c, gmul (mul k a) c = mul a (mul k c) := by
    intro k c
    rw [gmul_eq, Fips197.mul_exchange k, Fips197.mul_regroup]
  rw [unmixedRow, hByte, hByte, hByte, hByte, Fips197.mul_xor,
    Fips197.mul_xor, Fips197.mul_xor]

theorem unmixedRow_xor
    (a b c d a' b' c' d' : UInt8) :
    unmixedRow (a ^^^ a') (b ^^^ b') (c ^^^ c') (d ^^^ d') =
      unmixedRow a b c d ^^^ unmixedRow a' b' c' d' := by
  simp only [unmixedRow, gmul_eq, Fips197.xor_mul]
  ac_rfl

/- The second matrix is the inverse of the first. -/
theorem unmixedRow_mixedRow (a b c d : UInt8) :
    unmixedRow (mixedRow a b c d) (mixedRow b c d a)
      (mixedRow c d a b) (mixedRow d a b c) = a := by
  have hA :
      unmixedRow (mul 2 a) (mul 1 a) (mul 1 a) (mul 3 a) =
        a := by
    rw [unmixed_coefficient]
    exact Fips197.mul_one_byte a
  have hB :
      unmixedRow (mul 3 b) (mul 2 b) (mul 1 b) (mul 1 b) =
        0 := by
    rw [unmixed_coefficient]
    exact Fips197.mul_zero_byte b
  have hC :
      unmixedRow (mul 1 c) (mul 3 c) (mul 2 c) (mul 1 c) =
        0 := by
    rw [unmixed_coefficient]
    exact Fips197.mul_zero_byte c
  have hD :
      unmixedRow (mul 1 d) (mul 1 d) (mul 3 d) (mul 2 d) =
        0 := by
    rw [unmixed_coefficient]
    exact Fips197.mul_zero_byte d
  calc
    unmixedRow (mixedRow a b c d) (mixedRow b c d a)
          (mixedRow c d a b) (mixedRow d a b c) =
        unmixedRow
            (mul 2 a) (mul 1 a) (mul 1 a) (mul 3 a) ^^^
          unmixedRow
            (mul 3 b) (mul 2 b) (mul 1 b) (mul 1 b) ^^^
          unmixedRow
            (mul 1 c) (mul 3 c) (mul 2 c) (mul 1 c) ^^^
          unmixedRow
            (mul 1 d) (mul 1 d) (mul 3 d) (mul 2 d) := by
      rw [← unmixedRow_xor, ← unmixedRow_xor,
        ← unmixedRow_xor]
      unfold mixedRow
      congr 1 <;> ac_rfl
    _ = a := by
      rw [hA, hB, hC, hD, UInt8.xor_zero, UInt8.xor_zero,
        UInt8.xor_zero]
------------------------------------------------------------
-- The Key
------------------------------------------------------------

/- What the word `n + 4` adds to the word `n`. -/
def keyTemp (roundKeys : RoundKeys) (n : Fin 40) :
    Vector UInt8 4 :=
  let i := n.val + 4
  let t : Vector UInt8 4 :=
    Vector.ofFn fun j => roundKeys[(i - 1) * 4 + j.val]
  if i % 4 = 0 then
    -- the constant goes into the first byte
    #v[sboxAt t[1] ^^^ RCON[i / 4 - 1], sboxAt t[2],
      sboxAt t[3], sboxAt t[0]]
  else t

/- The word `n + 4` of the round keys, byte by byte. -/
def expandKeyTurn (roundKeys : RoundKeys) (n : Fin 40) :
    RoundKeys :=
  let i := n.val + 4
  let t := keyTemp roundKeys n
  Loop.count 4
    (fun (roundKeys : RoundKeys) j =>
      roundKeys.set (i * 4 + j.val)
        (roundKeys[(i - 4) * 4 + j.val] ^^^ t[j]))
    roundKeys

def aes128Init
    (inverse : InvSbox)
    (ctx : Aes128Ctx)
    (key : Block) :
    InvSbox × Aes128Ctx :=
  let inverse := buildInvSbox inverse
  let roundKeys : RoundKeys :=
    Vector.ofFn fun i =>
      if h : i.val < 16 then key[i.val]
      else ctx.roundKeys[i]
  (inverse,
    { roundKeys := Loop.count 40 expandKeyTurn roundKeys })

/- The bytes from `round * 16` on. -/
def Aes128Ctx.roundKey
    (ctx : Aes128Ctx)
    (round : Fin 11) :
    Block :=
  Vector.ofFn fun i => ctx.roundKeys[round.val * 16 + i.val]

------------------------------------------------------------
-- The Steps Of A Round
------------------------------------------------------------

def addRoundKey (state roundKey : Block) : Block :=
  Loop.inTurn (fun i b => b ^^^ roundKey[i]) state

def subBytes (state : Block) : Block :=
  Loop.inTurn (fun _ b => sboxAt b) state

def invSubBytes (inverse : InvSbox) (state : Block) :
    Block :=
  Loop.inTurn (fun _ b => inverse.INV_SBOX.get b.toFin)
    state

def shiftRows (s : Block) : Block :=
  -- row 1
  let t := s[1]
  let s := s.set 1 s[5]
  let s := s.set 5 s[9]
  let s := s.set 9 s[13]
  let s := s.set 13 t
  -- row 2
  let t := s[2]
  let s := s.set 2 s[10]
  let s := s.set 10 t
  let t := s[6]
  let s := s.set 6 s[14]
  let s := s.set 14 t
  -- row 3
  let t := s[15]
  let s := s.set 15 s[11]
  let s := s.set 11 s[7]
  let s := s.set 7 s[3]
  s.set 3 t

def invShiftRows (s : Block) : Block :=
  -- row 1
  let t := s[13]
  let s := s.set 13 s[9]
  let s := s.set 9 s[5]
  let s := s.set 5 s[1]
  let s := s.set 1 t
  -- row 2
  let t := s[2]
  let s := s.set 2 s[10]
  let s := s.set 10 t
  let t := s[6]
  let s := s.set 6 s[14]
  let s := s.set 14 t
  -- row 3
  let t := s[3]
  let s := s.set 3 s[7]
  let s := s.set 7 s[11]
  let s := s.set 11 s[15]
  s.set 15 t

/- The four bytes of a column, written in their order. -/
def putColumn
    (s : Block)
    (c : Fin 4)
    (col : Fin 4 → UInt8) :
    Block :=
  let s := s.set (c.val * 4) (col 0)
  let s := s.set (c.val * 4 + 1) (col 1)
  let s := s.set (c.val * 4 + 2) (col 2)
  s.set (c.val * 4 + 3) (col 3)

def mixColumn (s : Block) (c : Fin 4) : Block :=
  let a0 := s[c.val * 4]
  let a1 := s[c.val * 4 + 1]
  let a2 := s[c.val * 4 + 2]
  let a3 := s[c.val * 4 + 3]
  let sum := a0 ^^^ a1 ^^^ a2 ^^^ a3
  putColumn s c
    ![a0 ^^^ (sum ^^^ xtime (a0 ^^^ a1)),
      a1 ^^^ (sum ^^^ xtime (a1 ^^^ a2)),
      a2 ^^^ (sum ^^^ xtime (a2 ^^^ a3)),
      a3 ^^^ (sum ^^^ xtime (a3 ^^^ a0))]

def mixColumns (s : Block) : Block :=
  Loop.count 4 mixColumn s

def invMixColumn (s : Block) (c : Fin 4) : Block :=
  let a0 := s[c.val * 4]
  let a1 := s[c.val * 4 + 1]
  let a2 := s[c.val * 4 + 2]
  let a3 := s[c.val * 4 + 3]
  putColumn s c
    ![gmul a0 0x0e ^^^ gmul a1 0x0b ^^^ gmul a2 0x0d ^^^
        gmul a3 0x09,
      gmul a0 0x09 ^^^ gmul a1 0x0e ^^^ gmul a2 0x0b ^^^
        gmul a3 0x0d,
      gmul a0 0x0d ^^^ gmul a1 0x09 ^^^ gmul a2 0x0e ^^^
        gmul a3 0x0b,
      gmul a0 0x0b ^^^ gmul a1 0x0d ^^^ gmul a2 0x09 ^^^
        gmul a3 0x0e]

def invMixColumns (s : Block) : Block :=
  Loop.count 4 invMixColumn s

------------------------------------------------------------
-- The Cipher
------------------------------------------------------------

/- The rounds in the middle, one after another. -/
def middleRounds : List (Fin 11) :=
  [1, 2, 3, 4, 5, 6, 7, 8, 9]

def middleRound
    (ctx : Aes128Ctx)
    (state : Block)
    (round : Fin 11) :
    Block :=
  addRoundKey (mixColumns (shiftRows (subBytes state)))
    (ctx.roundKey round)

def aes128EncryptBlock
    (ctx : Aes128Ctx)
    (block : Block) :
    Block :=
  let state := addRoundKey block (ctx.roundKey 0)
  let state := middleRounds.foldl (middleRound ctx) state
  addRoundKey (shiftRows (subBytes state)) (ctx.roundKey 10)

def invMiddleRound
    (inverse : InvSbox)
    (ctx : Aes128Ctx)
    (state : Block)
    (round : Fin 11) :
    Block :=
  invMixColumns
    (addRoundKey
      (invSubBytes inverse (invShiftRows state))
      (ctx.roundKey round))

def aes128DecryptBlock
    (inverse : InvSbox)
    (ctx : Aes128Ctx)
    (block : Block) :
    Block :=
  let state := addRoundKey block (ctx.roundKey 10)
  -- the rounds count down
  let state :=
    middleRounds.reverse.foldl (invMiddleRound inverse ctx)
      state
  addRoundKey (invSubBytes inverse (invShiftRows state))
    (ctx.roundKey 0)

------------------------------------------------------------
-- The Steps Are The Standard's
------------------------------------------------------------

theorem place_lt (r c : Fin 4) :
    c.val * 4 + r.val < 16 := by
  omega

/- Where a row and a column are in a block. -/
def place (r c : Fin 4) : Fin 16 :=
  ⟨c.val * 4 + r.val, place_lt r c⟩

theorem stateOf_inTurn
    (f : Fin 16 → UInt8 → UInt8)
    (s : Block)
    (r c : Fin 4) :
    stateOf (Loop.inTurn f s) r c =
      f (place r c) (stateOf s r c) :=
  Loop.get_inTurn f s (place r c)

theorem stateOf_subBytes (s : Block) :
    stateOf (subBytes s) = Fips197.subBytes (stateOf s) := by
  funext r c
  rw [subBytes, stateOf_inTurn, sboxAt_eq]
  rfl

theorem block_eq (s : Block) :
    s =
      #v[s[0], s[1], s[2], s[3], s[4], s[5], s[6], s[7],
        s[8], s[9], s[10], s[11], s[12], s[13], s[14],
        s[15]] := by
  apply Vector.ext
  intro i hi
  interval_cases i <;> rfl

theorem shiftRows_eq (s : Block) :
    shiftRows s =
      #v[s[0], s[5], s[10], s[15], s[4], s[9], s[14], s[3],
        s[8], s[13], s[2], s[7], s[12], s[1], s[6],
        s[11]] := by
  conv => lhs; rw [block_eq s]
  simp [shiftRows]

theorem invShiftRows_eq (s : Block) :
    invShiftRows s =
      #v[s[0], s[13], s[10], s[7], s[4], s[1], s[14], s[11],
        s[8], s[5], s[2], s[15], s[12], s[9], s[6],
        s[3]] := by
  conv => lhs; rw [block_eq s]
  simp [invShiftRows]

theorem stateOf_shiftRows (s : Block) :
    stateOf (shiftRows s) =
      Fips197.shiftRows (stateOf s) := by
  rw [shiftRows_eq]
  funext r c
  fin_cases r <;> fin_cases c <;> rfl

/-
  A loop that changes one column after another, each by
  itself, changes them all.
-/
theorem stateOf_columns
    {body : Block → Fin 4 → Block}
    {f : Fin 4 → (Fin 4 → UInt8) → UInt8}
    (hBody :
      ∀ s c r c',
        stateOf (body s c) r c' =
          if c' = c then f r fun k => stateOf s k c
          else stateOf s r c')
    (s : Block)
    (r c : Fin 4) :
    stateOf (Loop.count 4 body s) r c =
      f r fun k => stateOf s k c := by
  have hLoop :=
    Loop.invariant body s
      (fun k w =>
        ∀ r c : Fin 4,
          stateOf w r c =
            if c.val < k then f r fun k => stateOf s k c
            else stateOf s r c)
      (fun r c => (if_neg (Nat.not_lt_zero _)).symm)
      (by
        intro i w hBefore r c
        rw [hBody]
        by_cases hHere : c = i
        · subst hHere
          rw [if_pos rfl, if_pos (Nat.lt_succ_self _)]
          congr 1
          funext k
          rw [hBefore, if_neg (Nat.lt_irrefl _)]
        · have hSame : c.val < i.val + 1 ↔ c.val < i.val := by
            have := Fin.val_ne_of_ne hHere
            omega
          rw [if_neg hHere, hBefore]
          simp only [hSame])
  rw [hLoop, if_pos c.isLt]

theorem stateOf_putColumn
    (s : Block)
    (c : Fin 4)
    (col : Fin 4 → UInt8)
    (r c' : Fin 4) :
    stateOf (putColumn s c col) r c' =
      if c' = c then col r else stateOf s r c' := by
  unfold stateOf putColumn
  simp only [Vector.getElem_set]
  by_cases hHere : c' = c
  · subst hHere
    rw [if_pos rfl]
    fin_cases r <;> simp
  · have hOther := Fin.val_ne_of_ne hHere
    rw [if_neg hHere, if_neg (by omega), if_neg (by omega),
      if_neg (by omega), if_neg (by omega)]

/- The folded rows are those of the matrix. -/
theorem foldedRows_eq (col : Fin 4 → UInt8) (r : Fin 4) :
    let sum := col 0 ^^^ col 1 ^^^ col 2 ^^^ col 3
    ![col 0 ^^^ (sum ^^^ xtime (col 0 ^^^ col 1)),
        col 1 ^^^ (sum ^^^ xtime (col 1 ^^^ col 2)),
        col 2 ^^^ (sum ^^^ xtime (col 2 ^^^ col 3)),
        col 3 ^^^ (sum ^^^ xtime (col 3 ^^^ col 0))] r =
      mixedRow (col r) (col (r + 1)) (col (r + 2))
        (col (r + 3)) := by
  intro sum
  rw [← foldedRow_eq]
  have hSum :
      col 0 ^^^ col 1 ^^^ col 2 ^^^ col 3 =
        col r ^^^ col (r + 1) ^^^ col (r + 2) ^^^
          col (r + 3) := by
    fin_cases r
    · rfl
    · change _ = col 1 ^^^ col 2 ^^^ col 3 ^^^ col 0
      ac_rfl
    · change _ = col 2 ^^^ col 3 ^^^ col 0 ^^^ col 1
      ac_rfl
    · change _ = col 3 ^^^ col 0 ^^^ col 1 ^^^ col 2
      ac_rfl
  rw [← hSum]
  fin_cases r <;> rfl

theorem stateOf_mixColumn (s : Block) (c r c' : Fin 4) :
    stateOf (mixColumn s c) r c' =
      if c' = c then
        mixedRow (stateOf s r c) (stateOf s (r + 1) c)
          (stateOf s (r + 2) c) (stateOf s (r + 3) c)
      else stateOf s r c' := by
  rw [mixColumn, stateOf_putColumn]
  congr 1
  exact foldedRows_eq (fun k => stateOf s k c) r

theorem stateOf_mixColumns_row (s : Block) (r c : Fin 4) :
    stateOf (mixColumns s) r c =
      mixedRow (stateOf s r c) (stateOf s (r + 1) c)
        (stateOf s (r + 2) c) (stateOf s (r + 3) c) :=
  stateOf_columns
    (f := fun r col =>
      mixedRow (col r) (col (r + 1)) (col (r + 2))
        (col (r + 3)))
    stateOf_mixColumn s r c

theorem stateOf_mixColumns (s : Block) :
    stateOf (mixColumns s) =
      Fips197.mixColumns (stateOf s) := by
  funext r c
  rw [stateOf_mixColumns_row, Fips197.mixColumns_eq]
  rfl

/- The rows of the code's second matrix, likewise. -/
theorem unmixedRows_eq (col : Fin 4 → UInt8) (r : Fin 4) :
    ![gmul (col 0) 0x0e ^^^ gmul (col 1) 0x0b ^^^
          gmul (col 2) 0x0d ^^^ gmul (col 3) 0x09,
        gmul (col 0) 0x09 ^^^ gmul (col 1) 0x0e ^^^
          gmul (col 2) 0x0b ^^^ gmul (col 3) 0x0d,
        gmul (col 0) 0x0d ^^^ gmul (col 1) 0x09 ^^^
          gmul (col 2) 0x0e ^^^ gmul (col 3) 0x0b,
        gmul (col 0) 0x0b ^^^ gmul (col 1) 0x0d ^^^
          gmul (col 2) 0x09 ^^^ gmul (col 3) 0x0e] r =
      unmixedRow (col r) (col (r + 1)) (col (r + 2))
        (col (r + 3)) := by
  unfold unmixedRow
  fin_cases r
  · rfl
  · change
      _ =
        gmul (col 1) 0x0e ^^^ gmul (col 2) 0x0b ^^^
          gmul (col 3) 0x0d ^^^ gmul (col 0) 0x09
    ac_rfl
  · change
      _ =
        gmul (col 2) 0x0e ^^^ gmul (col 3) 0x0b ^^^
          gmul (col 0) 0x0d ^^^ gmul (col 1) 0x09
    ac_rfl
  · change
      _ =
        gmul (col 3) 0x0e ^^^ gmul (col 0) 0x0b ^^^
          gmul (col 1) 0x0d ^^^ gmul (col 2) 0x09
    ac_rfl

theorem stateOf_invMixColumn (s : Block) (c r c' : Fin 4) :
    stateOf (invMixColumn s c) r c' =
      if c' = c then
        unmixedRow (stateOf s r c) (stateOf s (r + 1) c)
          (stateOf s (r + 2) c) (stateOf s (r + 3) c)
      else stateOf s r c' := by
  rw [invMixColumn, stateOf_putColumn]
  congr 1
  exact unmixedRows_eq (fun k => stateOf s k c) r

theorem stateOf_invMixColumns (s : Block) (r c : Fin 4) :
    stateOf (invMixColumns s) r c =
      unmixedRow (stateOf s r c) (stateOf s (r + 1) c)
        (stateOf s (r + 2) c) (stateOf s (r + 3) c) :=
  stateOf_columns
    (f := fun r col =>
      unmixedRow (col r) (col (r + 1)) (col (r + 2))
        (col (r + 3)))
    stateOf_invMixColumn s r c

------------------------------------------------------------
-- The Steps Are Undone
------------------------------------------------------------

theorem invMixColumns_mixColumns (s : Block) :
    invMixColumns (mixColumns s) = s := by
  apply Fips197.stateOf_injective
  funext r c
  rw [stateOf_invMixColumns, stateOf_mixColumns_row,
    stateOf_mixColumns_row, stateOf_mixColumns_row,
    stateOf_mixColumns_row]
  fin_cases r <;> exact unmixedRow_mixedRow _ _ _ _

theorem invShiftRows_shiftRows (s : Block) :
    invShiftRows (shiftRows s) = s := by
  rw [invShiftRows_eq, shiftRows_eq]
  exact (block_eq s).symm

theorem invSubBytes_subBytes
    {inverse : InvSbox}
    (hReady : inverse.ready = true)
    (s : Block) :
    invSubBytes inverse (subBytes s) = s := by
  apply Fips197.stateOf_injective
  funext r c
  rw [invSubBytes, stateOf_inTurn, subBytes, stateOf_inTurn,
    inverse.hReady hReady]

theorem addRoundKey_addRoundKey (s roundKey : Block) :
    addRoundKey (addRoundKey s roundKey) roundKey = s := by
  apply Fips197.stateOf_injective
  funext r c
  rw [addRoundKey, stateOf_inTurn, addRoundKey,
    stateOf_inTurn, UInt8.xor_assoc, UInt8.xor_self,
    UInt8.xor_zero]

------------------------------------------------------------
-- The Round Keys Are The Standard's
------------------------------------------------------------

theorem RCON_eq (k : Fin 10) :
    RCON[k] = (mul 0x02)^[k.val] 1 := by
  revert k
  decide +kernel

/- The words below `k` are there. -/
def Expanded
    (key : Block)
    (roundKeys : RoundKeys)
    (k : Nat) :
    Prop :=
  ∀ i : Fin 44, i.val < k → ∀ j : Fin 4,
    roundKeys[i.val * 4 + j.val] = keyWord key i.val j

theorem keyTemp_eq
    {key : Block} {roundKeys : RoundKeys} {n : Fin 40}
    (hBefore : Expanded key roundKeys (n.val + 4))
    (j : Fin 4) :
    (keyTemp roundKeys n)[j] =
      Fips197.keyAddend (n.val + 4)
        (keyWord key (n.val + 3)) j := by
  have hLast :
      ∀ j : Fin 4,
        roundKeys[(n.val + 3) * 4 + j.val] =
          keyWord key (n.val + 3) j :=
    hBefore ⟨n.val + 3, by omega⟩ (Nat.lt_succ_self _)
  unfold keyTemp Fips197.keyAddend
  by_cases hWord : (n.val + 4) % 4 = 0
  · have hRcon :
        RCON[n.val / 4] = (mul 0x02)^[n.val / 4] 1 :=
      RCON_eq ⟨n.val / 4, by omega⟩
    have hByte :
        ∀ k : Fin 4,
          sboxAt roundKeys[(n.val + 3) * 4 + (k + 1).val] =
            Fips197.subWord
              (Fips197.rotWord (keyWord key (n.val + 3)))
              k := by
      intro k
      rw [hLast, sboxAt_eq]
      rfl
    simp only [if_pos hWord]
    fin_cases j
    · simpa [Fips197.rcon] using
        congrArg₂ (fun a b => a ^^^ b) (hByte 0) hRcon
    · simpa [Fips197.rcon] using hByte 1
    · simpa [Fips197.rcon] using hByte 2
    · simpa [Fips197.rcon] using hByte 3
  · simp only [if_neg hWord]
    rw [Fin.getElem_fin, Vector.getElem_ofFn]
    exact hLast j

theorem get_expandKeyTurn
    (roundKeys : RoundKeys)
    (n : Fin 40)
    (i : Fin 44)
    (j : Fin 4) :
    (expandKeyTurn roundKeys n)[i.val * 4 + j.val] =
      if i.val = n.val + 4 then
        roundKeys[n.val * 4 + j.val] ^^^
          (keyTemp roundKeys n)[j]
      else roundKeys[i.val * 4 + j.val] := by
  have hLoop :=
    Loop.invariant
      (fun (w : RoundKeys) (j : Fin 4) =>
        w.set ((n.val + 4) * 4 + j.val)
          (w[(n.val + 4 - 4) * 4 + j.val] ^^^
            (keyTemp roundKeys n)[j]))
      roundKeys
      (fun k w =>
        ∀ (i : Fin 44) (j : Fin 4),
          w[i.val * 4 + j.val] =
            if i.val = n.val + 4 ∧ j.val < k then
              roundKeys[n.val * 4 + j.val] ^^^
                (keyTemp roundKeys n)[j]
            else roundKeys[i.val * 4 + j.val])
      (fun i j =>
        (if_neg fun h => Nat.not_lt_zero _ h.2).symm)
      (by
        intro k w hBefore i j
        rw [Vector.getElem_set]
        by_cases hHere : i.val = n.val + 4 ∧ j.val = k.val
        · have hOld := hBefore ⟨n.val, by omega⟩ k
          rw [if_neg (by omega)] at hOld
          rw [if_pos (by omega),
            if_pos ⟨hHere.1, by omega⟩,
            Fin.ext hHere.2, ← hOld]
          rfl
        · have hSame :
              (i.val = n.val + 4 ∧ j.val < k.val + 1) ↔
                (i.val = n.val + 4 ∧ j.val < k.val) := by
            omega
          rw [if_neg (by omega), hBefore]
          simp only [hSame])
  have hAll := hLoop i j
  simp only [j.isLt, and_true] at hAll
  exact hAll

/- A turn adds the next word. -/
theorem expanded_expandKeyTurn
    {key : Block} {roundKeys : RoundKeys} {n : Fin 40}
    (hBefore : Expanded key roundKeys (n.val + 4)) :
    Expanded key (expandKeyTurn roundKeys n)
      (n.val + 1 + 4) := by
  intro i hi j
  rw [get_expandKeyTurn]
  by_cases hHere : i.val = n.val + 4
  · have hOld := hBefore ⟨n.val, by omega⟩ (by simp) j
    rw [if_pos hHere, hHere, Fips197.keyWord_add_four,
      keyTemp_eq hBefore, hOld]
  · rw [if_neg hHere]
    exact hBefore i (by omega) j

/- The key itself is the first four words. -/
theorem expanded_key
    (key : Block)
    (roundKeys : RoundKeys) :
    Expanded key
      (Vector.ofFn fun i =>
        if h : i.val < 16 then key[i.val]
        else roundKeys[i])
      4 := by
  intro i hi j
  have hInside : i.val * 4 + j.val < 16 := by omega
  rw [Vector.getElem_ofFn, dif_pos hInside]
  rcases i with ⟨i, _⟩
  interval_cases i <;> rfl

/- Whatever the context held, it has all the words. -/
theorem expanded_aes128Init
    (inverse : InvSbox)
    (ctx : Aes128Ctx)
    (key : Block) :
    Expanded key (aes128Init inverse ctx key).2.roundKeys
      44 := by
  exact Loop.invariant expandKeyTurn _
    (fun k roundKeys => Expanded key roundKeys (k + 4))
    (expanded_key key ctx.roundKeys)
    (fun _ _ hBefore => expanded_expandKeyTurn hBefore)

theorem stateOf_roundKey
    (inverse : InvSbox)
    (ctx : Aes128Ctx)
    (key : Block)
    (round : Fin 11)
    (r c : Fin 4) :
    stateOf ((aes128Init inverse ctx key).2.roundKey round)
        r c =
      keyWord key (round.val * 4 + c.val) r := by
  have hWord :=
    expanded_aes128Init inverse ctx key
      ⟨round.val * 4 + c.val, by omega⟩ (by dsimp only; omega)
      r
  have hIndex :
      round.val * 16 + (c.val * 4 + r.val) =
        (round.val * 4 + c.val) * 4 + r.val := by
    omega
  unfold stateOf Aes128Ctx.roundKey
  rw [Vector.getElem_ofFn]
  simp only [hIndex]
  exact hWord

theorem stateOf_addRoundKey
    (inverse : InvSbox)
    (ctx : Aes128Ctx)
    (key s : Block)
    (round : Fin 11) :
    stateOf
        (addRoundKey s
          ((aes128Init inverse ctx key).2.roundKey round)) =
      Fips197.addRoundKey key round.val (stateOf s) := by
  funext r c
  rw [addRoundKey, stateOf_inTurn, Fips197.addRoundKey,
    ← stateOf_roundKey inverse ctx key]
  rfl

------------------------------------------------------------
-- The Cipher Is The Standard's, And Is Undone
------------------------------------------------------------

theorem stateOf_middleRounds
    (inverse : InvSbox)
    (ctx : Aes128Ctx)
    (key s : Block)
    (rounds : List (Fin 11)) :
    stateOf
        (rounds.foldl
          (middleRound (aes128Init inverse ctx key).2) s) =
      (rounds.map Fin.val).foldl (Fips197.round key)
        (stateOf s) := by
  induction rounds generalizing s with
  | nil => rfl
  | cons round rounds ih =>
      rw [List.foldl_cons, ih, List.map_cons,
        List.foldl_cons, middleRound, stateOf_addRoundKey,
        stateOf_mixColumns, stateOf_shiftRows,
        stateOf_subBytes]
      rfl

theorem aes128EncryptBlock_eq
    (inverse : InvSbox)
    (ctx : Aes128Ctx)
    (key block : Block) :
    aes128EncryptBlock (aes128Init inverse ctx key).2
        block =
      Fips197.cipher key block := by
  have hRounds :=
    stateOf_middleRounds inverse ctx key
      (addRoundKey block
        ((aes128Init inverse ctx key).2.roundKey 0))
      middleRounds
  apply Fips197.stateOf_injective
  unfold Fips197.cipher
  rw [Fips197.stateOf_blockOf]
  unfold aes128EncryptBlock
  rw [stateOf_addRoundKey, stateOf_shiftRows,
    stateOf_subBytes, hRounds, stateOf_addRoundKey]
  rfl

/- The half of a round that is the last one's whole. -/
theorem invSubBytes_invShiftRows
    {inverse : InvSbox}
    (hReady : inverse.ready = true)
    (s : Block) :
    invSubBytes inverse
        (invShiftRows (shiftRows (subBytes s))) =
      s := by
  rw [invShiftRows_shiftRows, invSubBytes_subBytes hReady]

/-
  A round on the way back undoes the second half of the one
  it answers, and the first half of the one after it.
-/
theorem invMiddleRound_middleRound
    {inverse : InvSbox}
    (hReady : inverse.ready = true)
    (ctx : Aes128Ctx)
    (round : Fin 11)
    (s : Block) :
    invMiddleRound inverse ctx
        (shiftRows (subBytes (middleRound ctx s round)))
        round =
      shiftRows (subBytes s) := by
  rw [invMiddleRound, invSubBytes_invShiftRows hReady,
    middleRound, addRoundKey_addRoundKey,
    invMixColumns_mixColumns]

theorem aes128DecryptBlock_aes128EncryptBlock
    {inverse : InvSbox}
    (hReady : inverse.ready = true)
    (ctx : Aes128Ctx)
    (block : Block) :
    aes128DecryptBlock inverse ctx
        (aes128EncryptBlock ctx block) =
      block := by
  have hRounds :=
    Loop.undo (middleRound ctx) (invMiddleRound inverse ctx)
      (fun s => shiftRows (subBytes s))
      (invMiddleRound_middleRound hReady ctx)
      middleRounds (addRoundKey block (ctx.roundKey 0))
  unfold aes128DecryptBlock aes128EncryptBlock
  dsimp only
  rw [addRoundKey_addRoundKey, hRounds,
    invSubBytes_invShiftRows hReady,
    addRoundKey_addRoundKey]

theorem ready_buildInvSbox (inverse : InvSbox) :
    (buildInvSbox inverse).ready = true := by
  unfold buildInvSbox
  by_cases hReady : inverse.ready = true
  · rw [if_pos hReady]
    exact hReady
  · rw [if_neg hReady]

/-
  The code is the cipher of the standard, for every key and
  every block and whatever the tables and the context held;
  and it deciphers with the same context what it has made.
-/
theorem aes128_is_the_standard
    (inverse : InvSbox)
    (ctx : Aes128Ctx)
    (key block : Block) :
    let (inverse, ctx) := aes128Init inverse ctx key
    aes128EncryptBlock ctx block =
        Fips197.cipher key block ∧
      aes128DecryptBlock inverse ctx
          (aes128EncryptBlock ctx block) =
        block :=
  ⟨aes128EncryptBlock_eq inverse ctx key block,
    aes128DecryptBlock_aes128EncryptBlock
      (ready_buildInvSbox inverse) _ block⟩

------------------------------------------------------------
-- The Cipher Of The Protocol
------------------------------------------------------------

/- The primitives, with this cipher for the blocks. -/
@[reducible] def withAes128
    (core : CryptoCore)
    (inverse : InvSbox)
    (ctx : Aes128Ctx) :
    CryptoCore :=
  { core with
    encryptBlock := fun key block =>
      let (_, ctx) := aes128Init inverse ctx key
      aes128EncryptBlock ctx block
    decryptBlock := fun key block =>
      let (inverse, ctx) := aes128Init inverse ctx key
      aes128DecryptBlock inverse ctx block }

/- What the protocol needs of a cipher, this one has. -/
theorem deciphers_withAes128
    (core : CryptoCore)
    (inverse : InvSbox)
    (ctx : Aes128Ctx) :
    @Deciphers (withAes128 core inverse ctx) := by
  intro key block
  exact aes128DecryptBlock_aes128EncryptBlock
    (ready_buildInvSbox inverse) _ block

end Aes128

end MeshCore
