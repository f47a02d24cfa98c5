import MeshCore.Library.BinaryPoly
import Mathlib.Data.Fin.VecNotation

/-
  The block cipher of FIPS-197 with keys of 128 bits, as the
  standard says it: bytes are polynomials modulo the one of
  degree eight, the state is a square of bytes, and the S-box
  is an affine map of the inverse.

  Key definitions include:
    * `Fips197.mul`, `Fips197.inv`
    * `Fips197.sbox`
    * `Fips197.shiftRows`, `Fips197.mixColumns`
    * `Fips197.keyWord`
    * `Fips197.cipher`

  Key facts include:
    * `Fips197.mul_xor`, `Fips197.xor_mul`
    * `Fips197.inv_eq`, `Fips197.sbox_eq`
    * `Fips197.mixColumns_eq`
    * `Fips197.keyWord_add_four`
-/

namespace Fips197

------------------------------------------------------------
-- Bytes
------------------------------------------------------------

/- x⁸ + x⁴ + x³ + x + 1, below its leading power. -/
def modulus : BitVec 8 := 0x1b

/- The product of two bytes, as of polynomials. -/
def mul (a b : UInt8) : UInt8 :=
  ⟨BinaryPoly.mul modulus a.toBitVec b.toBitVec⟩

theorem mul_xor (a b c : UInt8) :
    mul a (b ^^^ c) = mul a b ^^^ mul a c :=
  congrArg UInt8.ofBitVec (BinaryPoly.mul_xor modulus _ _ _)

theorem xor_mul (a b c : UInt8) :
    mul (a ^^^ b) c = mul a c ^^^ mul b c :=
  congrArg UInt8.ofBitVec (BinaryPoly.xor_mul modulus _ _ _)

theorem mul_zero_byte (a : UInt8) : mul a 0 = 0 := by
  have hAll : ∀ bits : BitVec 8, mul ⟨bits⟩ 0 = 0 := by
    decide +kernel
  exact hAll a.toBitVec

theorem mul_one_byte (a : UInt8) : mul a 1 = a := by
  have hAll : ∀ bits : BitVec 8, mul ⟨bits⟩ 1 = ⟨bits⟩ := by
    decide +kernel
  exact hAll a.toBitVec

theorem mul_exchange (a b : UInt8) :
    mul a b = mul b a :=
  congrArg UInt8.ofBitVec
    (BinaryPoly.mul_exchange modulus _ _)

theorem mul_regroup (a b c : UInt8) :
    mul (mul a b) c = mul a (mul b c) :=
  congrArg UInt8.ofBitVec
    (BinaryPoly.mul_regroup modulus _ _ _)

theorem eq_of_mul_eq_one
    {a b c : UInt8}
    (hB : mul a b = 1)
    (hC : mul a c = 1) :
    b = c :=
  UInt8.toBitVec_inj.mp
    (BinaryPoly.eq_of_mul_eq_one
      (congrArg UInt8.toBitVec hB)
      (congrArg UInt8.toBitVec hC))

/- The byte whose product with it is one, zero for zero. -/
def inv (a : UInt8) : UInt8 :=
  (((List.range 256).map UInt8.ofNat).find? fun b =>
    mul a b == 1).getD 0

/- There is one inverse at most, so any is the one found. -/
theorem inv_eq
    {a b : UInt8}
    (hOne : mul a b = 1) :
    inv a = b := by
  have hByte : b ∈ (List.range 256).map UInt8.ofNat := by
    apply List.mem_map.mpr
    exact ⟨b.toNat, List.mem_range.mpr b.toNat_lt,
      UInt8.ofNat_toNat⟩
  unfold inv
  cases hFind :
      ((List.range 256).map UInt8.ofNat).find?
        (fun b => mul a b == 1) with
  | none =>
      have hNot := List.find?_eq_none.mp hFind b hByte
      simp [hOne] at hNot
  | some c =>
      have hFound := List.find?_some hFind
      have hC : mul a c = 1 := by simpa using hFound
      exact eq_of_mul_eq_one hC hOne

theorem inv_zero : inv 0 = 0 := by
  decide +kernel

/- Bit `i` is a sum of five bits and of the constant's. -/
def affineBit (b : UInt8) (i : Nat) : Bool :=
  let bit (k : Nat) := b.toBitVec.getLsbD (k % 8)
  bit i ^^ bit (i + 4) ^^ bit (i + 5) ^^ bit (i + 6) ^^
    bit (i + 7) ^^ (0x63#8).getLsbD i

def affine (b : UInt8) : UInt8 :=
  ⟨BitVec.ofBoolListLE
    ((List.range 8).map (affineBit b))⟩

def sbox (b : UInt8) : UInt8 :=
  affine (inv b)

/- What the affine map is undone by. -/
def unaffineBit (b : UInt8) (i : Nat) : Bool :=
  let bit (k : Nat) := b.toBitVec.getLsbD (k % 8)
  bit (i + 2) ^^ bit (i + 5) ^^ bit (i + 7) ^^
    (0x05#8).getLsbD i

def unaffine (b : UInt8) : UInt8 :=
  ⟨BitVec.ofBoolListLE
    ((List.range 8).map (unaffineBit b))⟩

theorem affine_unaffine (b : UInt8) :
    affine (unaffine b) = b := by
  have hAll :
      ∀ bits : BitVec 8,
        affine (unaffine ⟨bits⟩) = ⟨bits⟩ := by
    decide +kernel
  exact hAll b.toBitVec

/- A byte's S-box, where its inverse is known. -/
theorem sbox_eq
    {b y : UInt8}
    (hInverse : mul b (unaffine y) = 1) :
    sbox b = y := by
  rw [sbox, inv_eq hInverse, affine_unaffine]

------------------------------------------------------------
-- The State
------------------------------------------------------------

abbrev Block := Vector UInt8 16

/- A byte for every row and every column. -/
abbrev State := Fin 4 → Fin 4 → UInt8

/- A block is four rows and four columns. -/
instance neZero_four : NeZero 4 :=
  ⟨by decide⟩

/- The bytes of a block, column after column. -/
def stateOf (block : Block) : State :=
  fun r c => block[c.val * 4 + r.val]

def blockOf (s : State) : Block :=
  Vector.ofFn fun i =>
    s (Fin.ofNat 4 i.val) (Fin.ofNat 4 (i.val / 4))

def subBytes (s : State) : State :=
  fun r c => sbox (s r c)

/- The row `r` goes round by `r` columns. -/
def shiftRows (s : State) : State :=
  fun r c => s r (c + r)

/- The first row of the matrix; the others go round. -/
def mixRow : Fin 4 → UInt8 :=
  ![0x02, 0x03, 0x01, 0x01]

def mixColumns (s : State) : State :=
  fun r c =>
    mul (mixRow (0 - r)) (s 0 c) ^^^
      mul (mixRow (1 - r)) (s 1 c) ^^^
      mul (mixRow (2 - r)) (s 2 c) ^^^
      mul (mixRow (3 - r)) (s 3 c)

/- A row of the matrix, from its diagonal on. -/
theorem mixColumns_eq (s : State) (r c : Fin 4) :
    mixColumns s r c =
      mul 0x02 (s r c) ^^^ mul 0x03 (s (r + 1) c) ^^^
        mul 0x01 (s (r + 2) c) ^^^
        mul 0x01 (s (r + 3) c) := by
  unfold mixColumns
  fin_cases r
  · rfl
  · change
      mul 0x01 (s 0 c) ^^^ mul 0x02 (s 1 c) ^^^
          mul 0x03 (s 2 c) ^^^ mul 0x01 (s 3 c) =
        mul 0x02 (s 1 c) ^^^ mul 0x03 (s 2 c) ^^^
          mul 0x01 (s 3 c) ^^^ mul 0x01 (s 0 c)
    ac_rfl
  · change
      mul 0x01 (s 0 c) ^^^ mul 0x01 (s 1 c) ^^^
          mul 0x02 (s 2 c) ^^^ mul 0x03 (s 3 c) =
        mul 0x02 (s 2 c) ^^^ mul 0x03 (s 3 c) ^^^
          mul 0x01 (s 0 c) ^^^ mul 0x01 (s 1 c)
    ac_rfl
  · change
      mul 0x03 (s 0 c) ^^^ mul 0x01 (s 1 c) ^^^
          mul 0x01 (s 2 c) ^^^ mul 0x02 (s 3 c) =
        mul 0x02 (s 3 c) ^^^ mul 0x03 (s 0 c) ^^^
          mul 0x01 (s 1 c) ^^^ mul 0x01 (s 2 c)
    ac_rfl

theorem blockOf_stateOf (block : Block) :
    blockOf (stateOf block) = block := by
  apply Vector.ext
  intro i hi
  rw [blockOf, Vector.getElem_ofFn]
  unfold stateOf
  congr 1
  simp only [Fin.val_ofNat]
  omega

theorem stateOf_blockOf (s : State) :
    stateOf (blockOf s) = s := by
  funext r c
  have hRow : Fin.ofNat 4 (c.val * 4 + r.val) = r := by
    apply Fin.ext
    rw [Fin.val_ofNat]
    omega
  have hColumn :
      Fin.ofNat 4 ((c.val * 4 + r.val) / 4) = c := by
    apply Fin.ext
    rw [Fin.val_ofNat]
    omega
  unfold stateOf blockOf
  rw [Vector.getElem_ofFn, hRow, hColumn]

/- A block is known by its rows and columns. -/
theorem stateOf_injective
    {a b : Block}
    (hSame : stateOf a = stateOf b) :
    a = b := by
  rw [← blockOf_stateOf a, hSame, blockOf_stateOf]

------------------------------------------------------------
-- The Key
------------------------------------------------------------

abbrev Word := Fin 4 → UInt8

def rotWord (word : Word) : Word :=
  fun j => word (j + 1)

def subWord (word : Word) : Word :=
  fun j => sbox (word j)

/- The power `i - 1` of `x`, and zeros. -/
def rcon (i : Nat) : Word :=
  ![(mul 0x02)^[i - 1] 1, 0, 0, 0]

/- What the word `i` adds to the word four before it. -/
def keyAddend (i : Nat) (last : Word) : Word :=
  if i % 4 = 0 then
    fun j => subWord (rotWord last) j ^^^ rcon (i / 4) j
  else last

/- The words from `i` to `i + 3`. -/
def keyWindow
    (key : Block) :
    Nat → Word × Word × Word × Word
| 0 =>
    (fun j => stateOf key j 0, fun j => stateOf key j 1,
      fun j => stateOf key j 2, fun j => stateOf key j 3)
| i + 1 =>
    let (a, b, c, d) := keyWindow key i
    (b, c, d, fun j => a j ^^^ keyAddend (i + 4) d j)

def keyWord (key : Block) (i : Nat) : Word :=
  (keyWindow key i).1

theorem keyWord_add_four (key : Block) (i : Nat) :
    keyWord key (i + 4) =
      fun j =>
        keyWord key i j ^^^
          keyAddend (i + 4) (keyWord key (i + 3)) j :=
  rfl

def addRoundKey
    (key : Block)
    (round : Nat)
    (s : State) :
    State :=
  fun r c => s r c ^^^ keyWord key (round * 4 + c.val) r

------------------------------------------------------------
-- The Cipher
------------------------------------------------------------

def round (key : Block) (s : State) (n : Nat) : State :=
  addRoundKey key n (mixColumns (shiftRows (subBytes s)))

def cipher (key block : Block) : Block :=
  let s := addRoundKey key 0 (stateOf block)
  let s := (List.range' 1 9).foldl (round key) s
  blockOf (addRoundKey key 10 (shiftRows (subBytes s)))

end Fips197
