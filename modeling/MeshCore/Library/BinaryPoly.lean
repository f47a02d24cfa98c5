import Mathlib.Algebra.Field.ZMod
import Mathlib.Data.ZMod.Basic
import Mathlib.RingTheory.AdjoinRoot
import Mathlib.Tactic.Ring

/-
  Polynomials over the field of two elements, as words of
  bits, modulo a polynomial of the degree of the word's
  width. A word stands for the sum of the powers of `x` that
  it has bits for. The modulus is given without its leading
  power.

  Key definitions include:
    * `BinaryPoly.xtimes`
    * `BinaryPoly.mul`
    * `BinaryPoly.eval`
    * `BinaryPoly.residue`

  Key rules include:
    * `BinaryPoly.mul_xor`, `BinaryPoly.xor_mul`
    * `BinaryPoly.eval_mul`
    * `BinaryPoly.residue_mul`
    * `BinaryPoly.eq_of_mul_eq_one`
-/

namespace BinaryPoly

variable {w : Nat}

------------------------------------------------------------
-- Products
------------------------------------------------------------

/- The first bits of a number, the lowest one first. -/
def natBits : Nat → Nat → List Bool
| 0, _ => []
| n + 1, k => decide (k % 2 = 1) :: natBits n (k / 2)

/- The bits of a word, from the constant term on. -/
def bits (b : BitVec w) : List Bool :=
  natBits w b.toNat

theorem natBits_eq (n k : Nat) :
    natBits n k = (List.range n).map k.testBit := by
  induction n generalizing k with
  | zero => rfl
  | succ n ih =>
      rw [natBits, ih, List.range_succ_eq_map, List.map_cons,
        List.map_map, Nat.testBit_zero]
      congr 1
      apply List.map_congr_left
      intro i _
      rw [Function.comp_apply, Nat.succ_eq_add_one,
        Nat.testBit_succ]

theorem bits_eq (b : BitVec w) :
    bits b = (List.range w).map b.getLsbD :=
  natBits_eq w b.toNat

/- Times `x`: the power that sticks out is taken off. -/
def xtimes (m b : BitVec w) : BitVec w :=
  (b <<< 1) ^^^ (if b.msb then m else 0)

/- Times the constant term, and times `x` what is left. -/
def mulBits (m a : BitVec w) : List Bool → BitVec w
| [] => 0
| bit :: rest =>
    (if bit then a else 0) ^^^ xtimes m (mulBits m a rest)

def mul (m a b : BitVec w) : BitVec w :=
  mulBits m a (bits b)

/- A sum of four, its pairs exchanged. -/
theorem xor_xor_xor_comm (a b c d : BitVec w) :
    (a ^^^ b) ^^^ (c ^^^ d) = (a ^^^ c) ^^^ (b ^^^ d) := by
  ac_rfl

theorem xtimes_xor (m a b : BitVec w) :
    xtimes m (a ^^^ b) = xtimes m a ^^^ xtimes m b := by
  have hTop :
      (if (a ^^^ b).msb then m else 0) =
        (if a.msb then m else 0) ^^^
          (if b.msb then m else 0) := by
    rw [BitVec.msb_xor]
    cases a.msb <;> cases b.msb <;> simp
  rw [xtimes, hTop, BitVec.shiftLeft_xor_distrib,
    xor_xor_xor_comm]
  rfl

/- The product distributes over the sum, on either side. -/
theorem xor_mul (m a b c : BitVec w) :
    mul m (a ^^^ b) c = mul m a c ^^^ mul m b c := by
  unfold mul
  induction bits c with
  | nil => simp [mulBits]
  | cons bit rest ih =>
      rw [mulBits, mulBits, mulBits, ih, xtimes_xor,
        xor_xor_xor_comm]
      cases bit <;> simp

theorem mul_xor (m a b c : BitVec w) :
    mul m a (b ^^^ c) = mul m a b ^^^ mul m a c := by
  unfold mul
  rw [bits_eq, bits_eq, bits_eq]
  induction List.range w with
  | nil => simp [mulBits]
  | cons i rest ih =>
      rw [List.map_cons, List.map_cons, List.map_cons,
        mulBits, mulBits, mulBits, ih, xtimes_xor,
        xor_xor_xor_comm, BitVec.getLsbD_xor]
      cases b.getLsbD i <;> cases c.getLsbD i <;> simp

------------------------------------------------------------
-- What A Word Stands For
------------------------------------------------------------

section Eval

variable {R : Type} [CommRing R]

/- The sum of the powers of `x` that there are bits for. -/
def evalBits (x : R) : List Bool → R
| [] => 0
| bit :: rest =>
    (if bit then 1 else 0) + x * evalBits x rest

def eval (x : R) (b : BitVec w) : R :=
  evalBits x (bits b)

theorem evalBits_append
    (x : R)
    (low high : List Bool) :
    evalBits x (low ++ high) =
      evalBits x low + x ^ low.length * evalBits x high := by
  induction low with
  | nil => simp [evalBits]
  | cons bit low ih =>
      rw [List.cons_append, evalBits, evalBits, ih,
        List.length_cons]
      ring

theorem eval_zero (x : R) :
    eval x (0 : BitVec w) = 0 := by
  rw [eval, bits_eq]
  induction List.range w with
  | nil => rfl
  | cons i rest ih =>
      rw [List.map_cons, evalBits, ih]
      simp

variable (hTwo : ∀ a : R, a + a = 0)
include hTwo

theorem eval_xor (x : R) (a b : BitVec w) :
    eval x (a ^^^ b) = eval x a + eval x b := by
  unfold eval
  rw [bits_eq, bits_eq, bits_eq]
  induction List.range w with
  | nil => simp [evalBits]
  | cons i rest ih =>
      have hBit :
          (if (a.getLsbD i ^^ b.getLsbD i) then (1 : R)
            else 0) =
            (if a.getLsbD i then 1 else 0) +
              (if b.getLsbD i then 1 else 0) := by
        cases a.getLsbD i <;> cases b.getLsbD i <;>
          simp [hTwo]
      rw [List.map_cons, List.map_cons, List.map_cons,
        evalBits, evalBits, evalBits, ih,
        BitVec.getLsbD_xor, hBit]
      ring

/- Times `x` is times `x`, modulo the modulus. -/
theorem eval_xtimes
    {x : R} {m : BitVec w}
    (hModulus : x ^ w = eval x m)
    (b : BitVec w) :
    eval x (xtimes m b) = x * eval x b := by
  have hTop :
      eval x (if b.msb then m else 0) =
        if b.msb then x ^ w else 0 := by
    cases b.msb with
    | true => exact hModulus.symm
    | false => exact eval_zero x
  rw [xtimes, eval_xor hTwo, hTop]
  cases w with
  | zero =>
      rw [BitVec.eq_nil b]
      simp [eval, bits, natBits, evalBits]
  | succ n =>
      have hMsb : b.msb = b.getLsbD n := by
        simp [BitVec.msb_eq_getLsbD_last]
      have hShifted :
          bits (b <<< 1) =
            false :: (List.range n).map b.getLsbD := by
        rw [bits_eq, List.range_succ_eq_map, List.map_cons,
          List.map_map]
        congr 1
        · simp
        · apply List.map_congr_left
          intro i hi
          have hInside : i + 1 < n + 1 :=
            Nat.succ_lt_succ (List.mem_range.mp hi)
          rw [Function.comp_apply,
            BitVec.getLsbD_shiftLeft,
            decide_eq_true hInside, Bool.true_and,
            decide_eq_false (Nat.not_lt.mpr
              (Nat.le_add_left 1 i)),
            Bool.not_false, Bool.true_and]
          rfl
      have hBits :
          bits b =
            (List.range n).map b.getLsbD ++
              [b.getLsbD n] := by
        rw [bits_eq, List.range_succ, List.map_append]
        rfl
      rw [eval, eval, hShifted, hBits, hMsb, evalBits,
        evalBits_append, List.length_map,
        List.length_range]
      cases b.getLsbD n with
      | true =>
          simp only [evalBits, if_true]
          simp
          ring
      | false => simp [evalBits]

theorem eval_mul
    {x : R} {m : BitVec w}
    (hModulus : x ^ w = eval x m)
    (a b : BitVec w) :
    eval x (mul m a b) = eval x a * eval x b := by
  have hRest :
      ∀ l,
        eval x (mulBits m a l) = eval x a * evalBits x l := by
    intro l
    induction l with
    | nil => rw [mulBits, eval_zero, evalBits, mul_zero]
    | cons bit rest ih =>
        have hBit :
            eval x (if bit then a else 0) =
              eval x a * (if bit then 1 else 0) := by
          cases bit with
          | true => simp
          | false =>
              exact (eval_zero x).trans (mul_zero _).symm
        rw [mulBits, eval_xor hTwo,
          eval_xtimes hTwo hModulus, ih, hBit, evalBits]
        ring
  exact hRest (bits b)

end Eval

------------------------------------------------------------
-- The Ring Of The Words
------------------------------------------------------------

open Polynomial

section Ring

/- The polynomial itself, that a word has the bits of. -/
noncomputable def poly (b : BitVec w) : (ZMod 2)[X] :=
  eval X b

/- The modulus, with its leading power. -/
noncomputable def modulus (m : BitVec w) : (ZMod 2)[X] :=
  X ^ w + poly m

theorem coeff_poly (b : BitVec w) (i : Nat) :
    (poly b).coeff i = if b.getLsbD i then 1 else 0 := by
  have hBits :
      ∀ (l : List Bool) (i : Nat),
        (evalBits (X : (ZMod 2)[X]) l).coeff i =
          if l.getD i false then 1 else 0 := by
    intro l
    induction l with
    | nil => simp [evalBits]
    | cons bit rest ih =>
        intro i
        cases i with
        | zero => cases bit <;> simp [evalBits]
        | succ i => cases bit <;> simp [evalBits, ih, coeff_one]
  have hBit :
      (bits b).getD i false = b.getLsbD i := by
    rw [bits_eq, List.getD_eq_getElem?_getD,
      List.getElem?_map]
    by_cases hi : i < w
    · rw [List.getElem?_range hi]
      rfl
    · rw [List.getElem?_eq_none (by simpa using hi),
        BitVec.getLsbD_of_ge b i (Nat.le_of_not_lt hi)]
      rfl
  rw [poly, eval, hBits, hBit]

theorem poly_injective
    {a b : BitVec w}
    (hSame : poly a = poly b) :
    a = b := by
  apply BitVec.eq_of_getLsbD_eq
  intro i hi
  have hCoeff := congrArg (fun p => p.coeff i) hSame
  simp only [coeff_poly] at hCoeff
  cases hA : a.getLsbD i <;> cases hB : b.getLsbD i <;>
    simp [hA, hB] at hCoeff ⊢

theorem degree_poly_lt (b : BitVec w) :
    (poly b).degree < w := by
  rw [degree_lt_iff_coeff_zero]
  intro i hi
  rw [coeff_poly, BitVec.getLsbD_of_ge b i hi]
  rfl

theorem modulus_monic (m : BitVec w) :
    (modulus m).Monic :=
  monic_X_pow_add (degree_poly_lt m)

theorem degree_modulus (m : BitVec w) :
    (modulus m).degree = w := by
  have hLess :
      (poly m).degree < (X ^ w : (ZMod 2)[X]).degree := by
    rw [degree_X_pow]
    exact degree_poly_lt m
  rw [modulus, degree_add_eq_left_of_degree_lt hLess,
    degree_X_pow]

/- A word as a polynomial modulo the modulus. -/
noncomputable def residue (m b : BitVec w) :
    AdjoinRoot (modulus m) :=
  eval (AdjoinRoot.root (modulus m)) b

theorem residue_eq_mk (m b : BitVec w) :
    residue m b = AdjoinRoot.mk (modulus m) (poly b) := by
  have hBits :
      ∀ l,
        evalBits (AdjoinRoot.root (modulus m)) l =
          AdjoinRoot.mk (modulus m) (evalBits X l) := by
    intro l
    induction l with
    | nil => exact (map_zero _).symm
    | cons bit rest ih =>
        rw [evalBits, evalBits, ih, map_add, map_mul,
          AdjoinRoot.mk_X]
        cases bit <;> simp
  exact hBits (bits b)

theorem residue_add_self
    {m : BitVec w}
    (a : AdjoinRoot (modulus m)) :
    a + a = 0 := by
  have hTwo : (2 : ZMod 2) = 0 := by decide
  rw [← two_smul (ZMod 2) a, hTwo, zero_smul]

theorem root_pow (m : BitVec w) :
    AdjoinRoot.root (modulus m) ^ w = residue m m := by
  have hZero : AdjoinRoot.mk (modulus m) (modulus m) = 0 :=
    AdjoinRoot.mk_self
  have hSum :
      AdjoinRoot.root (modulus m) ^ w + residue m m = 0 := by
    rw [residue_eq_mk, ← AdjoinRoot.mk_X, ← map_pow,
      ← map_add]
    exact hZero
  calc
    AdjoinRoot.root (modulus m) ^ w =
        AdjoinRoot.root (modulus m) ^ w +
          (residue m m + residue m m) := by
      rw [residue_add_self, add_zero]
    _ = residue m m := by
      rw [← add_assoc, hSum, zero_add]

/- The words multiply as the polynomials do. -/
theorem residue_mul (m a b : BitVec w) :
    residue m (mul m a b) = residue m a * residue m b :=
  eval_mul residue_add_self (root_pow m) a b

/- No two words are one polynomial modulo the modulus. -/
theorem residue_injective
    {m a b : BitVec w}
    (hSame : residue m a = residue m b) :
    a = b := by
  apply poly_injective
  rw [residue_eq_mk, residue_eq_mk, AdjoinRoot.mk_eq_mk]
    at hSame
  by_contra hOther
  apply (modulus_monic m).not_dvd_of_degree_lt
    (sub_ne_zero.mpr hOther) ?_ hSame
  rw [degree_modulus]
  exact (degree_sub_le _ _).trans_lt
    (max_lt (degree_poly_lt a) (degree_poly_lt b))

theorem residue_one (m : BitVec (w + 1)) :
    residue m 1 = 1 := by
  have hPoly : poly (1 : BitVec (w + 1)) = 1 := by
    ext i
    rw [coeff_poly, coeff_one]
    cases i with
    | zero => simp
    | succ i => simp
  rw [residue_eq_mk, hPoly, map_one]

theorem mul_exchange (m a b : BitVec w) :
    mul m a b = mul m b a := by
  apply residue_injective
  rw [residue_mul, residue_mul, mul_comm]

theorem mul_regroup (m a b c : BitVec w) :
    mul m (mul m a b) c = mul m a (mul m b c) := by
  apply residue_injective
  rw [residue_mul, residue_mul, residue_mul, residue_mul,
    mul_assoc]

/- A word has one inverse at most. -/
theorem eq_of_mul_eq_one
    {m a b c : BitVec w}
    (hB : mul m a b = 1)
    (hC : mul m a c = 1) :
    b = c := by
  cases w with
  | zero => rw [BitVec.eq_nil b, BitVec.eq_nil c]
  | succ w =>
      have hB' := congrArg (residue m) hB
      have hC' := congrArg (residue m) hC
      rw [residue_mul, residue_one] at hB' hC'
      apply residue_injective
      calc
        residue m b =
            residue m b * (residue m a * residue m c) := by
          rw [hC', mul_one]
        _ = residue m a * residue m b * residue m c := by
          ring
        _ = residue m c := by
          rw [hB', one_mul]

end Ring

end BinaryPoly
