import Mathlib.Data.List.TakeWhile
import MeshCore.Platform.Config

/-
  How the C library reads a hexadecimal number of a text:
  `%x` and `%2x` pass over white space, a sign and a `0x`,
  and leave alone what follows the digits.

  Key definitions include:
    * `Platform.isXDigit`, `Platform.hexValue`
    * `Platform.hexParts`, `Platform.strtoul`
    * `Platform.sscanfX`, `Platform.sscanf2X`
    * `Platform.opensHex`

  Key facts include:
    * `Platform.sscanf2X_digits`
    * `Platform.sscanf2X_isSome_iff`
    * `Platform.sscanfX_digits`
-/

namespace MeshCore.Platform

------------------------------------------------------------
-- Digits
------------------------------------------------------------

def isXDigit (b : UInt8) : Bool :=
  isDigit b ∨ (97 ≤ b ∧ b ≤ 102) ∨ (65 ≤ b ∧ b ≤ 70)

def xDigitValue (b : UInt8) : Nat :=
  if b ≤ 57 then b.toNat - 48
  else if b ≤ 70 then b.toNat - 55
  else b.toNat - 87

/- The number spelt by some hexadecimal digits. -/
def hexValue (digits : Bytes) : Nat :=
  digits.foldl (fun n b => n * 16 + xDigitValue b) 0

def isSign (b : UInt8) : Bool :=
  b = 0x2B ∨ b = 0x2D

def isX (b : UInt8) : Bool :=
  b = 0x78 ∨ b = 0x58

/- What a digit is not. -/
theorem of_isXDigit
    {b : UInt8}
    (hDigit : isXDigit b) :
    b ≠ 0 ∧ isSpace b = false ∧ isSign b = false ∧
      isX b = false ∧ xDigitValue b < 16 := by
  revert b
  apply forall_byte
  decide +kernel

theorem ne_sign_of_isXDigit
    {b : UInt8}
    (hDigit : isXDigit b) :
    b ≠ 0x2D ∧ b ≠ 0x2B := by
  have hNot := (of_isXDigit hDigit).2.2.1
  constructor
  · rintro rfl
    exact absurd hNot (by decide)
  · rintro rfl
    exact absurd hNot (by decide)

theorem hexValue_pair (a b : UInt8) :
    hexValue [a, b] = xDigitValue a * 16 + xDigitValue b := by
  simp [hexValue]

------------------------------------------------------------
-- Scanning
------------------------------------------------------------

/- Whether a minus stands in front, and what follows. -/
def takeSign : Bytes → Bool × Bytes
| 0x2D :: rest => (true, rest)
| 0x2B :: rest => (false, rest)
| rest => (false, rest)

/- A `0x` is passed over, and then asks for a digit. -/
def skipBase : Bytes → Bytes
| 0x30 :: x :: more =>
    if isX x then more else 0x30 :: x :: more
| rest => rest

/- The sign and the digits that a number begins with. -/
def hexParts (text : Bytes) : Bool × Bytes :=
  let (negative, rest) := takeSign text
  (negative, (skipBase rest).takeWhile isXDigit)

/- In 64 bits; what is too large is the largest of them. -/
def strtoul (negative : Bool) (digits : Bytes) : UInt64 :=
  if 2 ^ 64 ≤ hexValue digits then UInt64.ofNat (2 ^ 64 - 1)
  else if negative then -UInt64.ofNat (hexValue digits)
  else UInt64.ofNat (hexValue digits)

/- What is stored in an `unsigned`, if there is a number. -/
def scanHex (field : Bytes) : Option UInt32 :=
  let (negative, digits) := hexParts field
  if digits = [] then none
  else some (strtoul negative digits).toUInt32

/- `%x`. -/
def sscanfX (text : Bytes) : Option UInt32 :=
  scanHex ((cString text).dropWhile isSpace)

/- `%2x`: two characters at most, past the white space. -/
def sscanf2X (text : Bytes) : Option UInt32 :=
  scanHex (((cString text).dropWhile isSpace).take 2)

theorem takeSign_of_not
    {a : UInt8} {more : Bytes}
    (hSign : isSign a = false) :
    takeSign (a :: more) = (false, a :: more) := by
  unfold takeSign
  split
  · rename_i hEq
    rw [(List.cons.inj hEq).1] at hSign
    exact absurd hSign (by decide)
  · rename_i hEq
    rw [(List.cons.inj hEq).1] at hSign
    exact absurd hSign (by decide)
  · rfl

theorem takeSign_of_sign
    {a : UInt8} {more : Bytes}
    (hSign : isSign a) :
    (takeSign (a :: more)).2 = more := by
  unfold isSign at hSign
  rw [decide_eq_true_eq] at hSign
  rcases hSign with rfl | rfl
  · rfl
  · rfl

theorem skipBase_of_not
    {a b : UInt8} {more : Bytes}
    (hBase : ¬ (a = 0x30 ∧ isX b)) :
    skipBase (a :: b :: more) = a :: b :: more := by
  unfold skipBase
  split
  · rename_i hEq
    rcases List.cons.inj hEq with ⟨hZero, hEq⟩
    rcases List.cons.inj hEq with ⟨rfl, rfl⟩
    rw [if_neg fun hX => hBase ⟨hZero, hX⟩, hZero]
  · rfl

theorem skipBase_single (a : UInt8) :
    skipBase [a] = [a] := by
  unfold skipBase
  split
  · rename_i hEq
    simp at hEq
  · rfl

------------------------------------------------------------
-- Two Characters
------------------------------------------------------------

/-
  Whether a number is read of two characters: past white
  space there is a digit, or a sign and a digit. A `0x`
  alone is no number.
-/
def opensHex (text : Bytes) : Bool :=
  match (cString text).dropWhile isSpace with
  | [] => false
  | [a] => isXDigit a
  | a :: b :: _ =>
      if isSign a then isXDigit b
      else isXDigit a ∧ ¬ (a = 0x30 ∧ isX b)

theorem scanHex_isSome (field : Bytes) :
    (scanHex field).isSome ↔ (hexParts field).2 ≠ [] := by
  unfold scanHex
  dsimp only
  split
  · simp [*]
  · simp [*]

theorem takeWhile_ne_nil_iff
    {a : UInt8} {more : Bytes} :
    (a :: more).takeWhile isXDigit ≠ [] ↔ isXDigit a := by
  rw [List.takeWhile_cons]
  split
  · simp [*]
  · simp [*]

theorem sscanf2X_isSome_iff (text : Bytes) :
    (sscanf2X text).isSome ↔ opensHex text := by
  rw [sscanf2X, scanHex_isSome]
  unfold opensHex
  generalize (cString text).dropWhile isSpace = field
  match field with
  | [] => simp [hexParts, takeSign, skipBase]
  | [a] =>
      by_cases hSign : isSign a
      · have hNot : ¬ isXDigit a := by
          intro hDigit
          rw [(of_isXDigit hDigit).2.2.1] at hSign
          contradiction
        have hEmpty : skipBase [] = [] := rfl
        rw [hexParts, List.take_cons (by omega)]
        simp [takeSign_of_sign hSign, hEmpty, hNot]
      · rw [Bool.not_eq_true] at hSign
        rw [hexParts, List.take_cons (by omega),
          List.take_nil, takeSign_of_not hSign]
        dsimp only
        rw [skipBase_single, takeWhile_ne_nil_iff]
  | a :: b :: more =>
      have hTwo : (a :: b :: more).take 2 = [a, b] := rfl
      rw [hTwo, hexParts]
      by_cases hSign : isSign a
      · dsimp only
        rw [takeSign_of_sign hSign, skipBase_single,
          takeWhile_ne_nil_iff, if_pos hSign]
      · dsimp only
        rw [if_neg hSign]
        rw [Bool.not_eq_true] at hSign
        rw [takeSign_of_not hSign]
        dsimp only
        by_cases hBase : a = 0x30 ∧ isX b
        · rcases hBase with ⟨rfl, hX⟩
          simp [skipBase, hX]
        · rw [skipBase_of_not hBase, takeWhile_ne_nil_iff]
          simp [hBase]

/- Two digits are read as the byte they spell. -/
theorem sscanf2X_digits
    {a b : UInt8} {more : Bytes}
    (hFirst : isXDigit a)
    (hSecond : isXDigit b) :
    sscanf2X (a :: b :: more) =
      some
        (UInt32.ofNat
          (xDigitValue a * 16 + xDigitValue b)) := by
  rcases of_isXDigit hFirst with
    ⟨hA, hSpace, hSign, _, hALess⟩
  rcases of_isXDigit hSecond with ⟨hB, _, _, hX, hBLess⟩
  have hString :
      cString (a :: b :: more) = a :: b :: cString more := by
    simp [cString, hA, hB]
  have hField :
      ((cString (a :: b :: more)).dropWhile isSpace).take 2 =
        [a, b] := by
    rw [hString, List.dropWhile_cons_of_neg (by simp [hSpace])]
    rfl
  have hParts : hexParts [a, b] = (false, [a, b]) := by
    rw [hexParts, takeSign_of_not hSign]
    dsimp only
    rw [skipBase_of_not (by simp [hX]),
      List.takeWhile_cons_of_pos hFirst,
      List.takeWhile_cons_of_pos hSecond,
      List.takeWhile_nil]
  rw [sscanf2X, hField, scanHex, hParts]
  dsimp only
  rw [if_neg (by simp), strtoul, hexValue_pair,
    if_neg (by omega), if_neg (by simp)]
  exact congrArg some (UInt64.toUInt32_ofNat' _)

------------------------------------------------------------
-- A Whole Text
------------------------------------------------------------

theorem cString_of_digits
    {digits : Bytes}
    (hDigits : digits.all isXDigit) :
    cString digits = digits := by
  rw [cString, List.takeWhile_eq_self_iff]
  intro b hb
  rw [List.all_eq_true] at hDigits
  simpa using (of_isXDigit (hDigits b hb)).1

/- A text of one or two digits is its own number. -/
theorem hexParts_digits
    {digits : Bytes}
    (hDigits : digits.all isXDigit)
    (hLength : digits.length = 1 ∨ digits.length = 2) :
    digits.dropWhile isSpace = digits ∧
      hexParts digits = (false, digits) := by
  have hWhile : digits.takeWhile isXDigit = digits := by
    rw [List.takeWhile_eq_self_iff]
    exact List.all_eq_true.mp hDigits
  match digits with
  | [] => simp at hLength
  | [a] =>
      have hA : isXDigit a := by simpa using hDigits
      rcases of_isXDigit hA with ⟨_, hSpace, hSign, _, _⟩
      refine ⟨List.dropWhile_cons_of_neg (by simp [hSpace]),
        ?_⟩
      rw [hexParts, takeSign_of_not hSign]
      dsimp only
      rw [skipBase_single, hWhile]
  | [a, b] =>
      have hBoth : isXDigit a ∧ isXDigit b := by
        simpa using hDigits
      rcases of_isXDigit hBoth.1 with
        ⟨_, hSpace, hSign, _, _⟩
      have hX := (of_isXDigit hBoth.2).2.2.2.1
      refine ⟨List.dropWhile_cons_of_neg (by simp [hSpace]),
        ?_⟩
      rw [hexParts, takeSign_of_not hSign]
      dsimp only
      rw [skipBase_of_not (by simp [hX]), hWhile]
  | _ :: _ :: _ :: _ => simp at hLength

theorem hexValue_lt
    {digits : Bytes}
    (hDigits : digits.all isXDigit)
    (hLength : digits.length = 1 ∨ digits.length = 2) :
    hexValue digits < 256 := by
  match digits with
  | [] => simp at hLength
  | [a] =>
      have hA : isXDigit a := by simpa using hDigits
      have hLess := (of_isXDigit hA).2.2.2.2
      simp only [hexValue, List.foldl_cons, List.foldl_nil]
      omega
  | [a, b] =>
      have hBoth : isXDigit a ∧ isXDigit b := by
        simpa using hDigits
      have hALess := (of_isXDigit hBoth.1).2.2.2.2
      have hBLess := (of_isXDigit hBoth.2).2.2.2.2
      rw [hexValue_pair]
      omega
  | _ :: _ :: _ :: _ => simp at hLength

theorem scanHex_of_parts
    {field digits : Bytes}
    (hParts : hexParts field = (false, digits))
    (hDigits : digits.all isXDigit)
    (hLength : digits.length = 1 ∨ digits.length = 2) :
    scanHex field =
      some (UInt32.ofNat (hexValue digits)) := by
  have hSome : digits ≠ [] := by
    rintro rfl
    simp at hLength
  have hLess := hexValue_lt hDigits hLength
  rw [scanHex, hParts]
  dsimp only
  rw [if_neg hSome, strtoul, if_neg (by omega),
    if_neg (by simp)]
  exact congrArg some (UInt64.toUInt32_ofNat' _)

/- They are read alike without a `0x` and with one. -/
theorem sscanfX_digits
    {digits : Bytes}
    (hDigits : digits.all isXDigit)
    (hLength : digits.length = 1 ∨ digits.length = 2) :
    sscanfX digits =
        some (UInt32.ofNat (hexValue digits)) ∧
      sscanfX (0x30 :: 0x78 :: digits) =
        some (UInt32.ofNat (hexValue digits)) := by
  have hWhile : digits.takeWhile isXDigit = digits := by
    rw [List.takeWhile_eq_self_iff]
    exact List.all_eq_true.mp hDigits
  rcases hexParts_digits hDigits hLength with
    ⟨hField, hParts⟩
  have hString := cString_of_digits hDigits
  constructor
  · rw [sscanfX, hString, hField]
    exact scanHex_of_parts hParts hDigits hLength
  · have hBase :
        hexParts (0x30 :: 0x78 :: digits) =
          (false, digits) := by
      rw [hexParts, takeSign_of_not (by decide)]
      dsimp only
      rw [skipBase, if_pos (by decide), hWhile]
    have hBehind :
        cString (0x30 :: 0x78 :: digits) =
          0x30 :: 0x78 :: digits := by
      rw [cString, List.takeWhile_cons_of_pos (by decide),
        List.takeWhile_cons_of_pos (by decide)]
      exact congrArg (0x30 :: 0x78 :: ·) hString
    rw [sscanfX, hBehind,
      List.dropWhile_cons_of_neg (by decide)]
    exact scanHex_of_parts hBase hDigits hLength

end MeshCore.Platform
