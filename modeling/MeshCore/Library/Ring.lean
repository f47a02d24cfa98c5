import Mathlib.Data.List.Induction
import Mathlib.Data.List.GetD
import Mathlib.Order.WellFounded

/-
  A ring that overwrites its oldest slot, and the window of
  writes that is still in it.

  Key definitions include:
    * `RingBuffer`
    * `RingBuffer.write`
    * `RingBuffer.ofWrites`

  Key facts include:
    * `RingBuffer.slot_of_recent`
    * `RingBuffer.recent_of_slot`
    * `RingBuffer.find_eq_some_iff`
    * `RingBuffer.find_eq_none_iff`
-/

/- Slots, and the index the next write goes to. -/
structure RingBuffer (α : Type) where
  slots : List α
  cursor : Nat

namespace RingBuffer

variable {α : Type}

/- A ring of `n` equal slots. -/
def blank (n : Nat) (a : α) : RingBuffer α :=
  { slots := List.replicate n a
    cursor := 0 }

/- Overwrite the slot under the cursor and move on. -/
def write (r : RingBuffer α) (a : α) : RingBuffer α :=
  { slots := r.slots.set r.cursor a
    cursor := (r.cursor + 1) % r.slots.length }

/- The ring after the given writes, oldest first. -/
def ofWrites (n : Nat) (a : α) (ws : List α) : RingBuffer α :=
  ws.foldl write (blank n a)

@[simp] theorem length_write (r : RingBuffer α) (a : α) :
    (r.write a).slots.length = r.slots.length := by
  simp [write]

@[simp] theorem ofWrites_nil (n : Nat) (a : α) :
    ofWrites n a [] = blank n a :=
  rfl

@[simp] theorem ofWrites_append_singleton
    (n : Nat) (a w : α) (ws : List α) :
    ofWrites n a (ws ++ [w]) =
      (ofWrites n a ws).write w := by
  simp [ofWrites]

@[simp] theorem length_ofWrites
    (n : Nat) (a : α) (ws : List α) :
    (ofWrites n a ws).slots.length = n := by
  induction ws using List.reverseRecOn with
  | nil => simp [blank]
  | append_singleton ws w ih => simp [ih]

/- The cursor counts the writes modulo the size. -/
theorem cursor_ofWrites
    (n : Nat) (a : α) (ws : List α) :
    (ofWrites n a ws).cursor = ws.length % n := by
  induction ws using List.reverseRecOn with
  | nil => simp [blank]
  | append_singleton ws w ih =>
      simp [write, ih]

/- Two indices less than one turn apart do not share a slot. -/
theorem mod_ne_of_near
    {n a b : Nat}
    (hLess : a < b)
    (hNear : b < a + n) :
    a % n ≠ b % n := by
  intro hEq
  have hDvd : n ∣ b - a :=
    Nat.dvd_of_mod_eq_zero
      (Nat.sub_mod_eq_zero_of_mod_eq hEq.symm)
  have := Nat.le_of_dvd (by omega) hDvd
  omega

/-
  Write number `i` is still in its slot as long as fewer
  than `n` writes came after it.
-/
theorem slot_of_recent
    {n : Nat} (hn : 0 < n) (a : α) (ws : List α)
    {i : Nat}
    (hi : i < ws.length)
    (hRecent : ws.length ≤ i + n) :
    (ofWrites n a ws).slots[i % n]? = some ws[i] := by
  induction ws using List.reverseRecOn with
  | nil => simp at hi
  | append_singleton ws w ih =>
      simp only [List.length_append,
        List.length_singleton] at hi hRecent
      have hLt : i % n < n := Nat.mod_lt i hn
      rw [ofWrites_append_singleton, write,
        List.getElem?_set, cursor_ofWrites]
      by_cases hLast : i = ws.length
      · subst hLast
        simp [hLt]
      · have hOld : i < ws.length := by omega
        -- the newest write lands elsewhere: the distance
        -- between the two is less than one turn
        have hApart : i % n ≠ ws.length % n :=
          mod_ne_of_near hOld (by omega)
        rw [if_neg hApart.symm, ih hOld (by omega)]
        simp [List.getElem_append_left hOld]

/-
  Every slot is blank or holds one of the last `n` writes,
  at the index that write was assigned.
-/
theorem recent_of_slot
    {n : Nat} (hn : 0 < n) (a : α) (ws : List α)
    {j : Nat}
    (hj : j < n) :
    (ofWrites n a ws).slots[j]? = some a ∨
      ∃ i, i < ws.length ∧ ws.length ≤ i + n ∧
        i % n = j := by
  by_cases hFew : ws.length ≤ j
  · left
    induction ws using List.reverseRecOn with
    | nil => simp [blank, hj]
    | append_singleton ws w ih =>
        simp only [List.length_append,
          List.length_singleton] at hFew
        have hMod : ws.length % n = ws.length :=
          Nat.mod_eq_of_lt (by omega)
        rw [ofWrites_append_singleton, write,
          List.getElem?_set, cursor_ofWrites, hMod,
          if_neg (by omega)]
        exact ih (by omega)
  · right
    have hMany : j < ws.length := by omega
    -- the largest index congruent to `j` below the length
    refine ⟨ws.length - 1 - (ws.length - 1 - j) % n,
      ?_, ?_, ?_⟩
    · omega
    · have := Nat.mod_lt (ws.length - 1 - j) hn
      omega
    · have hLe :
          (ws.length - 1 - j) % n ≤ ws.length - 1 - j :=
        Nat.mod_le _ _
      have hDecomp :=
        Nat.mod_add_div (ws.length - 1 - j) n
      have hEq :
          ws.length - 1 - (ws.length - 1 - j) % n =
            j + n * ((ws.length - 1 - j) / n) := by
        omega
      rw [hEq, Nat.add_mul_mod_self_left,
        Nat.mod_eq_of_lt hj]

------------------------------------------------------------
-- Searching
------------------------------------------------------------

/- Write number `i` is among the last `n`. -/
def Recent (n : Nat) (ws : List α) (i : Nat) : Prop :=
  i < ws.length ∧ ws.length ≤ i + n

/- In a ring of one slot only the last write is recent. -/
theorem recent_one_iff (ws : List α) (i : Nat) :
    Recent 1 ws i ↔ i + 1 = ws.length := by
  unfold Recent
  omega

/- Among indices of a kind, one is in the lowest slot. -/
theorem exists_lowest
    (n : Nat)
    {P : Nat → Prop}
    (hSome : ∃ i, P i) :
    ∃ i, P i ∧ ∀ k, P k → i % n ≤ k % n := by
  rcases WellFounded.has_min (measure (· % n)).wf
      {i | P i} hSome with
    ⟨i, hi, hLeast⟩
  exact ⟨i, hi, fun k hk =>
    Nat.le_of_not_lt (hLeast k hk)⟩

/- Two recent writes do not share a slot. -/
theorem Recent.eq_of_slot
    {n : Nat}
    {ws : List α}
    {i j : Nat}
    (hi : Recent n ws i)
    (hj : Recent n ws j)
    (hSlot : i % n = j % n) :
    i = j := by
  rcases hi with ⟨hi, hiRecent⟩
  rcases hj with ⟨hj, hjRecent⟩
  rcases Nat.lt_trichotomy i j with hLt | hEq | hGt
  · exact absurd hSlot (mod_ne_of_near hLt (by omega))
  · exact hEq
  · exact absurd hSlot.symm (mod_ne_of_near hGt (by omega))

/- A list with a hit has a last one. -/
theorem exists_last
    {p : α → Prop}
    {l : List α}
    (hSome : ∃ a ∈ l, p a) :
    ∃ before a after,
      l = before ++ a :: after ∧ p a ∧
        ∀ b ∈ after, ¬ p b := by
  induction l using List.reverseRecOn with
  | nil => simp at hSome
  | append_singleton l b ih =>
      by_cases hb : p b
      · exact ⟨l, b, [], rfl, hb, by simp⟩
      · have hOther : ∃ a ∈ l, p a := by
          rcases hSome with ⟨a, ha, hpa⟩
          rcases List.mem_append.mp ha with ha | ha
          · exact ⟨a, ha, hpa⟩
          · rw [List.mem_singleton.mp ha] at hpa
            contradiction
        rcases ih hOther with
          ⟨before, a, after, rfl, hpa, hAfter⟩
        refine ⟨before, a, after ++ [b], by simp, hpa, ?_⟩
        intro c hc
        rcases List.mem_append.mp hc with hc | hc
        · exact hAfter c hc
        · rw [List.mem_singleton.mp hc]
          exact hb

/-
  A search that skips blank slots finds, among the recent
  writes it looks for, the one in the lowest slot. That need
  be neither the oldest nor the newest.
-/
theorem find_eq_some_iff
    {n : Nat} (hn : 0 < n) (a : α) (ws : List α)
    {p : α → Bool}
    (hBlank : p a = false)
    {w : α} :
    (ofWrites n a ws).slots.find? p = some w ↔
      p w = true ∧
        ∃ i, Recent n ws i ∧ ws[i]? = some w ∧
          ∀ k v, Recent n ws k → ws[k]? = some v →
            p v = true → i % n ≤ k % n := by
  rw [List.find?_eq_some_iff_getElem]
  apply and_congr_right
  intro hw
  constructor
  · rintro ⟨j, hj, hSlot, hFirst⟩
    have hjn : j < n := by simpa using hj
    rcases recent_of_slot hn a ws hjn with
      hBlankSlot | ⟨i, hi, hRecent, rfl⟩
    · rw [List.getElem?_eq_getElem hj, hSlot,
        Option.some.injEq] at hBlankSlot
      rw [hBlankSlot, hBlank] at hw
      contradiction
    · have hHeld := slot_of_recent hn a ws hi hRecent
      rw [List.getElem?_eq_getElem hj, hSlot] at hHeld
      refine ⟨i, ⟨hi, hRecent⟩, ?_, ?_⟩
      · rw [List.getElem?_eq_getElem hi, hHeld]
      · rintro k v ⟨hk, hkRecent⟩ hv hpv
        by_contra hLess
        have hOther := slot_of_recent hn a ws hk hkRecent
        have hMiss := hFirst (k % n) (by omega)
        rw [List.getElem?_eq_getElem hk,
          Option.some.injEq] at hv
        rw [List.getElem?_eq_getElem (by omega),
          Option.some.injEq] at hOther
        rw [hOther, hv, hpv] at hMiss
        contradiction
  · rintro ⟨i, ⟨hi, hRecent⟩, hwi, hLeast⟩
    have hLt : i % n < n := Nat.mod_lt i hn
    have hHeld := slot_of_recent hn a ws hi hRecent
    refine ⟨i % n, by simpa using hLt, ?_, ?_⟩
    · rw [List.getElem?_eq_getElem (by simpa using hLt),
        Option.some.injEq] at hHeld
      rw [hHeld, ← Option.some.injEq, ← hwi,
        List.getElem?_eq_getElem hi]
    · intro j hj
      rw [Bool.not_eq_true']
      by_contra hHit
      rw [Bool.not_eq_false] at hHit
      rcases recent_of_slot hn a ws
          (show j < n by omega) with
        hBlankSlot | ⟨k, hk, hkRecent, hMod⟩
      · rw [List.getElem?_eq_getElem (by simp; omega),
          Option.some.injEq] at hBlankSlot
        rw [hBlankSlot, hBlank] at hHit
        contradiction
      · have hOther := slot_of_recent hn a ws hk hkRecent
        simp only [hMod] at hOther
        rw [List.getElem?_eq_getElem (by simp; omega),
          Option.some.injEq] at hOther
        have := hLeast k ws[k] ⟨hk, hkRecent⟩
          (List.getElem?_eq_getElem hk) (hOther ▸ hHit)
        omega

/- It finds nothing if no recent write is looked for. -/
theorem find_eq_none_iff
    {n : Nat} (hn : 0 < n) (a : α) (ws : List α)
    {p : α → Bool}
    (hBlank : p a = false) :
    (ofWrites n a ws).slots.find? p = none ↔
      ∀ i w, Recent n ws i → ws[i]? = some w →
        p w = false := by
  rw [List.find?_eq_none]
  constructor
  · rintro hNone i w ⟨hi, hRecent⟩ hw
    have hHeld := slot_of_recent hn a ws hi hRecent
    have hMem := List.mem_of_getElem? hHeld
    rw [List.getElem?_eq_getElem hi,
      Option.some.injEq] at hw
    simpa [hw] using hNone _ hMem
  · intro hAll x hx
    rcases List.getElem_of_mem hx with ⟨j, hj, rfl⟩
    have hjn : j < n := by simpa using hj
    rcases recent_of_slot hn a ws hjn with
      hBlankSlot | ⟨i, hi, hRecent, rfl⟩
    · rw [List.getElem?_eq_getElem hj,
        Option.some.injEq] at hBlankSlot
      simp [hBlankSlot, hBlank]
    · have hHeld := slot_of_recent hn a ws hi hRecent
      rw [List.getElem?_eq_getElem hj,
        Option.some.injEq] at hHeld
      rw [hHeld, hAll i ws[i] ⟨hi, hRecent⟩
        (List.getElem?_eq_getElem hi)]
      simp
end RingBuffer
