import Mathlib.Data.List.Rotate
import Mathlib.Data.Nat.ModEq

/-
  A queue of a fixed capacity in a ring of slots, and the
  list of what waits in it.

  Key definitions include:
    * `RingQueue`
    * `RingQueue.push`, `RingQueue.pop`
    * `RingQueue.waiting`

  Key facts include:
    * `RingQueue.push_eq_none_iff`
    * `RingQueue.waiting_of_push`
    * `RingQueue.pop_eq_none_iff`
    * `RingQueue.waiting_of_pop`
-/

/-
  A ring of slots, the slot of the oldest element, and how
  many are taken from there on.
-/
structure RingQueue (α : Type) where
  ring : List α
  head : Nat
  count : Nat
  head_lt : head < ring.length
  count_le : count ≤ ring.length
deriving DecidableEq

namespace RingQueue

variable {α : Type}

/- Nothing waits in a ring of `n + 1` equal slots. -/
def blank (n : Nat) (a : α) : RingQueue α :=
  { ring := List.replicate (n + 1) a
    head := 0
    count := 0
    head_lt := by simp
    count_le := by simp }

/- Take the slot behind the last one, if one is left. -/
def push (q : RingQueue α) (a : α) : Option (RingQueue α) :=
  if hFull : q.count = q.ring.length then none
  else
    some
      { ring :=
          q.ring.set ((q.head + q.count) % q.ring.length) a
        head := q.head
        count := q.count + 1
        head_lt := by
          rw [List.length_set]
          exact q.head_lt
        count_le := by
          have := q.count_le
          rw [List.length_set]
          omega }

/- Give the oldest element back and free its slot. -/
def pop (q : RingQueue α) : Option (α × RingQueue α) :=
  if q.count = 0 then none
  else
    some
      (q.ring.get ⟨q.head, q.head_lt⟩,
        { ring := q.ring
          head := (q.head + 1) % q.ring.length
          count := q.count - 1
          head_lt :=
            Nat.mod_lt _ (Nat.zero_lt_of_lt q.head_lt)
          count_le := by
            have := q.count_le
            omega })

/- What waits, oldest first. -/
def waiting (q : RingQueue α) : List α :=
  (q.ring.rotate q.head).take q.count

@[simp] theorem waiting_blank (n : Nat) (a : α) :
    (blank n a).waiting = [] := by
  simp [waiting, blank]

@[simp] theorem length_waiting (q : RingQueue α) :
    q.waiting.length = q.count := by
  rw [waiting, List.length_take, List.length_rotate]
  exact Nat.min_eq_left q.count_le

------------------------------------------------------------
-- Putting In
------------------------------------------------------------

/- A slot of the ring, counted from the oldest element. -/
theorem rotate_set
    {ring : List α}
    {head i : Nat}
    (hSlot : i < ring.length)
    (a : α) :
    (ring.set ((head + i) % ring.length) a).rotate head =
      (ring.rotate head).set i a := by
  apply List.ext_getElem?
  intro j
  by_cases hj : j < ring.length
  · rw [List.getElem?_rotate (by simpa using hj),
      List.length_set, List.getElem?_set, List.getElem?_set,
      List.getElem?_rotate hj]
    have hMod : (j + head) % ring.length < ring.length :=
      Nat.mod_lt _ (by omega)
    -- one turn of the ring has no slot twice
    have hSame :
        (head + i) % ring.length =
            (j + head) % ring.length ↔ i = j := by
      rw [Nat.add_comm j head]
      constructor
      · intro hEq
        have hCong : Nat.ModEq ring.length i j :=
          Nat.ModEq.add_left_cancel' head hEq
        exact hCong.eq_of_lt_of_lt hSlot hj
      · rintro rfl
        rfl
    by_cases hij : i = j
    · rw [if_pos (hSame.mpr hij), if_pos hij, if_pos, if_pos]
      · simpa using hSlot
      · rw [hSame.mpr hij]
        exact hMod
    · rw [if_neg (mt hSame.mp hij), if_neg hij]
  · rw [List.getElem?_eq_none (by simpa using hj),
      List.getElem?_eq_none (by simpa using hj)]

/- A push is refused when every slot is taken. -/
theorem push_eq_none_iff {q : RingQueue α} {a : α} :
    q.push a = none ↔ q.waiting.length = q.ring.length := by
  rw [length_waiting]
  unfold push
  split
  · simp [*]
  · simp [*]

/- What is pushed waits behind all the others. -/
theorem waiting_of_push
    {q q' : RingQueue α} {a : α}
    (hPush : q.push a = some q') :
    q'.waiting = q.waiting ++ [a] ∧
      q'.ring.length = q.ring.length := by
  unfold push at hPush
  split at hPush
  · contradiction
  · rename_i hRoom
    have hSlot : q.count < q.ring.length :=
      Nat.lt_of_le_of_ne q.count_le hRoom
    rw [Option.some.injEq] at hPush
    subst hPush
    constructor
    · simp only [waiting]
      rw [rotate_set hSlot, List.take_add_one,
        List.take_set_of_le (Nat.le_refl _),
        List.getElem?_set_self (by simpa using hSlot)]
      rfl
    · exact List.length_set

------------------------------------------------------------
-- Taking Out
------------------------------------------------------------

/- There is nothing to pop when nothing waits. -/
theorem pop_eq_none_iff {q : RingQueue α} :
    q.pop = none ↔ q.waiting = [] := by
  rw [← List.length_eq_zero_iff, length_waiting]
  unfold pop
  split
  · simp [*]
  · simp [*]

/- What is popped waited before all the others. -/
theorem waiting_of_pop
    {q q' : RingQueue α} {a : α}
    (hPop : q.pop = some (a, q')) :
    q.waiting = a :: q'.waiting ∧
      q'.ring.length = q.ring.length := by
  unfold pop at hPop
  split at hPop
  · contradiction
  · rename_i hSome
    rw [Option.some.injEq, Prod.mk.injEq] at hPop
    rcases hPop with ⟨rfl, rfl⟩
    have hHead := q.head_lt
    have hCount := q.count_le
    refine ⟨?_, rfl⟩
    simp only [waiting]
    -- the ring from the head on: its slot, then the rest
    have hTurn :
        q.ring.rotate q.head =
          q.ring[q.head] ::
            (q.ring.rotate q.head).tail := by
      rw [List.rotate_eq_drop_append_take (by omega),
        List.drop_eq_getElem_cons hHead]
      rfl
    have hNext :
        q.ring.rotate ((q.head + 1) % q.ring.length) =
          (q.ring.rotate q.head).tail ++
            [q.ring[q.head]] := by
      rw [List.rotate_mod, ← List.rotate_rotate, hTurn]
      simp [List.rotate_cons_succ]
    rw [hNext, List.take_append_of_le_length
      (by simp; omega)]
    conv_lhs => rw [hTurn]
    rw [List.take_cons (by omega)]
    rfl

end RingQueue
