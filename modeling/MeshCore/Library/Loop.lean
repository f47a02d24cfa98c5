import Mathlib.Data.List.FinRange
import Mathlib.Data.List.Induction

/-
  Counted loops, whose body has the index, and what they do
  to an array of a fixed length.

  Key definitions include:
    * `Loop.count`
    * `Loop.inTurn`, `Loop.scatter`

  Key rules include:
    * `Loop.invariant`
    * `Loop.get_inTurn`
    * `Loop.get_scatter`
    * `Loop.undo`
-/

namespace Loop

variable {α β ι : Type} {n : Nat}

/- The body once for every index below `n`, from zero on. -/
def count (n : Nat) (body : β → Fin n → β) (b : β) : β :=
  (List.finRange n).foldl body b

/- What every turn carries one further holds at the end. -/
theorem invariant
    (body : β → Fin n → β)
    (b : β)
    (P : Nat → β → Prop)
    (hStart : P 0 b)
    (hTurn :
      ∀ (i : Fin n) b, P i.val b →
        P (i.val + 1) (body b i)) :
    P n (count n body b) := by
  induction n with
  | zero => exact hStart
  | succ n ih =>
      have hBefore :
          P n
            (count n (fun b i => body b i.castSucc) b) :=
        ih _ fun i => hTurn i.castSucc
      rw [count, List.finRange_succ_last, List.foldl_append,
        List.foldl_map]
      exact hTurn (Fin.last n) _ hBefore

------------------------------------------------------------
-- Arrays
------------------------------------------------------------

/- Every element replaced, one after another. -/
def inTurn
    (f : Fin n → α → α)
    (v : Vector α n) :
    Vector α n :=
  count n (fun v i => v.set i (f i (v.get i))) v

theorem get_set
    (v : Vector α n)
    (i j : Fin n)
    (a : α) :
    (v.set i a).get j = if i = j then a else v.get j := by
  change (v.set i a)[j.val] = _
  rw [Vector.getElem_set]
  simp only [Fin.ext_iff]
  rfl

theorem get_inTurn
    (f : Fin n → α → α)
    (v : Vector α n)
    (j : Fin n) :
    (inTurn f v).get j = f j (v.get j) := by
  have hAll :=
    invariant
      (fun (v : Vector α n) i => v.set i (f i (v.get i)))
      v
      (fun k w =>
        w.get j =
          if j.val < k then f j (v.get j) else v.get j)
      (if_neg (Nat.not_lt_zero _)).symm
      (by
        intro i w hBefore
        rw [get_set]
        by_cases hHere : i = j
        · subst hHere
          rw [hBefore, if_pos rfl,
            if_neg (Nat.lt_irrefl _),
            if_pos (Nat.lt_succ_self _)]
        · have hSame : j.val < i.val + 1 ↔ j.val < i.val := by
            have := Fin.val_ne_of_ne hHere
            omega
          rw [if_neg hHere, hBefore]
          simp only [hSame])
  rw [if_pos j.isLt] at hAll
  exact hAll

/- Every value of a list written to a place of its own. -/
def scatter
    (place : ι → Fin n)
    (value : ι → α)
    (l : List ι)
    (v : Vector α n) :
    Vector α n :=
  l.foldl (fun v i => v.set (place i) (value i)) v

theorem get_scatter
    {place : ι → Fin n}
    (hPlace : ∀ i j, place i = place j → i = j)
    (value : ι → α)
    {l : List ι} {i : ι}
    (hMem : i ∈ l)
    (v : Vector α n) :
    (scatter place value l v).get (place i) = value i := by
  induction l using List.reverseRecOn with
  | nil => simp at hMem
  | append_singleton l j ih =>
      rw [scatter, List.foldl_append, List.foldl_cons,
        List.foldl_nil, get_set]
      by_cases hHere : place j = place i
      · rw [if_pos hHere, hPlace j i hHere]
      · rw [if_neg hHere]
        apply ih
        rcases List.mem_append.mp hMem with hIn | hLast
        · exact hIn
        · rw [List.mem_singleton.mp hLast] at hHere
          contradiction

------------------------------------------------------------
-- Loops That Undo Each Other
------------------------------------------------------------

/- The turns are undone one by one, from the last one on. -/
theorem undo
    {σ : Type}
    (body : α → ι → α)
    (back : σ → ι → σ)
    (shown : α → σ)
    (hBack : ∀ i a, back (shown (body a i)) i = shown a)
    (l : List ι)
    (a : α) :
    l.reverse.foldl back (shown (l.foldl body a)) =
      shown a := by
  induction l generalizing a with
  | nil => rfl
  | cons i l ih =>
      rw [List.foldl_cons, List.reverse_cons,
        List.foldl_append, ih]
      exact hBack i a

end Loop
