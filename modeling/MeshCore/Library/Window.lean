import Mathlib.Algebra.Order.Ring.Nat
import Mathlib.Data.List.Basic
import Mathlib.Algebra.Order.BigOperators.Group.List
import Mathlib.Algebra.Order.Group.Nat

/-
  Spending that is bounded over every sliding window of a
  ledger, and the rule that keeps it bounded: what is still
  remembered covers every window the new entry falls in.

  Key definitions include:
    * `total`
    * `InWindow`
    * `spentIn`

  Key facts include:
    * `total_append`
    * `spentIn_le_total_kept`
    * `spentIn_snoc_le`
-/

namespace Window

variable {ι : Type}
variable (time cost : ι → Nat) (window : Nat)

/- What the entries cost together. -/
def total (log : List ι) : Nat :=
  (log.map cost).sum

@[simp] theorem total_nil : total cost [] = 0 :=
  rfl

@[simp] theorem total_cons (i : ι) (log : List ι) :
    total cost (i :: log) = cost i + total cost log := by
  simp [total]

@[simp] theorem total_append (log more : List ι) :
    total cost (log ++ more) =
      total cost log + total cost more := by
  simp [total]

/- The window that ends at `t` is open at its other end. -/
def InWindow (t : Nat) (i : ι) : Prop :=
  time i ≤ t ∧ t < time i + window

instance (t : Nat) (i : ι) :
    Decidable (InWindow time window t i) := by
  unfold InWindow
  infer_instance

/- What was spent in the window that ends at `t`. -/
def spentIn (log : List ι) (t : Nat) : Nat :=
  total cost
    (log.filter fun i => decide (InWindow time window t i))

@[simp] theorem spentIn_nil (t : Nat) :
    spentIn time cost window [] t = 0 :=
  rfl

theorem spentIn_append (log more : List ι) (t : Nat) :
    spentIn time cost window (log ++ more) t =
      spentIn time cost window log t +
        spentIn time cost window more t := by
  simp [spentIn]

/- A window holds no more than the whole ledger. -/
theorem spentIn_le_total (log : List ι) (t : Nat) :
    spentIn time cost window log t ≤ total cost log := by
  unfold spentIn total
  apply List.Sublist.sum_le_sum
  · exact List.filter_sublist.map cost
  · intro c _
    exact Nat.zero_le c

variable {time cost window}

/- What left the ledger's memory is in no later window. -/
theorem spentIn_eq_zero_of_gone
    {gone : List ι} {now t : Nat}
    (hGone : ∀ i ∈ gone, time i + window ≤ now)
    (hLater : now ≤ t) :
    spentIn time cost window gone t = 0 := by
  have hNone :
      gone.filter
          (fun i => decide (InWindow time window t i)) =
        [] := by
    apply List.filter_eq_nil_iff.mpr
    intro i hi hIn
    have hOld := hGone i hi
    have hYoung := (of_decide_eq_true hIn).2
    omega
  rw [spentIn, hNone, total_nil]

/- A window that ends now or later sees what is kept. -/
theorem spentIn_le_total_kept
    {gone kept : List ι} {now t : Nat}
    (hGone : ∀ i ∈ gone, time i + window ≤ now)
    (hLater : now ≤ t) :
    spentIn time cost window (gone ++ kept) t ≤
      total cost kept := by
  rw [spentIn_append,
    spentIn_eq_zero_of_gone hGone hLater, Nat.zero_add]
  exact spentIn_le_total time cost window kept t

/-
  One more entry. A window it falls in ends now or later,
  so everything else in that window is still kept, and the
  check against the budget has seen it.
-/
theorem spentIn_snoc_le
    {gone kept : List ι} {i : ι} {budget : Nat}
    (hGone : ∀ j ∈ gone, time j + window ≤ time i)
    (hBudget : total cost kept + cost i ≤ budget)
    (hAll :
      ∀ t,
        spentIn time cost window (gone ++ kept) t ≤ budget)
    (t : Nat) :
    spentIn time cost window (gone ++ kept ++ [i]) t ≤
      budget := by
  rw [spentIn_append]
  by_cases hIn : InWindow time window t i
  · have hKept :
        spentIn time cost window (gone ++ kept) t ≤
          total cost kept :=
      spentIn_le_total_kept hGone hIn.1
    have hOne :
        spentIn time cost window [i] t = cost i := by
      simp [spentIn, hIn]
    omega
  · have hOne : spentIn time cost window [i] t = 0 := by
      simp [spentIn, hIn]
    rw [hOne, Nat.add_zero]
    exact hAll t

end Window
