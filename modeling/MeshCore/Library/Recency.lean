import Mathlib.Data.List.Induction

/-
  Which of some things was used last, and which longest ago,
  after a list of uses.

  Key definitions include:
    * `Recency.lastUse`

  Key rules include:
    * `Recency.lastUse_concat`
    * `Recency.lastUse_inj`
-/

namespace Recency

variable {κ : Type} [DecidableEq κ]

/-
  The number of the last use of a thing, counted from one,
  and zero where it was never used.
-/
def lastUse (uses : List κ) (k : κ) : Nat :=
  uses.length - uses.reverse.idxOf k

variable {uses : List κ} {k k' : κ}

theorem lastUse_concat (uses : List κ) (k k' : κ) :
    lastUse (uses ++ [k']) k =
      if k' = k then uses.length + 1
      else lastUse uses k := by
  rw [lastUse, lastUse, List.reverse_append,
    List.reverse_singleton, List.singleton_append,
    List.idxOf_cons, List.length_append,
    List.length_singleton]
  by_cases hSame : k' = k
  · simp [hSame]
  · simp only [beq_false_of_ne hSame, cond_false,
      if_neg hSame]
    omega

theorem lastUse_le (uses : List κ) (k : κ) :
    lastUse uses k ≤ uses.length :=
  Nat.sub_le _ _

theorem lastUse_pos_iff :
    0 < lastUse uses k ↔ k ∈ uses := by
  rw [lastUse, Nat.sub_pos_iff_lt, ← List.length_reverse,
    List.idxOf_lt_length_iff, List.mem_reverse]

/- No two things are used at once. -/
theorem lastUse_inj
    (hUsed : k ∈ uses)
    (hSame : lastUse uses k = lastUse uses k') :
    k = k' := by
  induction uses using List.reverseRecOn with
  | nil => simp at hUsed
  | append_singleton uses last ih =>
      have hLe := lastUse_le uses k
      have hLe' := lastUse_le uses k'
      rw [lastUse_concat, lastUse_concat] at hSame
      by_cases hLast : last = k
      · by_cases hLast' : last = k'
        · exact hLast.symm.trans hLast'
        · rw [if_pos hLast, if_neg hLast'] at hSame
          omega
      · by_cases hLast' : last = k'
        · rw [if_neg hLast, if_pos hLast'] at hSame
          omega
        · rw [if_neg hLast, if_neg hLast'] at hSame
          refine ih ?_ hSame
          rcases List.mem_append.mp hUsed with hOld | hNew
          · exact hOld
          · exact absurd (List.mem_singleton.mp hNew).symm
              hLast

theorem lastUse_of_last (uses : List κ) (k : κ) :
    lastUse (uses ++ [k]) k = uses.length + 1 := by
  rw [lastUse_concat, if_pos rfl]

end Recency
