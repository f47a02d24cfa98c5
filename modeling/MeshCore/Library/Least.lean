import Mathlib.Data.List.Range

/-
  Scans of a table for the row with the least measure: the
  first of equals is kept, since only a smaller one takes
  its place.

  Key definitions include:
    * `Least.IsFirst`

  Key rules include:
    * `Least.foldl_isFirst`
    * `Least.foldl_isFirst_where`
-/

namespace Least

variable {n : Nat} {f : Nat → Nat} {p : Nat → Prop}

/-
  Among the rows below `n` that meet `p`, this is the first
  one with the least measure.
-/
structure IsFirst
    (n : Nat)
    (f : Nat → Nat)
    (p : Nat → Prop)
    (row : Nat) :
    Prop where
  inside : row < n
  meets : p row
  least : ∀ other < n, p other → f row ≤ f other
  first : ∀ other < row, p other → f row < f other

/- One row more, and it is no less than the best so far. -/
theorem IsFirst.keep
    {row : Nat}
    (hFirst : IsFirst n f p row)
    (hKeep : p n → f row ≤ f n) :
    IsFirst (n + 1) f p row where
  inside := Nat.lt_succ_of_lt hFirst.inside
  meets := hFirst.meets
  least := by
    intro other hOther hMeets
    rcases Nat.lt_succ_iff_lt_or_eq.mp hOther with
      hOld | rfl
    · exact hFirst.least other hOld hMeets
    · exact hKeep hMeets
  first := hFirst.first

/- One row more, and it is less than the best so far. -/
theorem IsFirst.replace
    {row : Nat}
    (hFirst : IsFirst n f p row)
    (hMeets : p n)
    (hLess : f n < f row) :
    IsFirst (n + 1) f p n where
  inside := Nat.lt_succ_self n
  meets := hMeets
  least := by
    intro other hOther hThere
    rcases Nat.lt_succ_iff_lt_or_eq.mp hOther with
      hOld | rfl
    · exact Nat.le_trans (Nat.le_of_lt hLess)
        (hFirst.least other hOld hThere)
    · exact Nat.le_refl _
  first := fun other hOther hThere =>
    Nat.lt_of_lt_of_le hLess
      (hFirst.least other hOther hThere)

/- The first row that meets the condition at all. -/
theorem IsFirst.alone
    (hNone : ∀ other < n, ¬ p other)
    (hMeets : p n) :
    IsFirst (n + 1) f p n where
  inside := Nat.lt_succ_self n
  meets := hMeets
  least := by
    intro other hOther hThere
    rcases Nat.lt_succ_iff_lt_or_eq.mp hOther with
      hOld | rfl
    · exact absurd hThere (hNone other hOld)
    · exact Nat.le_refl _
  first := fun other hOther hThere =>
    absurd hThere (hNone other hOther)

/- A scan that starts at the first row. -/
theorem foldl_isFirst
    {scan : Nat → Nat → Nat}
    (hScan :
      ∀ best < n, ∀ row < n,
        scan best row = if f row < f best then row else best)
    (hSome : 0 < n) :
    IsFirst n f (fun _ => True)
      ((List.range n).foldl scan 0) := by
  have hUpTo :
      ∀ m, 0 < m → m ≤ n →
        IsFirst m f (fun _ => True)
          ((List.range m).foldl scan 0) := by
    intro m
    induction m with
    | zero => exact fun hNone => absurd hNone (by omega)
    | succ m ih =>
        intro _ hInside
        rw [List.range_succ, List.foldl_append,
          List.foldl_cons, List.foldl_nil]
        by_cases hZero : m = 0
        · subst hZero
          rw [List.range_zero, List.foldl_nil,
            hScan 0 hSome 0 hSome, ite_self]
          exact .alone (by omega) trivial
        · have hBefore := ih (by omega) (by omega)
          have hBest := hBefore.inside
          rw [hScan _ (by omega) m (by omega)]
          split
          next hLess => exact hBefore.replace trivial hLess
          next hMore =>
            exact hBefore.keep fun _ => Nat.le_of_not_lt hMore
  exact hUpTo n hSome (Nat.le_refl n)

/- A scan of the rows that meet a condition. -/
theorem foldl_isFirst_where
    [DecidablePred p]
    {scan : Option Nat → Nat → Option Nat}
    (hSkip :
      ∀ best, ∀ row < n, ¬ p row → scan best row = best)
    (hNew : ∀ row < n, p row → scan none row = some row)
    (hScan :
      ∀ best < n, ∀ row < n, p row →
        scan (some best) row =
          if f row < f best then some row else some best) :
    match (List.range n).foldl scan none with
    | none => ∀ row < n, ¬ p row
    | some row => IsFirst n f p row := by
  have hUpTo :
      ∀ m ≤ n,
        match (List.range m).foldl scan none with
        | none => ∀ row < m, ¬ p row
        | some row => IsFirst m f p row := by
    intro m
    induction m with
    | zero =>
        intro _ row hRow
        exact absurd hRow (Nat.not_lt_zero row)
    | succ m ih =>
        intro hInside
        have hBefore := ih (by omega)
        rw [List.range_succ, List.foldl_append,
          List.foldl_cons, List.foldl_nil]
        cases hBest : (List.range m).foldl scan none with
        | none =>
            rw [hBest] at hBefore
            by_cases hMeets : p m
            · rw [hNew m (by omega) hMeets]
              exact .alone hBefore hMeets
            · rw [hSkip none m (by omega) hMeets]
              intro row hRow
              rcases Nat.lt_succ_iff_lt_or_eq.mp hRow with
                hOld | rfl
              · exact hBefore row hOld
              · exact hMeets
        | some best =>
            rw [hBest] at hBefore
            have hThere := hBefore.inside
            by_cases hMeets : p m
            · rw [hScan best (by omega) m (by omega) hMeets]
              by_cases hLess : f m < f best
              · rw [if_pos hLess]
                exact hBefore.replace hMeets hLess
              · rw [if_neg hLess]
                exact hBefore.keep fun _ =>
                  Nat.le_of_not_lt hLess
            · rw [hSkip _ m (by omega) hMeets]
              exact hBefore.keep fun hHere =>
                absurd hHere hMeets
  exact hUpTo n (Nat.le_refl n)

end Least
