import Mathlib.Data.List.Range

/-
  Cyclic scans: the rows below a bound are looked at from
  some row on and around the end, the first one that is
  ready is served, and the next scan starts behind it.

  Key definitions include:
    * `Cyclic.scan`, `Cyclic.serve`
    * `Cyclic.away`
    * `Cyclic.rounds`

  Key rules include:
    * `Cyclic.serve_eq_none_iff`
    * `Cyclic.away_behind_lt`
    * `Cyclic.mem_rounds`
-/

namespace Cyclic

variable {n start row other : Nat} {ready : Nat → Bool}

------------------------------------------------------------
-- One Scan
------------------------------------------------------------

/- The rows in the order they are looked at. -/
def scan (n start : Nat) : List Nat :=
  (List.range n).map fun step => (start + step) % n

/- The first row of a scan that is ready. -/
def serve
    (n start : Nat)
    (ready : Nat → Bool) :
    Option Nat :=
  (scan n start).find? ready

/- How many rows a scan looks at before this one. -/
def away (n start row : Nat) : Nat :=
  if start % n ≤ row then row - start % n
  else row + n - start % n

theorem away_lt
    (hRow : row < n) :
    away n start row < n := by
  have hStart := Nat.mod_lt start (Nat.zero_lt_of_lt hRow)
  unfold away
  split <;> omega

/- The row at a distance, and the distance of a row. -/
theorem add_away_mod
    (hRow : row < n) :
    (start + away n start row) % n = row := by
  have hStart := Nat.mod_lt start (Nat.zero_lt_of_lt hRow)
  rw [Nat.add_mod]
  unfold away
  split
  next hBehind =>
    rw [Nat.mod_eq_of_lt (a := row - start % n) (by omega),
      Nat.add_sub_cancel' hBehind, Nat.mod_eq_of_lt hRow]
  next hAhead =>
    rw [Nat.mod_eq_of_lt (a := row + n - start % n)
        (by omega),
      Nat.add_sub_cancel' (by omega), Nat.add_mod_right,
      Nat.mod_eq_of_lt hRow]

theorem away_add_mod
    {step : Nat}
    (hStep : step < n) :
    away n start ((start + step) % n) = step := by
  have hStart := Nat.mod_lt start (Nat.zero_lt_of_lt hStep)
  have hSum :
      (start + step) % n =
        if start % n + step < n then start % n + step
        else start % n + step - n := by
    rw [Nat.add_mod, Nat.mod_eq_of_lt hStep]
    split
    next hInside => exact Nat.mod_eq_of_lt hInside
    next hAround =>
      rw [Nat.mod_eq_sub_mod (Nat.le_of_not_lt hAround)]
      exact Nat.mod_eq_of_lt (by omega)
  rw [hSum]
  unfold away
  split <;> split <;> omega

@[simp] theorem mem_scan :
    row ∈ scan n start ↔ row < n := by
  simp only [scan, List.mem_map, List.mem_range]
  constructor
  · rintro ⟨step, hStep, rfl⟩
    exact Nat.mod_lt _ (Nat.zero_lt_of_lt hStep)
  · intro hRow
    exact ⟨away n start row, away_lt hRow,
      add_away_mod hRow⟩

/- Nobody is served where nobody is ready. -/
theorem serve_eq_none_iff :
    serve n start ready = none ↔
      ∀ row < n, ready row = false := by
  simp [serve, List.find?_eq_none]

/- Who is served is ready, and nobody ready is nearer. -/
theorem serve_eq_some
    (hServed : serve n start ready = some row) :
    row < n ∧
      ready row = true ∧
      ∀ other < n,
        ready other = true →
          away n start row ≤ away n start other := by
  have hInside : row < n :=
    mem_scan.mp (List.mem_of_find?_eq_some hServed)
  refine ⟨hInside, List.find?_some hServed, ?_⟩
  intro other hOther hReady
  rw [serve, scan, List.find?_map] at hServed
  rcases Option.map_eq_some_iff.mp hServed with
    ⟨step, hStep, rfl⟩
  rcases List.find?_range_eq_some.mp hStep with
    ⟨-, hMem, hBefore⟩
  rw [away_add_mod (List.mem_range.mp hMem)]
  by_contra hNearer
  have hSkipped :=
    hBefore _ (Nat.lt_of_not_le hNearer)
  rw [Function.comp_apply, add_away_mod hOther,
    hReady] at hSkipped
  exact absurd hSkipped (by decide)

------------------------------------------------------------
-- Scan After Scan
------------------------------------------------------------

/- The scan behind a served row is nearer to the others. -/
theorem away_behind_lt
    (hRow : row < n)
    (hOther : other < n)
    (hApart : row ≠ other)
    (hNearer : away n start row ≤ away n start other) :
    away n ((row + 1) % n) other < away n start other := by
  have hStart := Nat.mod_lt start (Nat.zero_lt_of_lt hRow)
  have hNext :
      (row + 1) % n % n =
        if row + 1 < n then row + 1 else 0 := by
    rw [Nat.mod_mod]
    split
    next hInside => exact Nat.mod_eq_of_lt hInside
    next hLast =>
      have hEnd : row + 1 = n := by omega
      rw [hEnd, Nat.mod_self]
  revert hNearer
  unfold away
  rw [hNext]
  generalize start % n = from' at hStart ⊢
  split <;> split <;> split <;> split <;> omega

/- Who is served by scans that see other rows ready. -/
def rounds (n : Nat) :
    Nat → List (Nat → Bool) → List (Option Nat)
| _, [] => []
| start, ready :: rest =>
    match serve n start ready with
    | none => none :: rounds n start rest
    | some row =>
        some row :: rounds n ((row + 1) % n) rest

/- As many scans as a waiting row is away from its turn. -/
theorem mem_rounds_of_away_lt
    {readies : List (Nat → Bool)}
    (hRow : row < n)
    (hReady : ∀ ready ∈ readies, ready row = true)
    (hMany : away n start row < readies.length) :
    some row ∈ rounds n start readies := by
  induction readies generalizing start with
  | nil => exact absurd hMany (Nat.not_lt_zero _)
  | cons ready rest ih =>
      have hNow := hReady ready List.mem_cons_self
      have hLater : ∀ ready ∈ rest, ready row = true :=
        fun ready hMem =>
          hReady ready (List.mem_cons_of_mem _ hMem)
      rw [rounds]
      cases hServed : serve n start ready with
      | none =>
          have hNobody := serve_eq_none_iff.mp hServed
          rw [hNobody row hRow] at hNow
          exact absurd hNow (by decide)
      | some served =>
          rcases serve_eq_some hServed with
            ⟨hInside, -, hNearest⟩
          by_cases hSelf : served = row
          · rw [hSelf]
            exact List.mem_cons_self
          · apply List.mem_cons_of_mem
            apply ih hLater
            have hCloser :=
              away_behind_lt hInside hRow hSelf
                (hNearest row hRow hNow)
            rw [List.length_cons] at hMany
            omega

/- Who is always ready has its turn within `n` scans. -/
theorem mem_rounds
    {readies : List (Nat → Bool)}
    (hRow : row < n)
    (hReady : ∀ ready ∈ readies, ready row = true)
    (hMany : n ≤ readies.length) :
    some row ∈ rounds n start readies :=
  mem_rounds_of_away_lt hRow hReady
    (Nat.lt_of_lt_of_le (away_lt hRow) hMany)

end Cyclic
