import Mathlib.Data.List.Basic

/-
  A growable array whose accesses are checked, and the two
  loops that erase while they walk: nothing is had from an
  index that is not inside.

  Key definitions include:
    * `Vec.setAt`, `Vec.eraseAt`
    * `Vec.sweepFrom`, `Vec.sweep`
    * `Vec.eraseFirstFrom`

  Key rules include:
    * `Vec.sweepFrom_eq`
    * `Vec.eraseFirstFrom_eq`
-/

namespace Vec

variable {α σ : Type}

------------------------------------------------------------
-- Accesses
------------------------------------------------------------

def setAt (xs : List α) (i : Nat) (a : α) :
    Option (List α) :=
  if i < xs.length then some (xs.set i a) else none

def eraseAt (xs : List α) (i : Nat) : Option (List α) :=
  if i < xs.length then some (xs.eraseIdx i) else none

theorem setAt_eq_some
    {xs : List α} {i : Nat}
    (hInside : i < xs.length)
    (a : α) :
    setAt xs i a = some (xs.set i a) :=
  if_pos hInside

/- The first element can be erased where there is one. -/
theorem eraseAt_zero (xs : List α) :
    eraseAt xs 0 =
      if xs = [] then none else some (xs.drop 1) := by
  cases xs with
  | nil => rfl
  | cons a xs => rfl

theorem get_middle (pre : List α) (a : α) (xs : List α) :
    (pre ++ a :: xs)[pre.length]? = some a := by
  simp

theorem setAt_middle
    (pre : List α) (a b : α) (xs : List α) :
    setAt (pre ++ a :: xs) pre.length b =
      some ((pre ++ [b]) ++ xs) := by
  rw [setAt, if_pos (by simp)]
  simp

theorem eraseAt_middle
    (pre : List α) (a : α) (xs : List α) :
    eraseAt (pre ++ a :: xs) pre.length =
      some (pre ++ xs) := by
  rw [eraseAt, if_pos (by simp),
    List.eraseIdx_append_of_length_le (Nat.le_refl _),
    Nat.sub_self]
  rfl

------------------------------------------------------------
-- A Loop That Keeps Or Erases
------------------------------------------------------------

/-
  Walk by index. The body, where it does not fail, keeps the
  element, perhaps changed, and the index moves on; or the
  element is erased and the next one comes to stand under
  the index.
-/
def sweepFrom
    (body : α → σ → Option (Option α × σ)) :
    Nat → Nat → List α → σ → Option (List α × σ)
| 0, i, xs, s =>
    if i < xs.length then none else some (xs, s)
| fuel + 1, i, xs, s =>
    if i < xs.length then do
      let a ← xs[i]?
      let step ← body a s
      match step with
      | (some kept, s) =>
          let xs ← setAt xs i kept
          sweepFrom body fuel (i + 1) xs s
      | (none, s) =>
          let xs ← eraseAt xs i
          sweepFrom body fuel i xs s
    else some (xs, s)

/- The same, element after element. -/
def sweep
    (body : α → σ → Option α × σ) :
    List α → σ → List α × σ
| [], s => ([], s)
| a :: rest, s =>
    match body a s with
    | (some kept, s) =>
        let (more, s) := sweep body rest s
        (kept :: more, s)
    | (none, s) => sweep body rest s

/- The index stays inside, and the loop comes to its end. -/
theorem sweepFrom_eq
    {body : α → σ → Option (Option α × σ)}
    {total : α → σ → Option α × σ}
    (hBody : ∀ a s, body a s = some (total a s))
    (pre xs : List α)
    (s : σ)
    {fuel : Nat}
    (hFuel : xs.length ≤ fuel) :
    sweepFrom body fuel pre.length (pre ++ xs) s =
      some (pre ++ (sweep total xs s).1,
        (sweep total xs s).2) := by
  induction xs generalizing pre s fuel with
  | nil => cases fuel <;> simp [sweepFrom, sweep]
  | cons a xs ih =>
      cases fuel with
      | zero => simp at hFuel
      | succ fuel =>
          have hLess : xs.length ≤ fuel :=
            Nat.le_of_succ_le_succ hFuel
          rw [sweepFrom, if_pos (by simp), get_middle,
            Option.bind_eq_bind, Option.bind_some, hBody,
            Option.bind_eq_bind, Option.bind_some, sweep]
          rcases total a s with ⟨_ | kept, s⟩
          · simp only [eraseAt_middle, Option.bind_eq_bind,
              Option.bind_some]
            exact ih pre s hLess
          · simp only [setAt_middle, Option.bind_eq_bind,
              Option.bind_some]
            have hRest := ih (pre ++ [kept]) s hLess
            rw [List.length_append,
              List.length_singleton] at hRest
            rw [hRest, List.append_assoc]
            rfl

------------------------------------------------------------
-- A Loop That Erases And Returns
------------------------------------------------------------

/- Walk by index up to what is looked for, and erase it. -/
def eraseFirstFrom
    (p : α → Bool) :
    Nat → Nat → List α → Option (Option α × List α)
| 0, i, xs =>
    if i < xs.length then none else some (none, xs)
| fuel + 1, i, xs =>
    if i < xs.length then do
      let a ← xs[i]?
      if p a then
        let xs ← eraseAt xs i
        some (some a, xs)
      else eraseFirstFrom p fuel (i + 1) xs
    else some (none, xs)

theorem eraseFirstFrom_eq
    (p : α → Bool)
    (pre xs : List α)
    {fuel : Nat}
    (hFuel : xs.length ≤ fuel) :
    eraseFirstFrom p fuel pre.length (pre ++ xs) =
      some (xs.find? p, pre ++ xs.eraseP p) := by
  induction xs generalizing pre fuel with
  | nil => cases fuel <;> simp [eraseFirstFrom]
  | cons a xs ih =>
      cases fuel with
      | zero => simp at hFuel
      | succ fuel =>
          have hLess : xs.length ≤ fuel :=
            Nat.le_of_succ_le_succ hFuel
          rw [eraseFirstFrom, if_pos (by simp), get_middle,
            Option.bind_eq_bind, Option.bind_some]
          cases hp : p a with
          | true =>
              simp only [if_true, eraseAt_middle,
                Option.bind_eq_bind, Option.bind_some]
              rw [List.find?_cons_of_pos hp,
                List.eraseP_cons_of_pos hp]
          | false =>
              have hRest := ih (pre ++ [a]) hLess
              rw [List.length_append,
                List.length_singleton, ← List.append_cons]
                at hRest
              rw [List.find?_cons_of_neg (by simp [hp]),
                List.eraseP_cons_of_neg (by simp [hp])]
              simp only [Bool.false_eq_true, if_false]
              rw [hRest, ← List.append_cons]

end Vec
