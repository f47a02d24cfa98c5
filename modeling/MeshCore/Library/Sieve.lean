import Mathlib.Data.List.Basic

/-
  Two sieves of one list, where what the second lets through
  the first lets through alike: when they keep the same, all
  of it or as much as there is room for.

  Key definitions include:
    * `Sieve.Finer`

  Key facts include:
    * `Sieve.filterMap_eq_iff`
    * `Sieve.take_eq_iff`
    * `Sieve.mapM_isSome_iff`
-/

namespace Sieve

variable {α β : Type} {f g : α → Option β}

/- What `g` makes of an element, `f` makes of it as well. -/
def Finer (g f : α → Option β) : Prop :=
  ∀ a b, g a = some b → f a = some b

theorem Finer.eq
    (hFiner : Finer g f)
    {a : α}
    (hSame : g a = none → f a = none) :
    f a = g a := by
  cases hg : g a with
  | none => exact hSame hg
  | some b => exact hFiner a b hg

theorem Finer.length_le
    (hFiner : Finer g f)
    (l : List α) :
    (l.filterMap g).length ≤ (l.filterMap f).length := by
  induction l with
  | nil => exact Nat.le_refl 0
  | cons a l ih =>
      cases hg : g a with
      | none =>
          rw [List.filterMap_cons_none hg]
          cases hf : f a with
          | none =>
              rw [List.filterMap_cons_none hf]
              exact ih
          | some b =>
              rw [List.filterMap_cons_some hf]
              exact Nat.le_succ_of_le ih
      | some b =>
          rw [List.filterMap_cons_some hg,
            List.filterMap_cons_some (hFiner a b hg)]
          exact Nat.succ_le_succ ih

/- Both keep the same where the first keeps no more. -/
theorem filterMap_eq_iff
    (hFiner : Finer g f)
    (l : List α) :
    l.filterMap f = l.filterMap g ↔
      ∀ a ∈ l, g a = none → f a = none := by
  induction l with
  | nil => simp
  | cons a l ih =>
      rw [List.forall_mem_cons, ← ih]
      cases hg : g a with
      | none =>
          rw [List.filterMap_cons_none hg]
          cases hf : f a with
          | none =>
              rw [List.filterMap_cons_none hf]
              simp
          | some b =>
              rw [List.filterMap_cons_some hf]
              refine iff_of_false ?_ (by simp)
              intro hEq
              have hLength := congrArg List.length hEq
              have hLe := hFiner.length_le l
              rw [List.length_cons] at hLength
              omega
      | some b =>
          rw [List.filterMap_cons_some hg,
            List.filterMap_cons_some (hFiner a b hg),
            List.cons.injEq]
          simp

/- Where there is room for all of one, it is all of both. -/
theorem eq_of_take_eq
    {n : Nat} {xs ys : List β}
    (hTake : xs.take n = ys.take n)
    (hRoom : ys.length < n) :
    xs = ys := by
  have hLength := congrArg List.length hTake
  rw [List.length_take, List.length_take] at hLength
  rw [List.take_of_length_le (by omega),
    List.take_of_length_le (by omega)] at hTake
  exact hTake

/-
  With room for `n`, both keep the same at every point of the
  list exactly if the first keeps no more wherever there is
  room left.
-/
theorem take_eq_iff
    (hFiner : Finer g f)
    (n : Nat)
    (l : List α) :
    (∀ k,
      ((l.take k).filterMap f).take n =
        ((l.take k).filterMap g).take n) ↔
    ∀ k a, l[k]? = some a →
      ((l.take k).filterMap g).length < n →
        g a = none → f a = none := by
  have hNext :
      ∀ {k : Nat} {a : α}, l[k]? = some a →
        ∀ h : α → Option β,
          (l.take (k + 1)).filterMap h =
            (l.take k).filterMap h ++ (h a).toList := by
    intro k a hHere h
    rw [List.take_add_one, hHere, List.filterMap_append]
    cases hh : h a with
    | none => simp [hh]
    | some b => simp [hh]
  constructor
  · intro hAll k a hHere hRoom hg
    have hBefore := eq_of_take_eq (hAll k) hRoom
    have hAfter := hAll (k + 1)
    rw [hNext hHere f, hNext hHere g, hBefore, hg] at hAfter
    rw [Option.toList_none, List.append_nil] at hAfter
    have hSame := eq_of_take_eq hAfter hRoom
    rw [List.append_right_eq_self] at hSame
    exact Option.toList_eq_nil_iff.mp hSame
  · intro hAll k
    induction k with
    | zero => simp
    | succ k ih =>
        cases hHere : l[k]? with
        | none =>
            have hEnd : l.length ≤ k :=
              List.getElem?_eq_none_iff.mp hHere
            have hSame : l.take (k + 1) = l.take k := by
              rw [List.take_of_length_le hEnd,
                List.take_of_length_le
                  (Nat.le_succ_of_le hEnd)]
            rw [hSame]
            exact ih
        | some a =>
            rw [hNext hHere f, hNext hHere g]
            by_cases hRoom :
                ((l.take k).filterMap g).length < n
            · rw [eq_of_take_eq ih hRoom,
                hFiner.eq (hAll k a hHere hRoom)]
            · -- no room is left on either side
              have hLength := congrArg List.length ih
              rw [List.length_take, List.length_take]
                at hLength
              rw [List.take_append_of_le_length (by omega),
                List.take_append_of_le_length (by omega)]
              exact ih

/- All of a list can be mapped if every element can. -/
theorem mapM_isSome_iff (l : List α) :
    (l.mapM f).isSome ↔ ∀ a ∈ l, (f a).isSome := by
  induction l with
  | nil => simp
  | cons a l ih =>
      rw [List.forall_mem_cons, ← ih, List.mapM_cons]
      cases f a with
      | none => simp
      | some b => cases l.mapM f <;> simp

end Sieve
