import Mathlib.Data.List.Basic

/-
  Ordered maps laid over each other: what the map on top
  holds shadows what the one below it holds, key by key.

  Key definitions include:
    * `Layers.lay`
    * `Layers.putBack`

  Key rules include:
    * `Layers.getElem?_lay`
    * `Layers.empty_lay`
    * `Layers.lay_insert`, `Layers.lay_lay`
    * `Layers.getElem?_foldl_erase`
    * `Layers.putBack_insert`
-/

namespace Layers

open Std

variable {α β : Type} {cmp : α → α → Ordering}
variable [TransCmp cmp] [LawfulEqCmp cmp]

/- The map on top wins. -/
def lay (base top : ExtTreeMap α β cmp) :
    ExtTreeMap α β cmp :=
  base.insertMany top.toList

/- What was under a key before, put back. -/
def putBack
    (m : ExtTreeMap α β cmp)
    (k : α) :
    Option β → ExtTreeMap α β cmp
| some v => m.insert k v
| none => m.erase k

variable {base top m : ExtTreeMap α β cmp}

theorem getElem?_lay (k : α) :
    (lay base top)[k]? = top[k]?.or base[k]? := by
  classical
  unfold lay
  cases hTop : top[k]? with
  | some v =>
      exact ExtTreeMap.getElem?_insertMany_list_of_mem
        (ReflCmp.compare_self)
        ExtTreeMap.distinct_keys_toList
        (ExtTreeMap.mem_toList_iff_getElem?_eq_some.mpr hTop)
  | none =>
      apply
        ExtTreeMap.getElem?_insertMany_list_of_contains_eq_false
      rw [List.contains_eq_any_beq, List.any_eq_false]
      intro k' hk' hSame
      rcases List.mem_map.mp hk' with
        ⟨⟨k'', v⟩, hMem, hKey⟩
      have hThere : top[k]? = some v := by
        rw [eq_of_beq hSame, ← hKey]
        exact ExtTreeMap.mem_toList_iff_getElem?_eq_some.mp
          hMem
      rw [hTop] at hThere
      contradiction

/- Nothing is below the empty map. -/
theorem empty_lay : lay ∅ m = m := by
  apply ExtTreeMap.ext_getElem?
  intro k
  rw [getElem?_lay, ExtTreeMap.getElem?_empty, Option.or_none]

theorem lay_insert (k : α) (v : β) :
    lay base (top.insert k v) = (lay base top).insert k v := by
  apply ExtTreeMap.ext_getElem?
  intro k'
  rw [getElem?_lay, ExtTreeMap.getElem?_insert,
    ExtTreeMap.getElem?_insert, getElem?_lay]
  split <;> rfl

/- What is laid twice is there once. -/
theorem lay_lay : lay (lay base top) top = lay base top := by
  apply ExtTreeMap.ext_getElem?
  intro k
  rw [getElem?_lay, getElem?_lay, ← Option.or_assoc,
    Option.or_self]

/- Keys are taken out one by one. -/
theorem getElem?_foldl_erase
    [DecidableEq α]
    (ks : List α)
    (k : α) :
    (ks.foldl (·.erase ·) m)[k]? =
      if k ∈ ks then none else m[k]? := by
  induction ks generalizing m with
  | nil => rfl
  | cons k' ks ih =>
      have hErase :
          (m.erase k')[k]? =
            if k' = k then none else m[k]? := by
        rw [ExtTreeMap.getElem?_erase]
        simp only [LawfulEqCmp.compare_eq_iff_eq]
      rw [List.foldl_cons, ih, hErase]
      by_cases hHere : k' = k
      · simp [hHere]
      · simp [hHere, Ne.symm hHere]

/- A change is undone by what was there before it. -/
theorem putBack_insert (k : α) (v : β) :
    putBack (m.insert k v) k m[k]? = m := by
  apply ExtTreeMap.ext_getElem?
  intro k'
  cases hBefore : m[k]? with
  | some w =>
      rw [putBack, ExtTreeMap.getElem?_insert,
        ExtTreeMap.getElem?_insert]
      split
      next hSame =>
        rw [← LawfulEqCmp.eq_of_compare hSame, hBefore]
      next => rfl
  | none =>
      rw [putBack, ExtTreeMap.getElem?_erase,
        ExtTreeMap.getElem?_insert]
      split
      next hSame =>
        rw [← LawfulEqCmp.eq_of_compare hSame, hBefore]
      next => rfl

end Layers
