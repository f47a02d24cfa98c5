import Mathlib.Algebra.Order.Ring.Nat
import Mathlib.Data.List.InsertIdx
import Mathlib.Data.List.Nodup

/-
  Tables: lists of rows, each one told from the others by
  its key. A row is found by its key and changed at its
  index.

  Key definitions include:
    * `Table.Keyed`
    * `Table.lookup`

  Key rules include:
    * `Table.lookup_eq_some_iff`
    * `Table.lookup_modify`
    * `Table.lookup_of_sublist`
    * `Table.lookup_eraseP_of_ne`
    * `Table.lookup_modify_first`
    * `Table.sum_map_modify`
-/

namespace Table

variable {α κ : Type}

/- No two rows share a key. -/
def Keyed (key : α → κ) (rows : List α) : Prop :=
  (rows.map key).Nodup

variable {key : α → κ} {rows : List α}

------------------------------------------------------------
-- Keeping The Keys
------------------------------------------------------------

theorem Keyed.sublist
    {kept : List α}
    (hKeyed : Keyed key rows)
    (hKept : kept.Sublist rows) :
    Keyed key kept :=
  List.Nodup.sublist (hKept.map key) hKeyed

/- A change of a row, told by its change of a view. -/
theorem map_modify_view
    {β : Type}
    {view : α → β} {f : α → α} {g : β → β}
    (hView : ∀ a, view (f a) = g (view a))
    (rows : List α)
    (row : Nat) :
    (rows.modify row f).map view =
      (rows.map view).modify row g := by
  apply List.ext_getElem?
  intro i
  simp only [List.getElem?_map, List.getElem?_modify]
  by_cases hRow : row = i <;>
    cases rows[i]? <;>
      simp [hRow, hView]

/- A change of a row that keeps its key. -/
theorem map_modify
    {f : α → α}
    (hKey : ∀ a, key (f a) = key a)
    (row : Nat) :
    (rows.modify row f).map key = rows.map key :=
  (map_modify_view (g := id) hKey rows row).trans
    (List.modify_id _ _)

theorem Keyed.modify
    {f : α → α}
    (hKeyed : Keyed key rows)
    (hKey : ∀ a, key (f a) = key a)
    (row : Nat) :
    Keyed key (rows.modify row f) := by
  rw [Keyed, map_modify hKey]
  exact hKeyed

theorem Keyed.append
    {a : α}
    (hKeyed : Keyed key rows)
    (hNew : ∀ b ∈ rows, key b ≠ key a) :
    Keyed key (rows ++ [a]) := by
  rw [Keyed, List.map_append]
  refine List.Nodup.append hKeyed
    (List.nodup_singleton _) ?_
  intro k hLeft hRight
  rcases List.mem_map.mp hLeft with ⟨b, hb, rfl⟩
  exact hNew b hb (List.mem_singleton.mp hRight)

theorem Keyed.eq_of_key
    {a b : α}
    (hKeyed : Keyed key rows)
    (ha : a ∈ rows)
    (hb : b ∈ rows)
    (hKey : key a = key b) :
    a = b :=
  List.inj_on_of_nodup_map hKeyed ha hb hKey

/- What a row is after one of the rows was changed. -/
theorem mem_modify
    {f : α → α}
    {row : Nat}
    {a : α}
    (ha : a ∈ rows.modify row f) :
    a ∈ rows ∨ ∃ b, rows[row]? = some b ∧ a = f b := by
  rcases List.mem_iff_getElem?.mp ha with ⟨i, hi⟩
  by_cases hRow : row = i
  · subst hRow
    rw [List.getElem?_modify_eq] at hi
    rcases Option.map_eq_some_iff.mp hi with
      ⟨b, hb, hEq⟩
    exact .inr ⟨b, hb, hEq.symm⟩
  · rw [List.getElem?_modify_ne _ _ hRow] at hi
    exact .inl (List.mem_of_getElem? hi)

/- A sum over the rows, after one of them was changed. -/
theorem sum_map_modify
    {f : α → α} {row : Nat} {a : α}
    (weight : α → Nat)
    (hRow : rows[row]? = some a) :
    ((rows.modify row f).map weight).sum + weight a =
      (rows.map weight).sum + weight (f a) := by
  induction rows generalizing row with
  | nil => simp at hRow
  | cons b rows ih =>
      cases row with
      | zero =>
          rw [List.getElem?_cons_zero, Option.some.injEq]
            at hRow
          subst hRow
          rw [List.modify_zero_cons, List.map_cons,
            List.map_cons, List.sum_cons, List.sum_cons]
          omega
      | succ row =>
          rw [List.getElem?_cons_succ] at hRow
          have hRest := ih hRow
          rw [List.modify_succ_cons, List.map_cons,
            List.map_cons, List.sum_cons, List.sum_cons]
          omega

/- The row that was added last is the one that is changed. -/
theorem modify_length_append
    (kept : List α)
    (a : α)
    (f : α → α) :
    (kept ++ [a]).modify kept.length f = kept ++ [f a] := by
  simp [List.modify_eq_take_cons_drop]

------------------------------------------------------------
-- Finding A Row
------------------------------------------------------------

variable [BEq κ] [LawfulBEq κ]

def lookup
    (key : α → κ)
    (rows : List α)
    (k : κ) :
    Option α :=
  rows.find? (key · == k)

theorem lookup_mem
    {k : κ} {a : α}
    (hFound : lookup key rows k = some a) :
    a ∈ rows ∧ key a = k := by
  rw [lookup] at hFound
  have hHere := List.find?_some hFound
  exact ⟨List.mem_of_find?_eq_some hFound,
    eq_of_beq hHere⟩

/- The row with a key is the one that is found. -/
theorem lookup_eq_some_iff
    (hKeyed : Keyed key rows)
    {k : κ} {a : α} :
    lookup key rows k = some a ↔ a ∈ rows ∧ key a = k := by
  constructor
  · exact lookup_mem
  · rintro ⟨ha, rfl⟩
    have hSome :
        (rows.find? (key · == key a)).isSome = true :=
      List.find?_isSome.mpr ⟨a, ha, beq_self_eq_true _⟩
    rcases Option.isSome_iff_exists.mp hSome with
      ⟨b, hb⟩
    have hBoth := lookup_mem hb
    rw [hKeyed.eq_of_key hBoth.1 ha hBoth.2] at hb
    exact hb

theorem lookup_eq_none_iff {k : κ} :
    lookup key rows k = none ↔ ∀ a ∈ rows, key a ≠ k := by
  simp [lookup, List.find?_eq_none]

/- A changed row is found changed, another one as it was. -/
theorem lookup_modify
    (hKeyed : Keyed key rows)
    {f : α → α}
    (hKey : ∀ a, key (f a) = key a)
    {row : Nat} {b : α}
    (hRow : rows[row]? = some b)
    (k : κ) :
    lookup key (rows.modify row f) k =
      if key b == k then some (f b)
      else lookup key rows k := by
  have hModified := hKeyed.modify hKey row
  split
  next hHere =>
    rw [lookup_eq_some_iff hModified]
    refine ⟨List.mem_of_getElem? (i := row) ?_, ?_⟩
    · rw [List.getElem?_modify_eq, hRow]
      rfl
    · rw [hKey]
      exact eq_of_beq hHere
  next hElsewhere =>
    have hElsewhere : key b ≠ k := fun hKey =>
      hElsewhere (beq_iff_eq.mpr hKey)
    apply Option.ext
    intro a
    rw [lookup_eq_some_iff hModified,
      lookup_eq_some_iff hKeyed]
    refine and_congr_left fun hk => ?_
    constructor
    · intro ha
      rcases mem_modify ha with ha | ⟨c, hc, rfl⟩
      · exact ha
      · rw [hRow] at hc
        cases hc
        exact absurd ((hKey b).symm.trans hk) hElsewhere
    · intro ha
      rcases List.mem_iff_getElem?.mp ha with ⟨i, hi⟩
      refine List.mem_of_getElem? (i := i) ?_
      rw [List.getElem?_modify_ne, hi]
      rintro rfl
      rw [hRow] at hi
      cases hi
      exact hElsewhere hk

theorem lookup_of_sublist
    {kept : List α}
    (hKeyed : Keyed key rows)
    (hKept : kept.Sublist rows)
    {k : κ} {a : α}
    (hFound : lookup key kept k = some a) :
    lookup key rows k = some a := by
  rcases lookup_mem hFound with ⟨ha, hk⟩
  exact (lookup_eq_some_iff hKeyed).mpr
    ⟨hKept.subset ha, hk⟩

/- A new row is not in the way of the others. -/
theorem lookup_append_of_ne
    {a : α} {k : κ}
    (hOther : key a ≠ k) :
    lookup key (rows ++ [a]) k = lookup key rows k := by
  have hNone : ([a].find? (key · == k)) = none := by
    simp [hOther]
  rw [lookup, List.find?_append, hNone, Option.or_none]
  rfl

theorem lookup_append_self
    {a : α}
    (hNew : lookup key rows (key a) = none) :
    lookup key (rows ++ [a]) (key a) = some a := by
  rw [lookup, List.find?_append]
  rw [lookup] at hNew
  simp [hNew]

/- A row with another key may go. -/
theorem lookup_eraseP_of_ne
    {k other : κ}
    (hOther : other ≠ k) :
    lookup key (rows.eraseP (key · == other)) k =
      lookup key rows k := by
  induction rows with
  | nil => rfl
  | cons a rows ih =>
      unfold lookup at ih ⊢
      by_cases hHere : key a = other
      · simp [hHere, hOther]
      · rw [List.eraseP_cons_of_neg (by simp [hHere]),
          List.find?_cons, List.find?_cons, ih]

theorem lookup_eraseIdx_of_ne
    {k : κ} {row : Nat} {a : α}
    (hRow : rows[row]? = some a)
    (hOther : key a ≠ k) :
    lookup key (rows.eraseIdx row) k =
      lookup key rows k := by
  induction rows generalizing row with
  | nil => simp at hRow
  | cons b rows ih =>
      unfold lookup at ih ⊢
      cases row with
      | zero =>
          cases hRow
          simp [hOther]
      | succ row =>
          rw [List.eraseIdx_cons_succ, List.find?_cons,
            List.find?_cons, ih hRow]

theorem lookup_eraseIdx_self
    (hKeyed : Keyed key rows)
    {row : Nat} {a : α}
    (hRow : rows[row]? = some a) :
    lookup key (rows.eraseIdx row) (key a) = none := by
  induction rows generalizing row with
  | nil => simp at hRow
  | cons b rows ih =>
      unfold Keyed at hKeyed ih
      rw [List.map_cons, List.nodup_cons] at hKeyed
      rcases hKeyed with ⟨hNew, hKeyed⟩
      rw [lookup_eq_none_iff]
      cases row with
      | zero =>
          cases hRow
          intro c hc hSame
          exact hNew (hSame ▸ List.mem_map_of_mem hc)
      | succ row =>
          intro c hc
          rcases List.mem_cons.mp hc with rfl | hc
          · intro hSame
            have hMem : a ∈ rows :=
              List.mem_of_getElem? hRow
            exact hNew (hSame ▸ List.mem_map_of_mem hMem)
          · exact (lookup_eq_none_iff.mp (ih hKeyed hRow)) c hc

/- The row that is found first is found changed. -/
theorem lookup_modify_first
    {f : α → α}
    (hKey : ∀ a, key (f a) = key a)
    {k : κ} {row : Nat}
    (hRow : rows.findIdx? (key · == k) = some row) :
    lookup key (rows.modify row f) k =
      (lookup key rows k).map f := by
  induction rows generalizing row with
  | nil => simp at hRow
  | cons a rows ih =>
      unfold lookup at ih ⊢
      rw [List.findIdx?_cons] at hRow
      by_cases hHere : key a = k
      · rw [if_pos (by simp [hHere])] at hRow
        cases hRow
        simp [hKey, hHere]
      · rw [if_neg (by simp [hHere])] at hRow
        rcases Option.map_eq_some_iff.mp hRow with
          ⟨rest, hRest, rfl⟩
        rw [List.modify_succ_cons,
          List.find?_cons_of_neg (by simp [hHere]),
          List.find?_cons_of_neg (by simp [hHere])]
        exact ih hRest

/- A change of a row with another key. -/
theorem lookup_modify_of_ne
    {f : α → α}
    (hKey : ∀ a, key (f a) = key a)
    {k : κ} {row : Nat} {a : α}
    (hRow : rows[row]? = some a)
    (hOther : key a ≠ k) :
    lookup key (rows.modify row f) k =
      lookup key rows k := by
  induction rows generalizing row with
  | nil => simp at hRow
  | cons b rows ih =>
      unfold lookup at ih ⊢
      cases row with
      | zero =>
          cases hRow
          simp [hKey, hOther]
      | succ row =>
          rw [List.modify_succ_cons, List.find?_cons,
            List.find?_cons, ih hRow]

/- The index that is found first, where a key is there. -/
theorem getElem?_of_findIdx?
    {p : α → Bool} {row : Nat}
    (hRow : rows.findIdx? p = some row) :
    ∃ a, rows[row]? = some a ∧ p a = true := by
  rcases List.findIdx?_eq_some_iff_getElem.mp hRow with
    ⟨hLt, hp, _⟩
  exact ⟨_, List.getElem?_eq_getElem hLt, hp⟩

end Table
