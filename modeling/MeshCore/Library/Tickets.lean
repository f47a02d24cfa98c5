import Mathlib.Data.List.InsertIdx
import Mathlib.Data.List.Perm.Subperm

/-
  Tickets that the rows of a table wait for, and the box
  they are kept in.

  A ticket is put into the box when a row starts to wait for
  it, and taken out with the row that waited, or when nobody
  waits for it. As long as every ticket is put in, each row
  finds its own in the box, also where two have the same.

  Key definitions include:
    * `Tickets.waited`
    * `Tickets.Kept`

  Key rules include:
    * `Tickets.Kept.issue`
    * `Tickets.Kept.settle`, `Tickets.Kept.discard`
    * `Tickets.Kept.fewer`, `Tickets.Kept.sorted`
-/

namespace Tickets

variable {α κ : Type}

------------------------------------------------------------
-- Waiting Rows
------------------------------------------------------------

section Rows

variable (ticket : α → Option κ)

/- The tickets that rows wait for, row by row. -/
def waited (rows : List α) : List κ :=
  rows.filterMap ticket

variable {ticket} {rows : List α}

/- A changed row, with what is before and behind it. -/
theorem waited_modify
    (ticket : α → Option κ)
    {row : Nat} {a : α}
    (hRow : rows[row]? = some a)
    (f : α → α) :
    ∃ before after,
      waited ticket rows =
          before ++ (ticket a).toList ++ after ∧
        waited ticket (rows.modify row f) =
          before ++ (ticket (f a)).toList ++ after := by
  rcases List.getElem?_eq_some_iff.mp hRow with
    ⟨hInside, hHere⟩
  rcases List.exists_of_modify f hInside with
    ⟨before, a', after, rfl, rfl, hModify⟩
  obtain rfl : a' = a := by simpa using hHere
  have hCons :
      ∀ b,
        waited ticket (before ++ b :: after) =
          waited ticket before ++ (ticket b).toList ++
            waited ticket after := by
    intro b
    rw [waited, List.filterMap_append, List.filterMap_cons,
      List.append_assoc]
    cases ticket b <;> rfl
  rw [hModify]
  exact ⟨_, _, hCons a', hCons (f a')⟩

theorem waited_modify_same
    {f : α → α}
    (hSame : ∀ a, ticket (f a) = ticket a)
    (row : Nat) :
    waited ticket (rows.modify row f) =
      waited ticket rows := by
  cases hRow : rows[row]? with
  | none =>
      rw [List.modify_eq_self
        (List.getElem?_eq_none_iff.mp hRow)]
  | some a =>
      rcases waited_modify ticket hRow f with
        ⟨before, after, hBefore, hAfter⟩
      rw [hAfter, hSame, hBefore]

end Rows

------------------------------------------------------------
-- The Box
------------------------------------------------------------

/- As often as a ticket is waited for, it is in the box. -/
def Kept (waited box : List κ) : Prop :=
  waited.Subperm box

theorem kept_nil (box : List κ) : Kept [] box :=
  List.nil_subperm

namespace Kept

variable {waited box : List κ}

theorem held
    {k : κ}
    (hKept : Kept waited box)
    (hk : k ∈ waited) :
    k ∈ box :=
  List.Subperm.subset hKept hk

/- Whoever stops to wait leaves the others as they were. -/
theorem fewer
    {still : List κ}
    (hKept : Kept waited box)
    (hStill : still.Sublist waited) :
    Kept still box :=
  hStill.subperm.trans hKept

/- What the box holds counts, not where. -/
theorem sorted
    {box' : List κ}
    (hKept : Kept waited box)
    (hBox : box.Perm box') :
    Kept waited box' :=
  List.Subperm.trans hKept hBox.subperm

/- A ticket is put in for the one who waits for it. -/
theorem issue
    {before after : List κ}
    (hKept : Kept (before ++ after) box)
    (k : κ) :
    Kept (before ++ k :: after) (box ++ [k]) := by
  have hMore : (k :: (before ++ after)).Subperm (k :: box) :=
    (List.subperm_cons k).mpr hKept
  have hRows :
      (before ++ k :: after).Perm (k :: (before ++ after)) :=
    List.perm_middle
  have hBox : (k :: box).Perm (box ++ [k]) :=
    (List.perm_append_singleton k box).symm
  exact (hRows.subperm.trans hMore).trans hBox.subperm

variable [DecidableEq κ]

/- A ticket nobody waits for can be taken out. -/
theorem discard
    {k : κ}
    (hKept : Kept waited box)
    (hNobody : k ∉ waited) :
    Kept waited (box.erase k) := by
  have hTaken : (waited.erase k).Subperm (box.erase k) :=
    List.Subperm.erase k hKept
  rw [List.erase_of_not_mem hNobody] at hTaken
  exact hTaken

/- It is taken out with the one who waits for it. -/
theorem settle
    {before after : List κ} {k : κ}
    (hKept : Kept (before ++ k :: after) box) :
    Kept (before ++ after) (box.erase k) := by
  have hRows :
      (k :: (before ++ after)).Perm (before ++ k :: after) :=
    List.perm_middle.symm
  have hTaken :
      ((k :: (before ++ after)).erase k).Subperm
        (box.erase k) :=
    List.Subperm.erase k (hRows.subperm.trans hKept)
  rw [List.erase_cons_head] at hTaken
  exact hTaken

end Kept

end Tickets
