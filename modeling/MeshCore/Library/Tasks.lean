import MeshCore.Library.Table
import Mathlib.Data.List.Count

/-
  Tasks that are tried a few times and settled once. A task
  is issued under a name of its own. It may be tried right
  away, and it may be kept, to be tried again until it is
  settled or its tries are used.

  Key definitions include:
    * `Tasks`, `Tasks.Move`
    * `Tasks.perform`, `Tasks.Legal`
    * `Tasks.Sound`

  Key rules include:
    * `Tasks.Sound.perform`
    * `Tasks.legal_append`
    * `Tasks.settled_at_most_once`
    * `Tasks.tried_at_most`
    * `Tasks.waits_iff`
    * `Tasks.kept_of_settled`
    * `Tasks.not_settled_of_tried`
-/

/- What is kept of some tasks; a task waits with its tries. -/
structure Tasks (ι : Type) where
  issued : List ι := []
  kept : List ι := []
  waiting : List (ι × Nat) := []
  settled : List ι := []
  tries : List ι := []

namespace Tasks

variable {ι : Type}

inductive Move (ι : Type) where
| issue (id : ι) (tried kept : Bool)
| again (id : ι)
| settle (id : ι)

/- The task that a move tries, or settles, or keeps. -/
def Move.tried : Move ι → Option ι
| .issue id true _ => some id
| .again id => some id
| _ => none

def Move.settled : Move ι → Option ι
| .settle id => some id
| _ => none

def Move.kept : Move ι → Option ι
| .issue id _ true => some id
| _ => none

def Move.issued : Move ι → Option ι
| .issue id _ _ => some id
| _ => none

variable [DecidableEq ι]

/- One try more for one of the tasks. -/
def tryAgain (id : ι) (task : ι × Nat) : ι × Nat :=
  if task.1 = id then (task.1, task.2 + 1) else task

def waitingAfter
    (waiting : List (ι × Nat)) :
    Move ι → List (ι × Nat)
| .issue id _ true => waiting ++ [(id, 1)]
| .issue _ _ false => waiting
| .again id => waiting.map (tryAgain id)
| .settle id => waiting.filter (·.1 ≠ id)

def step (T : Tasks ι) (m : Move ι) : Tasks ι :=
  { issued := T.issued ++ m.issued.toList
    kept := T.kept ++ m.kept.toList
    waiting := waitingAfter T.waiting m
    settled := T.settled ++ m.settled.toList
    tries := T.tries ++ m.tried.toList }

def perform (T : Tasks ι) (ms : List (Move ι)) : Tasks ι :=
  ms.foldl step T

/-
  A task gets a name that is new, and what is kept has been
  tried. Only what waits is tried again, as long as it has
  tries left, and only what waits is settled.
-/
def Allowed (limit : Nat) (T : Tasks ι) : Move ι → Prop
| .issue id tried kept =>
    id ∉ T.issued ∧ (kept = true → tried = true)
| .again id => ∃ n, (id, n) ∈ T.waiting ∧ n < limit
| .settle id => ∃ n, (id, n) ∈ T.waiting

def Legal (limit : Nat) (T : Tasks ι) : List (Move ι) → Prop
| [] => True
| m :: ms => Allowed limit T m ∧ Legal limit (T.step m) ms

variable {limit : Nat} {T : Tasks ι}
variable {m : Move ι} {ms more : List (Move ι)}

theorem perform_append :
    T.perform (ms ++ more) = (T.perform ms).perform more :=
  List.foldl_append

theorem legal_append :
    Legal limit T (ms ++ more) ↔
      Legal limit T ms ∧ Legal limit (T.perform ms) more := by
  induction ms generalizing T with
  | nil => simp [Legal, perform]
  | cons m ms ih =>
      simp only [List.cons_append, Legal, ih, and_assoc]
      rfl

/- What was done in all is what each move did. -/
theorem perform_field
    {field : Tasks ι → List ι} {of : Move ι → Option ι}
    (hStep :
      ∀ (T : Tasks ι) m,
        field (T.step m) = field T ++ (of m).toList) :
    field (T.perform ms) = field T ++ ms.filterMap of := by
  induction ms generalizing T with
  | nil => simp [perform]
  | cons m ms ih =>
      rw [perform, List.foldl_cons, ← perform, ih, hStep]
      cases hHere : of m <;> simp [hHere]

theorem perform_issued :
    (T.perform ms).issued =
      T.issued ++ ms.filterMap Move.issued :=
  perform_field fun _ _ => rfl

theorem perform_kept :
    (T.perform ms).kept =
      T.kept ++ ms.filterMap Move.kept :=
  perform_field fun _ _ => rfl

theorem perform_settled :
    (T.perform ms).settled =
      T.settled ++ ms.filterMap Move.settled :=
  perform_field fun _ _ => rfl

theorem perform_tries :
    (T.perform ms).tries =
      T.tries ++ ms.filterMap Move.tried :=
  perform_field fun _ _ => rfl

------------------------------------------------------------
-- What Every Run Keeps
------------------------------------------------------------

/- A task that waits. -/
def Waits (T : Tasks ι) (id : ι) : Prop :=
  ∃ n, (id, n) ∈ T.waiting

/-
  What was kept waits or is settled, and not both; what
  waits has been tried as often as it says.
-/
structure Sound (limit : Nat) (T : Tasks ι) : Prop where
  keyed : Table.Keyed Prod.fst T.waiting
  issued : ∀ id, id ∈ T.kept ∨ id ∈ T.tries → id ∈ T.issued
  kept : ∀ id, id ∈ T.kept ↔ T.Waits id ∨ id ∈ T.settled
  apart : ∀ id ∈ T.settled, ¬ T.Waits id
  once : T.settled.Nodup
  counted : ∀ id n, (id, n) ∈ T.waiting → T.tries.count id = n
  bounded : ∀ id, T.tries.count id ≤ max 1 limit

theorem sound_new : Sound limit ({} : Tasks ι) where
  keyed := List.nodup_nil
  issued := by simp
  kept := by simp [Waits]
  apart := by simp
  once := List.nodup_nil
  counted := by simp
  bounded := by simp

theorem Sound.waits_issued
    (hSound : Sound limit T)
    {id : ι}
    (hWaits : T.Waits id) :
    id ∈ T.issued :=
  hSound.issued id (.inl ((hSound.kept id).mpr (.inl hWaits)))

theorem Sound.settled_issued
    (hSound : Sound limit T)
    {id : ι}
    (hSettled : id ∈ T.settled) :
    id ∈ T.issued :=
  hSound.issued id
    (.inl ((hSound.kept id).mpr (.inr hSettled)))

omit [DecidableEq ι] in
/- Where a task is known to stand, only it is changed. -/
theorem split_keys
    {before after : List (ι × Nat)} {id : ι} {n : Nat}
    (hKeyed :
      Table.Keyed Prod.fst (before ++ (id, n) :: after)) :
    ∀ task ∈ before ++ after, task.1 ≠ id := by
  rw [Table.Keyed, List.map_append, List.map_cons,
    List.nodup_middle, List.nodup_cons] at hKeyed
  rw [← List.map_append] at hKeyed
  intro task hTask hSame
  have hThere := List.mem_map_of_mem (f := Prod.fst) hTask
  rw [hSame] at hThere
  exact hKeyed.1 hThere

theorem waitingAfter_again
    {before after : List (ι × Nat)} {id : ι} {n : Nat}
    (hKeyed :
      Table.Keyed Prod.fst (before ++ (id, n) :: after)) :
    waitingAfter (before ++ (id, n) :: after) (.again id) =
      before ++ (id, n + 1) :: after := by
  have hSame :
      ∀ tasks : List (ι × Nat),
        (∀ task ∈ tasks, task.1 ≠ id) →
          tasks.map (tryAgain id) = tasks := by
    intro tasks hOther
    conv_rhs => rw [← List.map_id tasks]
    apply List.map_congr_left
    intro task hTask
    simp [tryAgain, hOther task hTask]
  have hOther := split_keys hKeyed
  rw [List.forall_mem_append] at hOther
  rw [waitingAfter, List.map_append, List.map_cons,
    hSame before hOther.1, hSame after hOther.2]
  simp [tryAgain]

theorem waitingAfter_settle
    {before after : List (ι × Nat)} {id : ι} {n : Nat}
    (hKeyed :
      Table.Keyed Prod.fst (before ++ (id, n) :: after)) :
    waitingAfter (before ++ (id, n) :: after) (.settle id) =
      before ++ after := by
  have hOther := split_keys hKeyed
  rw [List.forall_mem_append] at hOther
  have hSame :
      ∀ tasks : List (ι × Nat),
        (∀ task ∈ tasks, task.1 ≠ id) →
          tasks.filter (·.1 ≠ id) = tasks := by
    intro tasks hOther
    rw [List.filter_eq_self]
    intro task hTask
    simpa using hOther task hTask
  rw [waitingAfter, List.filter_append, List.filter_cons,
    hSame before hOther.1, hSame after hOther.2]
  simp

/- What waits after a move waited, or is what was kept. -/
theorem waits_step :
    ∀ id : ι,
      (T.step m).Waits id ↔
        T.Waits id ∧ m.settled ≠ some id ∨
          m.kept = some id := by
  intro id
  cases m with
  | issue name tried kept =>
      cases kept with
      | false => simp [Waits, step, waitingAfter, Move.settled,
          Move.kept]
      | true =>
          simp only [Waits, step, waitingAfter, Move.settled,
            Move.kept, List.mem_append, List.mem_singleton,
            Prod.mk.injEq, Option.some.injEq]
          constructor
          · rintro ⟨n, hOld | ⟨rfl, -⟩⟩
            · exact .inl ⟨⟨n, hOld⟩, nofun⟩
            · exact .inr rfl
          · rintro (⟨⟨n, hOld⟩, -⟩ | rfl)
            · exact ⟨n, .inl hOld⟩
            · exact ⟨1, .inr ⟨rfl, rfl⟩⟩
  | again name =>
      simp only [Waits, step, waitingAfter, Move.settled,
        Move.kept, List.mem_map]
      constructor
      · rintro ⟨n, ⟨other, k⟩, hOld, hEq⟩
        have hSame : other = id := by
          simpa [tryAgain, apply_ite Prod.fst] using
            congrArg Prod.fst hEq
        rw [hSame] at hOld
        exact .inl ⟨⟨k, hOld⟩, nofun⟩
      · rintro (⟨⟨k, hOld⟩, -⟩ | hNone)
        · by_cases hName : id = name
          · exact ⟨k + 1, _, hOld, by simp [tryAgain, hName]⟩
          · exact ⟨k, _, hOld, by simp [tryAgain, hName]⟩
        · contradiction
  | settle name =>
      simp only [Waits, step, waitingAfter, Move.settled,
        Move.kept, List.mem_filter, ne_eq,
        decide_eq_true_eq, Option.some.injEq]
      constructor
      · rintro ⟨n, hOld, hNot⟩
        exact .inl ⟨⟨n, hOld⟩, fun h => hNot h.symm⟩
      · rintro (⟨⟨n, hOld⟩, hNot⟩ | hNone)
        · exact ⟨n, hOld, fun h => hNot h.symm⟩
        · contradiction

omit [DecidableEq ι] in
/- What a move keeps is new, and what it settles waits. -/
theorem Allowed.kept_new
    (hAllowed : Allowed limit T m)
    {id : ι}
    (hKept : m.kept = some id) :
    id ∉ T.issued ∧ m.settled ≠ some id := by
  cases m with
  | issue name tried kept =>
      cases kept with
      | false => contradiction
      | true =>
          rw [← Option.some.inj hKept]
          exact ⟨hAllowed.1, nofun⟩
  | _ => contradiction

omit [DecidableEq ι] in
theorem Allowed.settled_waits
    (hAllowed : Allowed limit T m)
    {id : ι}
    (hSettled : m.settled = some id) :
    T.Waits id := by
  cases m with
  | settle name =>
      rw [← Option.some.inj hSettled]
      exact hAllowed
  | _ => contradiction

omit [DecidableEq ι] in
/- What a move tries is new, or waits. -/
theorem Allowed.tried_cases
    (hAllowed : Allowed limit T m)
    {id : ι}
    (hTried : m.tried = some id) :
    (id ∉ T.issued ∧ m.issued = some id) ∨ T.Waits id := by
  cases m with
  | issue name tried kept =>
      cases tried with
      | false => contradiction
      | true =>
          rw [← Option.some.inj hTried]
          exact .inl ⟨hAllowed.1, rfl⟩
  | again name =>
      rcases hAllowed with ⟨n, hWaits, -⟩
      rw [← Option.some.inj hTried]
      exact .inr ⟨n, hWaits⟩
  | settle name => contradiction

theorem Sound.keyed_step
    (hSound : Sound limit T)
    (hAllowed : Allowed limit T m) :
    Table.Keyed Prod.fst (T.step m).waiting := by
  cases m with
  | issue id tried kept =>
      cases kept with
      | false => exact hSound.keyed
      | true =>
          apply Table.Keyed.append hSound.keyed
          rintro ⟨other, n⟩ hOther rfl
          exact hAllowed.1 (hSound.waits_issued ⟨n, hOther⟩)
  | again id =>
      have hKeys :
          (T.waiting.map (tryAgain id)).map Prod.fst =
            T.waiting.map Prod.fst := by
        rw [List.map_map]
        apply List.map_congr_left
        intro task _
        simp [tryAgain, apply_ite Prod.fst]
      exact (congrArg List.Nodup hKeys).mpr hSound.keyed
  | settle id =>
      exact hSound.keyed.sublist List.filter_sublist

/- How often a task was tried, after one move more. -/
theorem count_tries_step (id : ι) :
    (T.step m).tries.count id =
      T.tries.count id + if m.tried = some id then 1 else 0 := by
  have hTries :
      (T.step m).tries = T.tries ++ m.tried.toList := rfl
  rw [hTries, List.count_append]
  cases m.tried with
  | none => simp
  | some name => simp [List.count_singleton]

theorem Sound.counted_step
    (hSound : Sound limit T)
    (hAllowed : Allowed limit T m) :
    ∀ id n,
      (id, n) ∈ (T.step m).waiting →
        (T.step m).tries.count id = n := by
  intro id n hWaiting
  rw [count_tries_step]
  cases m with
  | issue name tried kept =>
      have hNever :
          name ∉ T.tries :=
        fun h => hAllowed.1 (hSound.issued name (.inr h))
      have hOld :
          (id, n) ∈ T.waiting →
            T.tries.count id +
                (if (Move.issue name tried kept).tried =
                    some id then
                  1
                else 0) =
              n := by
        intro hOld
        have hOther :
            (Move.issue name tried kept).tried ≠ some id := by
          intro hTried
          cases tried with
          | false => contradiction
          | true =>
              rw [Option.some.inj hTried] at hAllowed
              exact hAllowed.1 (hSound.waits_issued ⟨n, hOld⟩)
        rw [if_neg hOther]
        exact hSound.counted id n hOld
      cases kept with
      | false => exact hOld hWaiting
      | true =>
          rcases List.mem_append.mp hWaiting with
            hThere | hHere
          · exact hOld hThere
          · rw [List.mem_singleton, Prod.mk.injEq] at hHere
            rcases hHere with ⟨rfl, rfl⟩
            rw [List.count_eq_zero.mpr hNever,
              hAllowed.2 rfl]
            simp [Move.tried]
  | again name =>
      rcases List.mem_map.mp hWaiting with
        ⟨⟨other, k⟩, hOld, hEq⟩
      have hCount := hSound.counted other k hOld
      by_cases hName : other = name
      · simp only [tryAgain, hName, if_true,
          Prod.mk.injEq] at hEq
        rw [← hEq.1, ← hEq.2, ← hName, hCount]
        simp [Move.tried, hName]
      · simp only [tryAgain, hName, if_false,
          Prod.mk.injEq] at hEq
        rw [← hEq.1, ← hEq.2, hCount]
        simp [Move.tried, Ne.symm hName]
  | settle name =>
      exact hSound.counted id n (List.mem_filter.mp hWaiting).1

theorem Sound.bounded_step
    (hSound : Sound limit T)
    (hAllowed : Allowed limit T m)
    (id : ι) :
    (T.step m).tries.count id ≤ max 1 limit := by
  have hBounded := hSound.bounded id
  rw [count_tries_step]
  by_cases hTried : m.tried = some id
  · rw [if_pos hTried]
    cases m with
    | issue name tried kept =>
        have hNever : id ∉ T.tries := by
          intro h
          cases tried with
          | false => contradiction
          | true =>
              rw [Option.some.inj hTried] at hAllowed
              exact hAllowed.1 (hSound.issued id (.inr h))
        rw [List.count_eq_zero.mpr hNever]
        exact Nat.le_max_left 1 limit
    | again name =>
        rcases hAllowed with ⟨n, hWaits, hLeft⟩
        rw [Option.some.inj hTried] at hWaits
        rw [hSound.counted id n hWaits]
        exact Nat.le_trans hLeft (Nat.le_max_right 1 limit)
    | settle name => contradiction
  · rw [if_neg hTried]
    exact hBounded

/- The step lemma. -/
theorem Sound.step
    (hSound : Sound limit T)
    (hAllowed : Allowed limit T m) :
    Sound limit (T.step m) where
  keyed := hSound.keyed_step hAllowed
  issued := by
    intro id hSome
    have hIssued :
        (T.step m).issued = T.issued ++ m.issued.toList := rfl
    rw [hIssued, List.mem_append, Option.mem_toList]
    have hOld :
        id ∈ T.kept ∨ id ∈ T.tries →
          id ∈ T.issued ∨ m.issued = some id :=
      fun h => .inl (hSound.issued id h)
    rcases hSome with hKept | hTries
    · rcases List.mem_append.mp hKept with hThere | hHere
      · exact hOld (.inl hThere)
      · rw [Option.mem_toList] at hHere
        cases m with
        | issue name tried kept =>
            cases kept with
            | false => contradiction
            | true => exact .inr hHere
        | _ => contradiction
    · rcases List.mem_append.mp hTries with hThere | hHere
      · exact hOld (.inr hThere)
      · rcases hAllowed.tried_cases
          (Option.mem_toList.mp hHere) with
          ⟨-, hIssue⟩ | hWaits
        · exact .inr hIssue
        · exact .inl (hSound.waits_issued hWaits)
  kept := by
    intro id
    have hKept :
        (T.step m).kept = T.kept ++ m.kept.toList := rfl
    have hSettled :
        (T.step m).settled =
          T.settled ++ m.settled.toList := rfl
    rw [hKept, hSettled, List.mem_append, List.mem_append,
      Option.mem_toList, Option.mem_toList, waits_step,
      hSound.kept]
    have hWaits : m.settled = some id → T.Waits id :=
      hAllowed.settled_waits
    tauto
  apart := by
    intro id hSettled hWaits
    rcases waits_step id |>.mp hWaits with
      ⟨hOld, hNot⟩ | hKept
    · rcases List.mem_append.mp hSettled with hThere | hHere
      · exact hSound.apart id hThere hOld
      · exact hNot (Option.mem_toList.mp hHere)
    · rcases hAllowed.kept_new hKept with ⟨hNew, hNot⟩
      rcases List.mem_append.mp hSettled with hThere | hHere
      · exact hNew (hSound.settled_issued hThere)
      · exact hNot (Option.mem_toList.mp hHere)
  once := by
    have hSettled :
        (T.step m).settled =
          T.settled ++ m.settled.toList := rfl
    rw [hSettled]
    cases hHere : m.settled with
    | none => simpa using hSound.once
    | some name =>
        have hWaits := hAllowed.settled_waits hHere
        apply List.Nodup.append hSound.once
          (List.nodup_singleton name)
        intro id hThere hName
        rw [List.mem_singleton.mp hName] at hThere
        exact hSound.apart name hThere hWaits
  counted := hSound.counted_step hAllowed
  bounded := hSound.bounded_step hAllowed

/- The run lemma. -/
theorem Sound.perform
    (hSound : Sound limit T)
    (hLegal : Legal limit T ms) :
    Sound limit (T.perform ms) := by
  induction ms generalizing T with
  | nil => exact hSound
  | cons m ms ih => exact ih (hSound.step hLegal.1) hLegal.2

------------------------------------------------------------
-- One Outcome
------------------------------------------------------------

section FromTheStart

variable (hLegal : Legal limit ({} : Tasks ι) ms)
include hLegal

/- No task is settled twice. -/
theorem settled_at_most_once (id : ι) :
    (ms.filterMap Move.settled).count id ≤ 1 := by
  have hOnce := (sound_new.perform hLegal).once
  rw [perform_settled] at hOnce
  exact List.nodup_iff_count_le_one.mp hOnce id

/- No task is tried more often than the limit, or once. -/
theorem tried_at_most (id : ι) :
    (ms.filterMap Move.tried).count id ≤ max 1 limit := by
  have hBounded := (sound_new.perform hLegal).bounded id
  rw [perform_tries] at hBounded
  exact hBounded

/- What was kept waits until it is settled. -/
theorem kept_iff (id : ι) :
    id ∈ ms.filterMap Move.kept ↔
      (({} : Tasks ι).perform ms).Waits id ∨
        id ∈ ms.filterMap Move.settled := by
  have hKept := (sound_new.perform hLegal).kept id
  rw [perform_kept, perform_settled] at hKept
  exact hKept

theorem not_waits_of_settled
    {id : ι}
    (hSettled : id ∈ ms.filterMap Move.settled) :
    ¬ (({} : Tasks ι).perform ms).Waits id := by
  apply (sound_new.perform hLegal).apart
  rw [perform_settled]
  exact List.mem_append_right _ hSettled

/- What waits is what was kept and is not settled. -/
theorem waits_iff (id : ι) :
    (({} : Tasks ι).perform ms).Waits id ↔
      id ∈ ms.filterMap Move.kept ∧
        id ∉ ms.filterMap Move.settled := by
  have hApart :
      id ∈ ms.filterMap Move.settled →
        ¬ (({} : Tasks ι).perform ms).Waits id :=
    not_waits_of_settled hLegal
  rw [kept_iff hLegal id]
  tauto

end FromTheStart

/- What is settled was kept before. -/
theorem kept_of_settled
    (hLegal : Legal limit ({} : Tasks ι) (ms ++ m :: more))
    {id : ι}
    (hSettled : m.settled = some id) :
    id ∈ ms.filterMap Move.kept := by
  rcases legal_append.mp hLegal with ⟨hBefore, hAfter⟩
  exact (kept_iff hBefore id).mpr
    (.inl (hAfter.1.settled_waits hSettled))

/- What is settled is not tried any more. -/
theorem not_settled_of_tried
    (hLegal : Legal limit ({} : Tasks ι) (ms ++ m :: more))
    {id : ι}
    (hTried : m.tried = some id) :
    id ∉ ms.filterMap Move.settled := by
  rcases legal_append.mp hLegal with ⟨hBefore, hAfter⟩
  have hSound := sound_new.perform hBefore
  intro hSettled
  have hThere : id ∈ (({} : Tasks ι).perform ms).settled := by
    rw [perform_settled]
    exact List.mem_append_right _ hSettled
  rcases hAfter.1.tried_cases hTried with
    ⟨hNew, -⟩ | hWaits
  · exact hNew (hSound.settled_issued hThere)
  · exact hSound.apart id hThere hWaits

end Tasks
