import MeshCore.Library.Run

/-
  A counter that starts again with every window, and what it
  bounds: so much within a window, and twice that within any
  interval as long as one, wherever it begins.

  Key definitions include:
    * `Limiter.Slot`, `Limiter.ask`
    * `Limiter.Step`
    * `Limiter.grants`, `Limiter.starts`

  Key rules include:
    * `Limiter.granted_within_window`
    * `Limiter.granted_within_interval`
-/

namespace Limiter

------------------------------------------------------------
-- The Limiter
------------------------------------------------------------

structure Slot where
  start : Nat
  count : Nat

variable (limit window : Nat)

/- The window a request falls in, which it may begin. -/
def Slot.opened (slot : Slot) (now : Nat) : Slot :=
  if now < slot.start ∨ slot.start + window ≤ now then
    { start := now, count := 0 }
  else slot

/- Whether a request is granted, and what is left of it. -/
def ask (slot : Slot) (now : Nat) : Bool × Slot :=
  let slot := slot.opened window now
  if limit ≤ slot.count then (false, slot)
  else (true, { slot with count := slot.count + 1 })

/- A request at a time, or something it does not notice. -/
def Step (slot : Slot) (request : Option Nat) (slot' : Slot) :
    Prop :=
  match request with
  | none => slot' = slot
  | some now => slot' = (ask limit window slot now).2

/- What a limiter does is settled by what it is asked. -/
theorem Step.unique
    {limit window : Nat} {slot next next' : Slot}
    {request : Option Nat}
    (hStep : Step limit window slot request next)
    (hStep' : Step limit window slot request next') :
    next = next' := by
  cases request with
  | none => exact Eq.trans hStep (Eq.symm hStep')
  | some now => exact Eq.trans hStep (Eq.symm hStep')

/- When a request was granted, if it was. -/
def grantOf (t : Transition Slot (Option Nat)) :
    Option Nat :=
  t.event.filter fun now =>
    (ask limit window t.before now).1

/- The times at which something was granted. -/
def grants (ts : List (Transition Slot (Option Nat))) :
    List Nat :=
  ts.filterMap (grantOf limit window)

/- The windows that requests fell in, by their starts. -/
def starts (ts : List (Transition Slot (Option Nat))) :
    List Nat :=
  ts.filterMap fun t => t.event.map fun _ => t.after.start

/- How many of some times are within an interval. -/
def within (times : List Nat) (first after : Nat) : Nat :=
  times.countP fun s => first ≤ s ∧ s < after

@[simp] theorem within_nil (first after : Nat) :
    within [] first after = 0 :=
  rfl

@[simp] theorem within_append
    (times more : List Nat)
    (first after : Nat) :
    within (times ++ more) first after =
      within times first after +
        within more first after :=
  List.countP_append

theorem within_singleton (s first after : Nat) :
    within [s] first after =
      if first ≤ s ∧ s < after then 1 else 0 := by
  simp [within, List.countP_singleton]

/- Inside a longer interval there are no fewer. -/
theorem within_mono
    {times : List Nat} {first after first' after' : Nat}
    (hInside :
      ∀ s ∈ times, first ≤ s → s < after →
        first' ≤ s ∧ s < after') :
    within times first after ≤
      within times first' after' := by
  apply List.countP_mono_left
  intro s hs hIn
  rw [decide_eq_true_eq] at hIn ⊢
  exact hInside s hs hIn.1 hIn.2

/- An interval is cut anywhere into two. -/
theorem within_le_add
    (times : List Nat)
    (first middle after : Nat) :
    within times first after ≤
      within times first middle +
        within times middle after := by
  induction times with
  | nil => exact Nat.le_refl 0
  | cons s times ih =>
      rw [← List.singleton_append]
      simp only [within_append, within_singleton]
      split_ifs <;> omega

------------------------------------------------------------
-- What A Run Has Granted
------------------------------------------------------------

variable {limit window : Nat}
variable {times begun : List Nat} {slot : Slot}
variable {now last : Nat}

/-
  What is true of the grants of a run. The window that is
  open now has counted those since its start; those that are
  still within reach before it belong to one earlier window.
-/
structure Inv
    (limit window : Nat)
    (times begun : List Nat)
    (slot : Slot) :
    Prop where
  counted :
    within times slot.start (slot.start + window) ≤
      min slot.count limit
  young : ∀ s ∈ times, s < slot.start + window
  before :
    ∀ t, slot.start ≤ t + window →
      within times t slot.start ≤ limit
  apart :
    ∀ w ∈ begun,
      w = slot.start ∨ w + window ≤ slot.start
  fixed :
    ∀ w ∈ begun, within times w (w + window) ≤ limit
  sliding :
    ∀ t, within times t (t + window) ≤ 2 * limit

/- Where nothing was asked yet, nothing was granted. -/
theorem Inv.start (slot : Slot) :
    Inv limit window [] [] slot where
  counted := Nat.zero_le _
  young := by simp
  before := by simp
  apart := by simp
  fixed := by simp
  sliding := by simp

/- A request falls in the window it finds or begins. -/
theorem opened_spans
    (hWindow : 0 < window)
    (slot : Slot)
    (now : Nat) :
    (slot.opened window now).start ≤ now ∧
      now < (slot.opened window now).start + window := by
  unfold Slot.opened
  split
  · exact ⟨Nat.le_refl _, Nat.lt_add_of_pos_right hWindow⟩
  next hKept =>
    rw [not_or] at hKept
    omega

theorem ask_spans
    (hWindow : 0 < window)
    (limit : Nat)
    (slot : Slot)
    (now : Nat) :
    let slot' := (ask limit window slot now).2
    slot'.start ≤ now ∧ now < slot'.start + window := by
  have hSpans := opened_spans hWindow slot now
  unfold ask
  dsimp only
  split <;> exact hSpans

/- Beginning a window keeps what is true of the grants. -/
theorem Inv.opened
    (hInv : Inv limit window times begun slot)
    (hBegun :
      slot.start ≤ now ∨ times = [] ∧ begun = []) :
    Inv limit window times begun
      (slot.opened window now) := by
  unfold Slot.opened
  split
  next hReset =>
    rcases hBegun with hBegun | ⟨rfl, rfl⟩
    · have hPast : slot.start + window ≤ now := by omega
      have hCounted := hInv.counted
      refine ⟨?_, ?_, ?_, ?_, hInv.fixed, hInv.sliding⟩
      · have hNone :
            within times now (now + window) ≤
              within times now now := by
          apply within_mono
          intro s hs hFirst _
          have hYoung := hInv.young s hs
          omega
        have hEmpty : within times now now = 0 := by
          apply List.countP_eq_zero.mpr
          intro s _
          simp
        dsimp only
        omega
      · intro s hs
        have hYoung := hInv.young s hs
        dsimp only
        omega
      · intro t hReach
        have hInside :
            within times t now ≤
              within times slot.start
                (slot.start + window) := by
          apply within_mono
          intro s hs hFirst _
          have hYoung := hInv.young s hs
          dsimp only at hReach
          omega
        dsimp only
        omega
      · intro w hw
        have hApart := hInv.apart w hw
        dsimp only
        omega
    · exact .start _
  · exact hInv

/- A request that is refused changes no count. -/
theorem Inv.refused
    (hInv : Inv limit window times begun slot) :
    Inv limit window times (begun ++ [slot.start]) slot where
  counted := hInv.counted
  young := hInv.young
  before := hInv.before
  apart := by
    intro w hw
    rcases List.mem_append.mp hw with hw | hw
    · exact hInv.apart w hw
    · exact .inl (List.mem_singleton.mp hw)
  fixed := by
    intro w hw
    rcases List.mem_append.mp hw with hw | hw
    · exact hInv.fixed w hw
    · rw [List.mem_singleton.mp hw]
      exact Nat.le_trans hInv.counted (Nat.min_le_right _ _)
  sliding := hInv.sliding

/- A request that is granted is one more in its window. -/
theorem Inv.granted
    (hInv : Inv limit window times begun slot)
    (hFirst : slot.start ≤ now)
    (hAfter : now < slot.start + window)
    (hRoom : slot.count < limit) :
    Inv limit window (times ++ [now])
      (begun ++ [slot.start])
      { slot with count := slot.count + 1 } := by
  have hCounted := hInv.counted
  have hFixed :
      within (times ++ [now]) slot.start
          (slot.start + window) ≤
        min (slot.count + 1) limit := by
    rw [within_append, within_singleton,
      if_pos ⟨hFirst, hAfter⟩]
    omega
  refine ⟨hFixed, ?_, ?_, ?_, ?_, ?_⟩
  · intro s hs
    rcases List.mem_append.mp hs with hs | hs
    · exact hInv.young s hs
    · rw [List.mem_singleton.mp hs]
      exact hAfter
  · intro t hReach
    have hBefore := hInv.before t hReach
    rw [within_append, within_singleton,
      if_neg (by dsimp only; omega)]
    exact hBefore
  · exact hInv.refused.apart
  · intro w hw
    rcases List.mem_append.mp hw with hw | hw
    · rcases hInv.apart w hw with rfl | hApart
      · exact Nat.le_trans hFixed (Nat.min_le_right _ _)
      · have hOld := hInv.fixed w hw
        rw [within_append, within_singleton,
          if_neg (by omega)]
        exact hOld
    · rw [List.mem_singleton.mp hw]
      exact Nat.le_trans hFixed (Nat.min_le_right _ _)
  · intro t
    rw [within_append, within_singleton]
    split
    next hIn =>
      -- What is within reach is before the window or in it.
      have hCut :=
        within_le_add times t slot.start (t + window)
      have hBefore := hInv.before t (by omega)
      have hHere :
          within times slot.start (t + window) ≤
            within times slot.start
              (slot.start + window) := by
        apply within_mono
        intro s hs hStart _
        exact ⟨hStart, hInv.young s hs⟩
      omega
    next =>
      exact hInv.sliding t

/- What a request adds to what was granted and opened. -/
theorem Inv.ask
    (hInv : Inv limit window times begun slot)
    (hWindow : 0 < window)
    (hBegun :
      slot.start ≤ now ∨ times = [] ∧ begun = []) :
    let (granted, slot') :=
      Limiter.ask limit window slot now
    Inv limit window
        (times ++ if granted then [now] else [])
        (begun ++ [slot'.start]) slot' ∧
      slot'.start ≤ now := by
  have hOpened := hInv.opened hBegun
  have hSpans := opened_spans hWindow slot now
  unfold Limiter.ask
  dsimp only
  generalize slot.opened window now = here at hOpened hSpans
  split
  · simp only [Bool.false_eq_true, if_false, List.append_nil]
    exact ⟨hOpened.refused, hSpans.1⟩
  next hRoom =>
    simp only [if_true]
    exact ⟨hOpened.granted hSpans.1 hSpans.2
      (Nat.lt_of_not_le hRoom), hSpans.1⟩

------------------------------------------------------------
-- Whole Runs
------------------------------------------------------------

section Runs

variable {ts : List (Transition Slot (Option Nat))}
variable {slot₀ : Slot}

/- The times of the requests, in the order they came. -/
def requests (ts : List (Transition Slot (Option Nat))) :
    List Nat :=
  ts.filterMap (·.event)

/- What one more transition adds to what was granted. -/
theorem grants_snoc
    (limit window : Nat)
    (ts : List (Transition Slot (Option Nat)))
    (t : Transition Slot (Option Nat)) :
    grants limit window (ts ++ [t]) =
      grants limit window ts ++
        (grantOf limit window t).toList := by
  rw [grants, List.filterMap_append]
  cases hGrant : grantOf limit window t <;>
    simp [hGrant, grants]

theorem starts_snoc
    (ts : List (Transition Slot (Option Nat)))
    (t : Transition Slot (Option Nat)) :
    starts (ts ++ [t]) =
      starts ts ++
        (t.event.map fun _ => t.after.start).toList := by
  rw [starts, List.filterMap_append]
  cases hEvent : t.event <;> simp [hEvent, starts]

theorem requests_snoc
    (ts : List (Transition Slot (Option Nat)))
    (t : Transition Slot (Option Nat)) :
    requests (ts ++ [t]) =
      requests ts ++ t.event.toList := by
  rw [requests, List.filterMap_append]
  cases hEvent : t.event <;> simp [hEvent, requests]

theorem toList_filter
    {α : Type}
    (p : α → Bool)
    (a : α) :
    ((some a).filter p).toList =
      if p a then [a] else [] := by
  cases hp : p a <;> simp [Option.filter, hp]

/- Nothing was asked, or no window begins in the future. -/
theorem run_inv
    (hWindow : 0 < window)
    (hRun : Run (Step limit window) slot₀ ts slot)
    (hOrder : (requests ts).Pairwise (· ≤ ·)) :
    Inv limit window (grants limit window ts) (starts ts)
        slot ∧
      (requests ts = [] ∧ grants limit window ts = [] ∧
          starts ts = [] ∨
        ∃ s ∈ requests ts, slot.start ≤ s) := by
  induction hRun with
  | start => exact ⟨.start _, .inl ⟨rfl, rfl, rfl⟩⟩
  | @step ts slot slot' request hRun hStep ih =>
      rw [requests_snoc, List.pairwise_append] at hOrder
      rcases ih hOrder.1 with ⟨hInv, hBegun⟩
      rw [grants_snoc, starts_snoc, requests_snoc]
      cases request with
      | none =>
          have hSame : slot' = slot := hStep
          rw [hSame]
          simpa [grantOf] using And.intro hInv hBegun
      | some now =>
          have hNext :
              slot' = (ask limit window slot now).2 :=
            hStep
          have hReach :
              slot.start ≤ now ∨
                grants limit window ts = [] ∧
                  starts ts = [] := by
            rcases hBegun with hNone | ⟨s, hs, hStart⟩
            · exact .inr hNone.2
            · have hLater := hOrder.2.2 s hs now (by simp)
              exact .inl (Nat.le_trans hStart hLater)
          have hAsk := hInv.ask hWindow hReach
          dsimp only at hAsk
          rw [hNext, grantOf, toList_filter]
          refine ⟨hAsk.1, .inr ⟨now, by simp, ?_⟩⟩
          exact hAsk.2

/- Within a window no more is granted than its limit. -/
theorem granted_within_window
    (hWindow : 0 < window)
    (hRun : Run (Step limit window) slot₀ ts slot)
    (hOrder : (requests ts).Pairwise (· ≤ ·))
    {w : Nat}
    (hStart : w ∈ starts ts) :
    within (grants limit window ts) w (w + window) ≤
      limit :=
  (run_inv hWindow hRun hOrder).1.fixed w hStart

/- Wherever an interval begins, twice that is granted. -/
theorem granted_within_interval
    (hWindow : 0 < window)
    (hRun : Run (Step limit window) slot₀ ts slot)
    (hOrder : (requests ts).Pairwise (· ≤ ·))
    (t : Nat) :
    within (grants limit window ts) t (t + window) ≤
      2 * limit :=
  (run_inv hWindow hRun hOrder).1.sliding t

end Runs

end Limiter
