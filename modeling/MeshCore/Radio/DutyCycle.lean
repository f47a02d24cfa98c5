import MeshCore.Defines
import MeshCore.Library.Run
import MeshCore.Library.Window
import Mathlib.Tactic.SplitIfs

/-
  The duty cycle: a sliding window of "when and for how
  long", so that the budget is spent on measured airtime.

  The slots are expired lazily and by every query, so a
  query has a new state beside its answer.

  Key definitions include:
    * `DutyCycle`
    * `DutyCycle.allows`, `DutyCycle.record`
    * `Drive`, `Drive.call`, `Drive.Step`
    * `Drive.Kept`

  Key facts include:
    * `Drive.exact_of_run`
    * `Drive.kept_of_run`
    * `Drive.duty_cycle_is_kept_iff`
-/

namespace MeshCore

/- When a transmission started and how long it lasted. -/
structure Slot where
  atMs : Millis := 0
  airtimeUs : UInt32 := 0
deriving DecidableEq, Repr

structure DutyCycle where
  percent : UInt8
  window : Millis := 3600000
  slots : List Slot := []
  usedUs : UInt64 := 0
deriving DecidableEq, Repr

namespace DutyCycle

/- The loop of `expire`: slots leave from the front. -/
def expireSlots
    (window now : Millis) :
    List Slot → UInt64 → List Slot × UInt64
| [], used => ([], used)
| slot :: rest, used =>
    if slot.atMs + window ≤ now then
      expireSlots window now rest
        (used - slot.airtimeUs.toUInt64)
    else (slot :: rest, used)

def expire (d : DutyCycle) (now : Millis) : DutyCycle :=
  let left := expireSlots d.window now d.slots d.usedUs
  { d with
    slots := left.1
    usedUs := left.2 }

def record
    (d : DutyCycle)
    (now : Millis)
    (airtimeUs : UInt32) :
    DutyCycle :=
  let d := d.expire now
  { d with
    slots :=
      d.slots ++ [{ atMs := now, airtimeUs := airtimeUs }]
    usedUs := d.usedUs + airtimeUs.toUInt64 }

def budgetUs (d : DutyCycle) : UInt64 :=
  d.window * 1000 * d.percent.toUInt64 / 100

def allows
    (d : DutyCycle)
    (now : Millis)
    (airtimeUs : UInt32) :
    Bool × DutyCycle :=
  if 100 ≤ d.percent then (true, d)
  else
    let d := d.expire now
    (decide (d.usedUs + airtimeUs.toUInt64 ≤ d.budgetUs), d)

def usedPermille
    (d : DutyCycle)
    (now : Millis) :
    UInt32 × DutyCycle :=
  let d := d.expire now
  let windowUs := d.window * 1000
  if windowUs = 0 then (0, d)
  else ((d.usedUs * 1000 / windowUs).toUInt32, d)

------------------------------------------------------------
-- Expiring
------------------------------------------------------------

@[simp] theorem window_expire
    (d : DutyCycle) (now : Millis) :
    (d.expire now).window = d.window :=
  rfl

@[simp] theorem budgetUs_expire
    (d : DutyCycle) (now : Millis) :
    (d.expire now).budgetUs = d.budgetUs :=
  rfl

/- What a list of transmissions holds the air for. -/
abbrev airtimeOf (log : List Slot) : Nat :=
  Window.total (fun slot => slot.airtimeUs.toNat) log

theorem airtimeOf_append (log more : List Slot) :
    airtimeOf (log ++ more) =
      airtimeOf log + airtimeOf more :=
  Window.total_append _ log more

/- The running sum is the sum of what remains. -/
def Exact (d : DutyCycle) : Prop :=
  airtimeOf d.slots = d.usedUs.toNat

/-
  The loop drops a front part of the slots, each of them
  out of the window, and takes from the sum what they add.
-/
theorem expireSlots_eq
    (window now : Millis)
    (slots : List Slot)
    (used : UInt64)
    (hExact : airtimeOf slots = used.toNat) :
    ∃ gone,
      slots = gone ++ (expireSlots window now slots used).1 ∧
      (∀ slot ∈ gone, slot.atMs + window ≤ now) ∧
      airtimeOf (expireSlots window now slots used).1 =
        (expireSlots window now slots used).2.toNat := by
  induction slots generalizing used with
  | nil => exact ⟨[], by simp [expireSlots], by simp, hExact⟩
  | cons slot rest ih =>
      by_cases hOld : slot.atMs + window ≤ now
      · have hLess :
            (used - slot.airtimeUs.toUInt64).toNat =
              used.toNat - slot.airtimeUs.toNat := by
          rw [UInt64.toNat_sub_of_le]
          · simp
          · rw [UInt64.le_iff_toNat_le,
              UInt32.toNat_toUInt64, ← hExact]
            simp
        have hRest :
            airtimeOf rest =
              (used - slot.airtimeUs.toUInt64).toNat := by
          rw [hLess, ← hExact]
          simp
        rcases ih _ hRest with ⟨gone, hSplit, hGone, hSum⟩
        simp only [expireSlots, if_pos hOld]
        refine ⟨slot :: gone, ?_, ?_, hSum⟩
        · rw [List.cons_append, ← hSplit]
        · intro old hMem
          rcases List.mem_cons.mp hMem with rfl | hMem
          · exact hOld
          · exact hGone old hMem
      · simp only [expireSlots, if_neg hOld]
        exact ⟨[], by simp, by simp, hExact⟩

theorem expire_eq
    {d : DutyCycle}
    (hExact : d.Exact)
    (now : Millis) :
    ∃ gone,
      d.slots = gone ++ (d.expire now).slots ∧
      (∀ slot ∈ gone, slot.atMs + d.window ≤ now) ∧
      (d.expire now).Exact :=
  expireSlots_eq d.window now d.slots d.usedUs hExact

/- Whatever is expired next, the sum never underflows. -/
theorem Exact.le_usedUs
    {d : DutyCycle} {gone kept : List Slot}
    (hExact : d.Exact)
    (hSplit : d.slots = gone ++ kept) :
    airtimeOf gone ≤ d.usedUs.toNat := by
  rw [← hExact, hSplit, airtimeOf_append]
  omega

/- Expiring only takes from the sum. -/
theorem usedUs_expire_le
    {d : DutyCycle}
    (hExact : d.Exact)
    (now : Millis) :
    (d.expire now).usedUs.toNat ≤ d.usedUs.toNat := by
  rcases expire_eq hExact now with
    ⟨gone, hSplit, _, hSum⟩
  rw [← hSum, ← hExact, hSplit, airtimeOf_append]
  omega

/- Below the ceiling every question expires first. -/
theorem allows_eq
    {d : DutyCycle}
    (hPercent : d.percent < 100)
    (now : Millis) (airtimeUs : UInt32) :
    d.allows now airtimeUs =
      (decide ((d.expire now).usedUs +
          airtimeUs.toUInt64 ≤ d.budgetUs),
        d.expire now) := by
  have hBelow : ¬ 100 ≤ d.percent := by
    rw [UInt8.le_iff_toNat_le]
    rw [UInt8.lt_iff_toNat_lt] at hPercent
    omega
  simp only [allows, if_neg hBelow]
  rfl

theorem snd_usedPermille
    (d : DutyCycle) (now : Millis) :
    (d.usedPermille now).2 = d.expire now := by
  simp only [usedPermille]
  split <;> rfl

/- The budget is reckoned modulo 2^64: never too large. -/
theorem budgetUs_le (d : DutyCycle) :
    d.budgetUs.toNat ≤
      d.window.toNat * 1000 * d.percent.toNat / 100 := by
  simp only [budgetUs, UInt64.toNat_div, UInt64.toNat_mul,
    UInt8.toNat_toUInt64]
  apply Nat.div_le_div_right
  apply Nat.le_trans (Nat.mod_le _ _)
  exact Nat.mul_le_mul_right _ (Nat.mod_le _ _)

/- It leaves room for one more frame in the sum. -/
theorem budgetUs_lt (d : DutyCycle) :
    d.budgetUs.toNat + 2 ^ 32 < 2 ^ 64 := by
  have hAll := (d.window * 1000 *
    d.percent.toUInt64).toNat_lt
  simp only [budgetUs, UInt64.toNat_div]
  change _ / 100 + _ < _
  omega

/- So the comparison is made on the numbers themselves. -/
theorem toNat_add_le_of_allowed
    {d : DutyCycle} {used : UInt64} {airtimeUs : UInt32}
    (hUsed : used ≤ d.budgetUs)
    (hAllowed : used + airtimeUs.toUInt64 ≤ d.budgetUs) :
    (used + airtimeUs.toUInt64).toNat =
        used.toNat + airtimeUs.toNat ∧
      used.toNat + airtimeUs.toNat ≤
        d.budgetUs.toNat := by
  rw [UInt64.le_iff_toNat_le] at hUsed hAllowed
  have hRoom := d.budgetUs_lt
  have hAirtime := airtimeUs.toNat_lt
  have hSum :
      (used + airtimeUs.toUInt64).toNat =
        used.toNat + airtimeUs.toNat := by
    rw [UInt64.toNat_add, UInt32.toNat_toUInt64]
    apply Nat.mod_eq_of_lt
    omega
  exact ⟨hSum, by omega⟩

end DutyCycle

------------------------------------------------------------
-- Driving
------------------------------------------------------------

/- What a driver asks of its duty cycle. -/
inductive DutyCall where
| allows (now : Millis) (airtimeUs : UInt32)
| usedPermille (now : Millis)
| transmit (now : Millis) (airtimeUs : UInt32)
deriving DecidableEq, Repr

def DutyCall.now : DutyCall → Millis
| .allows now _ => now
| .usedPermille now => now
| .transmit now _ => now

/-
  A duty cycle that is being driven, everything recorded so
  far, and the time of the last call.
-/
structure Drive where
  duty : DutyCycle
  log : List Slot := []
  last : Millis := 0
deriving DecidableEq, Repr

namespace Drive

open DutyCycle

/- A new one. -/
def start (percent : UInt8) (window : Millis) : Drive :=
  { duty := { percent := percent, window := window } }

/-
  To transmit is to ask and, when the answer is yes, to
  record right away what was asked for.
-/
def call (s : Drive) : DutyCall → Drive
| .allows now airtimeUs =>
    { s with
      duty := (s.duty.allows now airtimeUs).2
      last := now }
| .usedPermille now =>
    { s with
      duty := (s.duty.usedPermille now).2
      last := now }
| .transmit now airtimeUs =>
    let answer := s.duty.allows now airtimeUs
    if answer.1 then
      { duty := answer.2.record now airtimeUs
        log :=
          s.log ++
            [{ atMs := now, airtimeUs := airtimeUs }]
        last := now }
    else
      { s with
        duty := answer.2
        last := now }

/- Times never decrease. -/
def Step (s : Drive) (c : DutyCall) (s' : Drive) : Prop :=
  s.last ≤ c.now ∧ s.call c = s'

@[simp] theorem last_call (s : Drive) (c : DutyCall) :
    (s.call c).last = c.now := by
  cases c with
  | allows now airtimeUs => rfl
  | usedPermille now => rfl
  | transmit now airtimeUs =>
      simp only [call]
      split <;> rfl

theorem call_transmit
    {s : Drive} {d : DutyCycle}
    {now : Millis} {airtimeUs : UInt32}
    (hAllows : s.duty.allows now airtimeUs = (true, d)) :
    s.call (.transmit now airtimeUs) =
      { duty := d.record now airtimeUs
        log :=
          s.log ++
            [{ atMs := now, airtimeUs := airtimeUs }]
        last := now } := by
  simp [call, hAllows]

/- The airtime of every window is within the budget. -/
def Kept (s : Drive) : Prop :=
  ∀ t : Nat,
    Window.spentIn
        (fun slot => slot.atMs.toNat)
        (fun slot => slot.airtimeUs.toNat)
        s.duty.window.toNat s.log t ≤
      s.duty.window.toNat * 1000 *
        s.duty.percent.toNat / 100

------------------------------------------------------------
-- The Invariant
------------------------------------------------------------

/-
  What holds between the slots, the sum and the log. The
  last fact is the only one that needs the clock to stay
  clear of the end of its range.
-/
structure Ledger
    (percent : UInt8)
    (window : Millis)
    (s : Drive) :
    Prop where
  percent_eq : s.duty.percent = percent
  window_eq : s.duty.window = window
  exact : s.duty.Exact
  used_le : s.duty.usedUs ≤ s.duty.budgetUs
  past : ∀ slot ∈ s.log, slot.atMs ≤ s.last
  affordable :
    ∀ slot ∈ s.log,
      slot.airtimeUs.toNat ≤ s.duty.budgetUs.toNat
  remembers :
    s.last.toNat + window.toNat < 2 ^ 64 →
      ∃ gone,
        s.log = gone ++ s.duty.slots ∧
        ∀ slot ∈ gone,
          slot.atMs.toNat + window.toNat ≤ s.last.toNat
  kept :
    s.last.toNat + window.toNat < 2 ^ 64 → s.Kept

theorem ledger_start (percent : UInt8) (window : Millis) :
    Ledger percent window (start percent window) where
  percent_eq := rfl
  window_eq := rfl
  exact := rfl
  used_le := by
    rw [UInt64.le_iff_toNat_le]
    exact Nat.zero_le _
  past := by simp [start]
  affordable := by simp [start]
  remembers := fun _ => ⟨[], rfl, by simp⟩
  kept := by
    intro _ t
    exact Nat.zero_le _

/- Time passes, and what is out of the window leaves. -/
theorem Ledger.expire
    {percent : UInt8} {window : Millis} {s : Drive}
    (hLedger : Ledger percent window s)
    {now : Millis}
    (hNow : s.last ≤ now) :
    Ledger percent window
      { s with
        duty := s.duty.expire now
        last := now } := by
  rcases expire_eq hLedger.exact now with
    ⟨gone, hSplit, hGone, hExact⟩
  rw [UInt64.le_iff_toNat_le] at hNow
  refine
    { percent_eq := hLedger.percent_eq
      window_eq := hLedger.window_eq
      exact := hExact
      used_le := ?_
      past := ?_
      affordable := hLedger.affordable
      remembers := ?_
      kept := ?_ }
  · have hUsed := hLedger.used_le
    rw [UInt64.le_iff_toNat_le] at hUsed ⊢
    exact Nat.le_trans
      (usedUs_expire_le hLedger.exact now) hUsed
  · intro slot hSlot
    have hPast := hLedger.past slot hSlot
    rw [UInt64.le_iff_toNat_le] at hPast ⊢
    exact Nat.le_trans hPast hNow
  · intro hClear
    simp only at hClear ⊢
    rcases hLedger.remembers (by omega) with
      ⟨before, hLog, hBefore⟩
    refine ⟨before ++ gone, ?_, ?_⟩
    · rw [List.append_assoc, ← hSplit]
      exact hLog
    · intro slot hSlot
      rcases List.mem_append.mp hSlot with hSlot | hSlot
      · have hOld := hBefore slot hSlot
        omega
      · have hOld := hGone slot hSlot
        have hPast := hLedger.past slot (by
          rw [hLog, hSplit]
          simp [hSlot])
        rw [UInt64.le_iff_toNat_le] at hOld hPast
        -- the sum does not wrap: the slot is in the past
        rw [UInt64.toNat_add, hLedger.window_eq,
          Nat.mod_eq_of_lt (by omega)] at hOld
        exact hOld
  · intro hClear
    simp only at hClear
    exact hLedger.kept (by omega)

/- A transmission that was allowed is recorded. -/
theorem Ledger.record
    {percent : UInt8} {window : Millis} {s : Drive}
    (hLedger : Ledger percent window s)
    {airtimeUs : UInt32}
    (hAllowed :
      s.duty.usedUs + airtimeUs.toUInt64 ≤
        s.duty.budgetUs) :
    Ledger percent window
      { duty := s.duty.record s.last airtimeUs
        log :=
          s.log ++
            [{ atMs := s.last, airtimeUs := airtimeUs }]
        last := s.last } := by
  have hBefore := hLedger.expire (UInt64.le_refl s.last)
  have hLess := usedUs_expire_le hLedger.exact s.last
  rcases toNat_add_le_of_allowed hLedger.used_le hAllowed
    with ⟨_, hFits⟩
  have hRoom := s.duty.budgetUs_lt
  have hAirtime := airtimeUs.toNat_lt
  have hSum :
      ((s.duty.expire s.last).usedUs +
          airtimeUs.toUInt64).toNat =
        (s.duty.expire s.last).usedUs.toNat +
          airtimeUs.toNat := by
    rw [UInt64.toNat_add, UInt32.toNat_toUInt64]
    apply Nat.mod_eq_of_lt
    omega
  refine
    { percent_eq := hLedger.percent_eq
      window_eq := hLedger.window_eq
      exact := ?_
      used_le := ?_
      past := ?_
      affordable := ?_
      remembers := ?_
      kept := ?_ }
  · have hExact := hBefore.exact
    simp only [DutyCycle.Exact, DutyCycle.record,
      airtimeOf_append, hSum] at hExact ⊢
    rw [hExact]
    simp
  · simp only [DutyCycle.record]
    rw [UInt64.le_iff_toNat_le, hSum]
    change _ ≤ s.duty.budgetUs.toNat
    omega
  · intro slot hSlot
    rcases List.mem_append.mp hSlot with hSlot | hSlot
    · exact hLedger.past slot hSlot
    · rw [List.mem_singleton.mp hSlot]
      exact UInt64.le_refl _
  · intro slot hSlot
    change _ ≤ s.duty.budgetUs.toNat
    rcases List.mem_append.mp hSlot with hSlot | hSlot
    · exact hLedger.affordable slot hSlot
    · rw [List.mem_singleton.mp hSlot]
      change airtimeUs.toNat ≤ _
      omega
  · intro hClear
    rcases hBefore.remembers hClear with
      ⟨gone, hLog, hGone⟩
    refine ⟨gone, ?_, hGone⟩
    simp only [DutyCycle.record] at hLog ⊢
    rw [hLog, List.append_assoc]
  · intro hClear t
    rcases hBefore.remembers hClear with
      ⟨gone, hLog, hGone⟩
    have hKept := hLedger.kept hClear
    have hExact := hBefore.exact
    have hBudget := s.duty.budgetUs_le
    simp only [Kept, hLedger.window_eq] at hKept
    simp only [DutyCycle.record, window_expire,
      hLedger.window_eq]
    simp only at hLog
    rw [hLog] at hKept ⊢
    apply Window.spentIn_snoc_le
    · exact hGone
    · simp only [DutyCycle.Exact, airtimeOf] at hExact
      rw [hLedger.window_eq] at hBudget
      rw [hExact]
      apply Nat.le_trans _ hBudget
      change _ + airtimeUs.toNat ≤ _
      omega
    · exact hKept

/- Every call keeps the ledger. -/
theorem Ledger.call
    {percent : UInt8} {window : Millis} {s : Drive}
    (hPercent : percent < 100)
    (hLedger : Ledger percent window s)
    {c : DutyCall}
    (hNow : s.last ≤ c.now) :
    Ledger percent window (s.call c) := by
  have hDuty : s.duty.percent < 100 := by
    rw [hLedger.percent_eq]
    exact hPercent
  have hExpired := hLedger.expire hNow
  cases c with
  | allows now airtimeUs =>
      simp only [Drive.call, allows_eq hDuty]
      exact hExpired
  | usedPermille now =>
      simp only [Drive.call, snd_usedPermille]
      exact hExpired
  | transmit now airtimeUs =>
      simp only [Drive.call, allows_eq hDuty]
      split_ifs with hAllowed
      · exact hExpired.record (of_decide_eq_true hAllowed)
      · exact hExpired

theorem ledger_of_run
    {percent : UInt8} {window : Millis} {s : Drive}
    {ts : List (Transition Drive DutyCall)}
    (hPercent : percent < 100)
    (hRun : Run Step (start percent window) ts s) :
    Ledger percent window s := by
  apply hRun.invariant (ledger_start percent window)
  rintro s c _ hLedger ⟨hNow, rfl⟩
  exact hLedger.call hPercent hNow

/- The sum is exact in every state, whatever the clock. -/
theorem exact_of_run
    {percent : UInt8} {window : Millis} {s : Drive}
    {ts : List (Transition Drive DutyCall)}
    (hPercent : percent < 100)
    (hRun : Run Step (start percent window) ts s) :
    s.duty.Exact :=
  (ledger_of_run hPercent hRun).exact

/- Clear of the end of the clock, no window is overspent. -/
theorem kept_of_run
    {percent : UInt8} {window : Millis} {s : Drive}
    {ts : List (Transition Drive DutyCall)}
    (hPercent : percent < 100)
    (hRun : Run Step (start percent window) ts s)
    (hClear : s.last.toNat + window.toNat < 2 ^ 64) :
    s.Kept :=
  (ledger_of_run hPercent hRun).kept hClear

/- Without a budget nothing that lasts is ever recorded. -/
theorem kept_of_budget_zero
    {percent : UInt8} {window : Millis} {s : Drive}
    {ts : List (Transition Drive DutyCall)}
    (hPercent : percent < 100)
    (hRun : Run Step (start percent window) ts s)
    (hZero : (start percent window).duty.budgetUs = 0) :
    s.Kept := by
  have hLedger := ledger_of_run hPercent hRun
  have hBudget : s.duty.budgetUs = 0 := by
    rw [← hZero]
    simp only [DutyCycle.budgetUs, hLedger.percent_eq,
      hLedger.window_eq, start]
  have hNone : airtimeOf s.log = 0 := by
    simp only [airtimeOf, Window.total]
    apply List.sum_eq_zero
    intro cost hCost
    rcases List.mem_map.mp hCost with ⟨slot, hSlot, rfl⟩
    have hAffordable := hLedger.affordable slot hSlot
    rw [hBudget] at hAffordable
    exact Nat.le_zero.mp hAffordable
  intro t
  apply Nat.le_trans (Window.spentIn_le_total _ _ _ _ t)
  apply Nat.le_trans (Nat.le_of_eq hNone)
  exact Nat.zero_le _

------------------------------------------------------------
-- The End Of The Clock
------------------------------------------------------------

/-
  The same microsecond, recorded over and over at a time
  whose sum with the window wraps around.
-/
def overspent
    (percent : UInt8)
    (window limit : Millis)
    (n : Nat) :
    Drive where
  duty :=
    { percent := percent
      window := window
      slots := [{ atMs := limit, airtimeUs := 1 }]
      usedUs := 1 }
  log :=
    List.replicate (n + 1)
      { atMs := limit, airtimeUs := 1 }
  last := limit

/- There the slot has left before the next one comes. -/
theorem overspent_step
    {percent : UInt8} {window limit : Millis}
    (hPercent : percent < 100)
    (hWrap : limit + window ≤ limit)
    (hBudget :
      1 ≤ (start percent window).duty.budgetUs)
    (n : Nat) :
    Step (overspent percent window limit n)
      (.transmit limit 1)
      (overspent percent window limit (n + 1)) := by
  have hExpire :
      (overspent percent window limit n).duty.expire
          limit =
        (start percent window).duty := by
    simp only [DutyCycle.expire, overspent,
      DutyCycle.expireSlots, if_pos hWrap, start]
    rfl
  have hAllows :=
    allows_eq
      (d := (overspent percent window limit n).duty)
      hPercent limit 1
  rw [hExpire] at hAllows
  have hYes :
      (start percent window).duty.usedUs +
          (1 : UInt32).toUInt64 ≤
        (overspent percent window limit n).duty.budgetUs :=
    hBudget
  rw [decide_eq_true hYes] at hAllows
  refine ⟨UInt64.le_refl _, ?_⟩
  rw [call_transmit hAllows]
  simp only [overspent, List.replicate_succ' (n := n + 1)]
  rfl

theorem run_overspent
    {percent : UInt8} {window limit : Millis}
    (hPercent : percent < 100)
    (hWrap : limit + window ≤ limit)
    (hBudget :
      1 ≤ (start percent window).duty.budgetUs)
    (n : Nat) :
    ∃ ts,
      Run Step (start percent window) ts
        (overspent percent window limit n) := by
  induction n with
  | zero =>
      have hAllows :=
        allows_eq (d := (start percent window).duty)
          hPercent limit 1
      have hYes :
          ((start percent window).duty.expire
              limit).usedUs + (1 : UInt32).toUInt64 ≤
            (start percent window).duty.budgetUs :=
        hBudget
      rw [decide_eq_true hYes] at hAllows
      refine ⟨_, Run.single (e := .transmit limit 1)
        ⟨?_, ?_⟩⟩
      · rw [UInt64.le_iff_toNat_le]
        exact Nat.zero_le _
      · rw [call_transmit hAllows]
        rfl
  | succ n ih =>
      rcases ih with ⟨ts, hRun⟩
      exact ⟨_, .step hRun
        (overspent_step hPercent hWrap hBudget n)⟩

/- What was recorded there all falls into one window. -/
theorem spentIn_overspent
    (percent : UInt8) (limit : Millis)
    {window : Millis}
    (hWindow : 0 < window.toNat)
    (n : Nat) :
    Window.spentIn
        (fun slot : Slot => slot.atMs.toNat)
        (fun slot => slot.airtimeUs.toNat)
        window.toNat (overspent percent window limit n).log
        limit.toNat = n + 1 := by
  have hIn :
      Window.InWindow
        (fun slot : Slot => slot.atMs.toNat)
        window.toNat limit.toNat
        { atMs := limit, airtimeUs := 1 } := by
    constructor
    · exact Nat.le_refl _
    · change limit.toNat < limit.toNat + window.toNat
      omega
  simp [Window.spentIn, Window.total, overspent, hIn]

/-
  The duty cycle is kept, with the running sum exact in
  every state, by every driver whose clock stays clear of
  the last `window` milliseconds of its range. Beyond them
  `at + window_` wraps, a slot expires as soon as it is
  recorded, and any budget at all can be overspent.
-/
theorem duty_cycle_is_kept_iff
    (percent : UInt8)
    (window limit : Millis)
    (hPercent : percent < 100) :
    (∀ ts s,
      Run Step (start percent window) ts s →
        s.duty.Exact ∧
        ∀ gone kept,
          s.duty.slots = gone ++ kept →
            airtimeOf gone ≤ s.duty.usedUs.toNat) ∧
    ((∀ ts s,
      Run Step (start percent window) ts s →
        s.last ≤ limit → s.Kept) ↔
      limit.toNat + window.toNat < 2 ^ 64 ∨
        (start percent window).duty.budgetUs = 0) := by
  constructor
  · intro ts s hRun
    have hExact := exact_of_run hPercent hRun
    exact ⟨hExact, fun _ _ => hExact.le_usedUs⟩
  · constructor
    · intro hKept
      by_contra hNot
      rcases not_or.mp hNot with ⟨hEnd, hSome⟩
      have hWindow : 0 < window.toNat := by
        have hLimit := limit.toNat_lt
        omega
      have hWrap : limit + window ≤ limit := by
        have hLimit := limit.toNat_lt
        have hOther := window.toNat_lt
        rw [UInt64.le_iff_toNat_le, UInt64.toNat_add]
        omega
      have hBudget :
          1 ≤ (start percent window).duty.budgetUs := by
        rw [UInt64.le_iff_toNat_le]
        rw [← UInt64.toNat_inj] at hSome
        exact Nat.pos_of_ne_zero hSome
      rcases run_overspent hPercent hWrap hBudget
          (window.toNat * 1000 * percent.toNat / 100) with
        ⟨ts, hRun⟩
      have hThis :=
        hKept ts _ hRun (UInt64.le_refl _) limit.toNat
      simp only [overspent] at hThis
      have hSpent :=
        spentIn_overspent percent limit hWindow
          (window.toNat * 1000 * percent.toNat / 100)
      simp only [overspent] at hSpent
      omega
    · rintro (hClear | hZero) ts s hRun hLast
      · apply kept_of_run hPercent hRun
        rw [UInt64.le_iff_toNat_le] at hLast
        omega
      · exact kept_of_budget_zero hPercent hRun hZero

/- The hour of the default, up to half its range. -/
theorem default_duty_cycle_is_kept :
    (10 : UInt8) < 100 ∧
    ∀ ts s,
      Run Step (start 10 3600000) ts s →
        s.last ≤ 9223372036854775808 → s.Kept :=
  ⟨by decide,
    (duty_cycle_is_kept_iff 10 3600000
      9223372036854775808 (by decide)).2.mpr
        (.inl (by decide))⟩

/-
  Two transmissions of 300 s, both allowed by a duty cycle
  of 10 % of an hour in the last millisecond of the clock.
-/
def lastMoment : List DutyCall :=
  [.transmit 18446744073709551615 300000000,
    .transmit 18446744073709551615 300000000]

theorem last_moment_is_overspent :
    ¬ ∀ (percent : UInt8) (window : Millis) ts s,
      percent < 100 →
        Run Step (start percent window) ts s → s.Kept := by
  intro hAll
  have hRun :
      Run Step (start 10 3600000)
        (replay call (start 10 3600000) lastMoment)
        (lastMoment.foldl call (start 10 3600000)) :=
    run_replay_of_guard
      (G := fun (s : Drive) (c : DutyCall) =>
        s.last ≤ c.now)
      call (start 10 3600000) lastMoment
      (by decide +kernel)
  have hKept := hAll 10 3600000 _ _ (by decide) hRun
  exact absurd (hKept 18446744073709551615)
    (by decide +kernel)

end Drive

end MeshCore
