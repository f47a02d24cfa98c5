import MeshCore.Defines
import MeshCore.Library.Run
import Mathlib.Tactic.SplitIfs
import Mathlib.Logic.Function.Basic

/-
  The transmit queue in front of a half-duplex radio: one
  bounded run of entries, popped by priority and, within a
  priority, by the number each was given when it came.

  What the queue is for is three lines, first come first
  served, of which the first that is not empty goes on. As
  long as the numbers do not wrap, the code does that.

  Key definitions include:
    * `TxQueue`
    * `TxQueue.push`, `TxQueue.pop`
    * `TxQueue.line`
    * `Lines`
    * `TxQueue.popOrder`, `TxQueue.waiting`

  Key facts include:
    * `TxQueue.Ordered.push`, `TxQueue.Ordered.pop`
    * `TxQueue.pop_refines`
    * `TxQueue.popOrder_eq`
-/

namespace MeshCore

/- The three levels of the radio module. -/
inductive TxPriority where
| high
| normal
| low
deriving DecidableEq, Repr

def TxPriority.rank : TxPriority → Nat
| .high => 0
| .normal => 1
| .low => 2

theorem TxPriority.rank_inj
    {P Q : TxPriority}
    (hRank : P.rank = Q.rank) :
    P = Q := by
  cases P <;> cases Q <;> first | rfl | contradiction

structure TxEntry where
  priority : TxPriority
  sequence : UInt64
  frame : Bytes
deriving DecidableEq, Repr

structure TxQueue where
  depth : Nat
  sequence : UInt64 := 0
  entries : List TxEntry := []
deriving DecidableEq, Repr

/- Whether a candidate goes before the best so far. -/
def TxEntry.before (candidate current : TxEntry) : Bool :=
  candidate.priority.rank < current.priority.rank ||
    (candidate.priority == current.priority &&
      candidate.sequence < current.sequence)

namespace TxQueue

/- Refused when full: overflow, not a send failure. -/
def push
    (q : TxQueue)
    (frame : Bytes)
    (priority : TxPriority) :
    Bool × TxQueue :=
  if q.depth ≤ q.entries.length then (false, q)
  else
    (true,
      { q with
        sequence := q.sequence + 1
        entries :=
          q.entries ++
            [{ priority := priority
               sequence := q.sequence
               frame := frame }] })

/- The loop of `pop`, from index `i` on. -/
def scan
    (current : TxEntry)
    (best i : Nat) :
    List TxEntry → Nat
| [] => best
| candidate :: rest =>
    if candidate.before current then
      scan candidate i (i + 1) rest
    else scan current best (i + 1) rest

def pop (q : TxQueue) : Option (TxEntry × TxQueue) :=
  match q.entries with
  | [] => none
  | first :: rest =>
      let best := scan first 0 1 rest
      some
        (q.entries.getD best first,
          { q with entries := q.entries.eraseIdx best })

/- What waits at one level, in the order it is held. -/
def line (q : TxQueue) (P : TxPriority) : List Bytes :=
  (q.entries.filter fun e => e.priority = P).map
    TxEntry.frame

/- What repeated calls of `pop` return. -/
def popAll : Nat → TxQueue → List (TxPriority × Bytes)
| 0, _ => []
| n + 1, q =>
    match q.pop with
    | none => []
    | some (e, q) => (e.priority, e.frame) :: popAll n q

def popOrder (q : TxQueue) : List (TxPriority × Bytes) :=
  popAll q.entries.length q

------------------------------------------------------------
-- The Loop
------------------------------------------------------------

end TxQueue

theorem TxEntry.before_iff (a b : TxEntry) :
    a.before b = true ↔
      a.priority.rank < b.priority.rank ∨
        (a.priority.rank = b.priority.rank ∧
          a.sequence.toNat < b.sequence.toNat) := by
  have hSame :
      (a.priority == b.priority) = true ↔
        a.priority.rank = b.priority.rank := by
    rw [beq_iff_eq]
    constructor
    · intro hEq
      rw [hEq]
    · exact TxPriority.rank_inj
  simp only [before, Bool.or_eq_true, Bool.and_eq_true,
    decide_eq_true_eq, hSame, UInt64.lt_iff_toNat_lt]

namespace TxQueue

/-
  The loop stops at the index of an entry that goes before
  everything in front of it, and that nothing behind it
  goes before.
-/
theorem scan_eq
    (rest : List TxEntry)
    (front middle : List TxEntry)
    (current : TxEntry)
    (hFront : ∀ a ∈ front, current.before a = true)
    (hMiddle : ∀ a ∈ middle, a.before current = false) :
    ∃ as e bs,
      front ++ current :: middle ++ rest =
          as ++ e :: bs ∧
        scan current front.length
            (front ++ current :: middle).length rest =
          as.length ∧
        (∀ a ∈ as, e.before a = true) ∧
        ∀ a ∈ bs, a.before e = false := by
  induction rest generalizing front middle current with
  | nil =>
      exact ⟨front, current, middle, by simp, rfl,
        hFront, hMiddle⟩
  | cons candidate rest ih =>
      by_cases hBefore : candidate.before current = true
      · have hFront' :
            ∀ a ∈ front ++ current :: middle,
              candidate.before a = true := by
          intro a ha
          rw [TxEntry.before_iff] at hBefore ⊢
          rcases List.mem_append.mp ha with ha | ha
          · have hThis := hFront a ha
            rw [TxEntry.before_iff] at hThis
            omega
          · rcases List.mem_cons.mp ha with rfl | ha
            · exact hBefore
            · have hThis := hMiddle a ha
              rw [← Bool.not_eq_true,
                TxEntry.before_iff] at hThis
              omega
        rcases ih (front ++ current :: middle) []
            candidate hFront' (by simp) with
          ⟨as, e, bs, hSplit, hScan, hAs, hBs⟩
        refine ⟨as, e, bs, ?_, ?_, hAs, hBs⟩
        · rw [← hSplit]
          simp
        · simp only [scan, if_pos hBefore]
          rw [← hScan]
          simp [Nat.add_assoc]
      · have hMiddle' :
            ∀ a ∈ middle ++ [candidate],
              a.before current = false := by
          intro a ha
          rcases List.mem_append.mp ha with ha | ha
          · exact hMiddle a ha
          · rw [List.mem_singleton.mp ha]
            exact Bool.eq_false_iff.mpr hBefore
        rcases ih front (middle ++ [candidate]) current
            hFront hMiddle' with
          ⟨as, e, bs, hSplit, hScan, hAs, hBs⟩
        refine ⟨as, e, bs, ?_, ?_, hAs, hBs⟩
        · rw [← hSplit]
          simp
        · simp only [scan, if_neg hBefore]
          rw [← hScan]
          simp [Nat.add_assoc]

theorem pop_eq_none_iff (q : TxQueue) :
    q.pop = none ↔ q.entries = [] := by
  unfold pop
  split <;> simp_all

/- What is popped, and where it was taken from. -/
theorem pop_eq_some
    {q q' : TxQueue} {e : TxEntry}
    (hPop : q.pop = some (e, q')) :
    ∃ as bs,
      q.entries = as ++ e :: bs ∧
        q' = { q with entries := as ++ bs } ∧
        (∀ a ∈ as, e.before a = true) ∧
        ∀ a ∈ bs, a.before e = false := by
  cases hEntries : q.entries with
  | nil => simp [pop, hEntries] at hPop
  | cons first rest =>
      rcases scan_eq rest [] [] first (by simp) (by simp)
        with ⟨as, e', bs, hSplit, hScan, hAs, hBs⟩
      simp only [List.nil_append, List.cons_append,
        List.length_nil, List.length_cons, Nat.zero_add]
        at hSplit hScan
      simp only [pop, hEntries, hScan, Option.some.injEq,
        Prod.mk.injEq] at hPop
      rcases hPop with ⟨hEntry, hQueue⟩
      rw [hSplit] at hEntry hQueue
      have hSame : e' = e := by
        simpa using hEntry
      subst hSame
      refine ⟨as, bs, hSplit, ?_, hAs, hBs⟩
      rw [← hQueue, List.eraseIdx_append_of_length_le
        (Nat.le_refl _)]
      simp

------------------------------------------------------------
-- The Numbers
------------------------------------------------------------

/- Numbers rise along the entries, all below the next. -/
structure Ordered (q : TxQueue) : Prop where
  rising :
    q.entries.Pairwise fun a b =>
      a.sequence.toNat < b.sequence.toNat
  below :
    ∀ e ∈ q.entries, e.sequence.toNat < q.sequence.toNat

theorem ordered_empty (depth : Nat) :
    Ordered { depth := depth } where
  rising := List.Pairwise.nil
  below := by simp

theorem push_full
    {q : TxQueue}
    (hFull : q.depth ≤ q.entries.length)
    (frame : Bytes) (P : TxPriority) :
    q.push frame P = (false, q) := by
  simp [push, hFull]

theorem push_room
    {q : TxQueue}
    (hRoom : q.entries.length < q.depth)
    (frame : Bytes) (P : TxPriority) :
    q.push frame P =
      (true,
        { q with
          sequence := q.sequence + 1
          entries :=
            q.entries ++
              [{ priority := P
                 sequence := q.sequence
                 frame := frame }] }) := by
  simp [push, Nat.not_le.mpr hRoom]

/- A push numbers its entry above all the others. -/
theorem Ordered.push
    {q : TxQueue}
    (hOrdered : q.Ordered)
    (hClear : q.sequence.toNat + 1 < 2 ^ 64)
    (frame : Bytes) (P : TxPriority) :
    (q.push frame P).2.Ordered := by
  by_cases hFull : q.depth ≤ q.entries.length
  · rw [push_full hFull]
    exact hOrdered
  · have hNext :
        (q.sequence + 1).toNat = q.sequence.toNat + 1 := by
      rw [UInt64.toNat_add]
      exact Nat.mod_eq_of_lt hClear
    rw [push_room (Nat.not_le.mp hFull)]
    constructor
    · apply List.pairwise_append.mpr
      refine ⟨hOrdered.rising, by simp, ?_⟩
      intro a ha b hb
      rw [List.mem_singleton.mp hb]
      exact hOrdered.below a ha
    · intro e he
      simp only [hNext]
      rcases List.mem_append.mp he with he | he
      · have hBelow := hOrdered.below e he
        omega
      · rw [List.mem_singleton.mp he]
        exact Nat.lt_succ_self _

/- A pop leaves the order of the others alone. -/
theorem Ordered.pop
    {q q' : TxQueue} {e : TxEntry}
    (hOrdered : q.Ordered)
    (hPop : q.pop = some (e, q')) :
    q'.Ordered := by
  rcases pop_eq_some hPop with ⟨as, bs, hEntries, rfl, _⟩
  have hRising := hOrdered.rising
  have hBelow := hOrdered.below
  rw [hEntries] at hRising hBelow
  constructor
  · apply List.Pairwise.sublist _ hRising
    exact List.Sublist.append_left
      (List.sublist_cons_self e bs) as
  · intro a ha
    apply hBelow
    rcases List.mem_append.mp ha with ha | ha
    · exact List.mem_append_left _ ha
    · exact List.mem_append_right _
        (List.mem_cons_of_mem _ ha)

/- A queue holds no more than it is deep. -/
def Fits (q : TxQueue) : Prop :=
  q.entries.length ≤ q.depth

theorem Fits.push
    {q : TxQueue}
    (hFits : q.Fits)
    (frame : Bytes) (P : TxPriority) :
    (q.push frame P).2.Fits := by
  by_cases hFull : q.depth ≤ q.entries.length
  · rw [push_full hFull]
    exact hFits
  · rw [push_room (Nat.not_le.mp hFull)]
    simp only [Fits, List.length_append,
      List.length_singleton]
    omega

theorem Fits.pop
    {q q₁ : TxQueue} {e : TxEntry}
    (hFits : q.Fits)
    (hPop : q.pop = some (e, q₁)) :
    q₁.Fits := by
  rcases pop_eq_some hPop with ⟨as, bs, hEntries, rfl, _⟩
  simp only [Fits, hEntries, List.length_append,
    List.length_cons] at hFits ⊢
  omega

------------------------------------------------------------
-- Three Lines
------------------------------------------------------------

end TxQueue

/- What a transmit queue is for: a line for every level. -/
abbrev Lines :=
  TxPriority → List Bytes

namespace Lines

/- To the end of its line. -/
def join
    (l : Lines) (P : TxPriority) (frame : Bytes) : Lines :=
  Function.update l P (l P ++ [frame])

/- The first of the first line that is not empty. -/
def next (l : Lines) :
    Option ((TxPriority × Bytes) × Lines) :=
  match l .high, l .normal, l .low with
  | frame :: rest, _, _ =>
      some ((.high, frame), Function.update l .high rest)
  | [], frame :: rest, _ =>
      some ((.normal, frame),
        Function.update l .normal rest)
  | [], [], frame :: rest =>
      some ((.low, frame), Function.update l .low rest)
  | [], [], [] => none

/- The order in which everything goes on. -/
def order (l : Lines) : List (TxPriority × Bytes) :=
  (l .high).map (Prod.mk .high) ++
    (l .normal).map (Prod.mk .normal) ++
      (l .low).map (Prod.mk .low)

/- A line is what the order has of its level. -/
theorem line_of_order (l : Lines) (P : TxPriority) :
    (l.order.filter fun x => x.1 = P).map Prod.snd =
      l P := by
  cases P <;>
    simp [order, List.filter_map, Function.comp_def]

/- The order begins with what goes on next. -/
theorem order_of_next
    {l l' : Lines} {x : TxPriority × Bytes}
    (hNext : l.next = some (x, l')) :
    l.order = x :: l'.order := by
  unfold next at hNext
  split at hNext
  · next frame rest hHigh =>
      rcases Option.some.inj hNext with ⟨⟩
      simp [order, hHigh]
  · next frame rest hHigh hNormal =>
      rcases Option.some.inj hNext with ⟨⟩
      simp [order, hHigh, hNormal]
  · next frame rest hHigh hNormal hLow =>
      rcases Option.some.inj hNext with ⟨⟩
      simp [order, hHigh, hNormal, hLow]
  · contradiction

end Lines

namespace TxQueue

theorem line_push
    {q : TxQueue}
    (hRoom : q.entries.length < q.depth)
    (frame : Bytes) (P : TxPriority) :
    (q.push frame P).2.line = Lines.join q.line P frame := by
  rw [push_room hRoom]
  funext Q
  by_cases hSame : Q = P
  · subst hSame
    simp [line, Lines.join]
  · have hOther : ¬ P = Q := fun h => hSame h.symm
    simp [line, Lines.join, hSame, hOther]

/- An empty line is one nobody waits in. -/
theorem line_eq_nil_iff (q : TxQueue) (P : TxPriority) :
    q.line P = [] ↔ ∀ e ∈ q.entries, e.priority ≠ P := by
  simp [line, List.filter_eq_nil_iff]

/-
  A pop takes the head of its line, leaves the other lines
  alone, and every line ahead of its own is empty.
-/
theorem Ordered.lines
    {q q' : TxQueue} {e : TxEntry}
    (hOrdered : q.Ordered)
    (hPop : q.pop = some (e, q')) :
    q.line e.priority = e.frame :: q'.line e.priority ∧
      (∀ P, P ≠ e.priority → q'.line P = q.line P) ∧
      ∀ P, P.rank < e.priority.rank → q.line P = [] := by
  rcases pop_eq_some hPop with
    ⟨as, bs, hEntries, rfl, hAs, hBs⟩
  have hRising := hOrdered.rising
  rw [hEntries] at hRising
  -- nobody of its own level stands in front of it
  have hAlone :
      as.filter (fun a => a.priority = e.priority) = [] := by
    apply List.filter_eq_nil_iff.mpr
    intro a ha hSame
    have hBefore := hAs a ha
    have hNumber :=
      (List.pairwise_append.mp hRising).2.2 a ha e
        List.mem_cons_self
    rw [TxEntry.before_iff] at hBefore
    rw [of_decide_eq_true hSame] at hBefore
    omega
  refine ⟨?_, ?_, ?_⟩
  · simp [line, hEntries, hAlone]
  · intro P hP
    have hOther : ¬ e.priority = P := fun h => hP h.symm
    simp [line, hEntries, hOther]
  · intro P hP
    rw [line_eq_nil_iff, hEntries]
    rintro a ha rfl
    rcases List.mem_append.mp ha with ha | ha
    · have hBefore := hAs a ha
      rw [TxEntry.before_iff] at hBefore
      omega
    · rcases List.mem_cons.mp ha with rfl | ha
      · omega
      · have hNot := hBs a ha
        rw [← Bool.not_eq_true, TxEntry.before_iff] at hNot
        omega

/- Popping the queue is moving the lines on. -/
theorem pop_refines
    {q : TxQueue}
    (hOrdered : q.Ordered) :
    q.pop.map
        (fun r => ((r.1.priority, r.1.frame), r.2.line)) =
      Lines.next q.line := by
  cases hPop : q.pop with
  | none =>
      rw [pop_eq_none_iff] at hPop
      have hEmpty : ∀ P, q.line P = [] := by
        intro P
        simp [line, hPop]
      simp [Lines.next, hEmpty]
  | some r =>
      rcases r with ⟨e, q'⟩
      rcases hOrdered.lines hPop with ⟨hHead, hSame, hAhead⟩
      have hUpdate :
          Function.update q.line e.priority
              (q'.line e.priority) = q'.line := by
        funext P
        by_cases hP : P = e.priority
        · rw [hP, Function.update_self]
        · rw [Function.update_of_ne hP, hSame P hP]
      simp only [Option.map_some]
      cases hPriority : e.priority with
      | high =>
          rw [hPriority] at hHead hUpdate
          simp only [Lines.next, hHead]
          rw [hUpdate]
      | normal =>
          rw [hPriority] at hHead hUpdate hAhead
          have hHigh := hAhead .high (by decide)
          simp only [Lines.next, hHigh, hHead]
          rw [hUpdate]
      | low =>
          rw [hPriority] at hHead hUpdate hAhead
          have hHigh := hAhead .high (by decide)
          have hNormal := hAhead .normal (by decide)
          simp only [Lines.next, hHigh, hNormal, hHead]
          rw [hUpdate]

/- Popping until nothing is left gives the order. -/
theorem popAll_eq
    {q : TxQueue}
    (hOrdered : q.Ordered)
    (n : Nat)
    (hLength : q.entries.length ≤ n) :
    popAll n q = Lines.order q.line := by
  induction n generalizing q with
  | zero =>
      have hNil : q.entries = [] :=
        List.eq_nil_of_length_eq_zero (by omega)
      simp [popAll, Lines.order, line, hNil]
  | succ n ih =>
      have hNext := pop_refines hOrdered
      cases hPop : q.pop with
      | none =>
          rw [pop_eq_none_iff] at hPop
          simp [popAll, pop, hPop, Lines.order, line]
      | some r =>
          rcases r with ⟨e, q'⟩
          rcases pop_eq_some hPop with
            ⟨as, bs, hEntries, hQueue, _⟩
          have hShorter : q'.entries.length ≤ n := by
            rw [hEntries] at hLength
            rw [hQueue]
            simp only [List.length_append,
              List.length_cons] at hLength ⊢
            omega
          rw [hPop, Option.map_some] at hNext
          simp only [popAll, hPop,
            ih (hOrdered.pop hPop) hShorter]
          exact (Lines.order_of_next hNext.symm).symm

theorem popOrder_eq
    {q : TxQueue}
    (hOrdered : q.Ordered) :
    q.popOrder = Lines.order q.line :=
  popAll_eq hOrdered _ (Nat.le_refl _)

/- What waits at one level, in the order it is popped. -/
def waiting (q : TxQueue) (P : TxPriority) : List Bytes :=
  (q.popOrder.filter fun x => x.1 = P).map Prod.snd

theorem waiting_eq
    {q : TxQueue}
    (hOrdered : q.Ordered)
    (P : TxPriority) :
    q.waiting P = q.line P := by
  rw [waiting, popOrder_eq hOrdered, Lines.line_of_order]

end TxQueue

end MeshCore
