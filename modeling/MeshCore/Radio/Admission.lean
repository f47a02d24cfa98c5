import MeshCore.Radio.TxQueue

/-
  What transit does to our own frames in the transmit queue.
  The lines keep them apart once they are in; but there is
  one bound for all three, so what waits at the lowest level
  can keep them from getting in.

  Two runs are compared: one with all calls, and one without
  the pushes of transit and the pops that returned it.

  Key definitions include:
    * `TxQueue.history`
    * `TxQueue.IsTransit`
    * `TxQueue.Unobstructed`
    * `TxQueue.Twin`

  Key facts include:
    * `TxQueue.Twin.pop`
    * `TxQueue.own_frames_undisturbed_iff`
-/

namespace MeshCore

inductive TxOp where
| push (frame : Bytes) (priority : TxPriority)
| pop
deriving DecidableEq, Repr

/- What a call returns. -/
inductive TxAnswer where
| pushed (accepted : Bool)
| popped (entry : Option (TxPriority × Bytes))
deriving DecidableEq, Repr

namespace TxQueue

def answer (q : TxQueue) : TxOp → TxAnswer
| .push frame P => .pushed (q.push frame P).1
| .pop =>
    .popped
      (q.pop.map fun r => (r.1.priority, r.1.frame))

def apply (q : TxQueue) : TxOp → TxQueue
| .push frame P => (q.push frame P).2
| .pop =>
    match q.pop with
    | some (_, q) => q
    | none => q

/- The calls on a new queue, each with where it was made. -/
def history
    (depth : Nat)
    (ops : List TxOp) :
    List (Transition TxQueue TxOp) :=
  replay apply { depth := depth } ops

/- The calls and what they returned. -/
def answers
    (ts : List (Transition TxQueue TxOp)) :
    List (TxOp × TxAnswer) :=
  ts.map fun t => (t.event, t.before.answer t.event)

/- A push of the lowest level, or a pop that returned it. -/
def IsTransit (t : Transition TxQueue TxOp) : Bool :=
  match t.event with
  | .push _ P => P == .low
  | .pop =>
      match t.before.pop with
      | some (e, _) => e.priority == .low
      | none => false

/- The calls that have nothing to do with transit. -/
def ownCalls
    (ts : List (Transition TxQueue TxOp)) :
    List (Transition TxQueue TxOp) :=
  ts.filter fun t => !IsTransit t

/-
  A frame of our own that finds the queue full finds it full
  of frames of our own.
-/
def Unobstructed (t : Transition TxQueue TxOp) : Prop :=
  match t.event with
  | .push _ P =>
      P ≠ .low →
        t.before.depth ≤ t.before.entries.length →
          t.before.line .low = []
  | .pop => True

------------------------------------------------------------
-- Two Queues
------------------------------------------------------------

/- Everybody waits at one of the three levels. -/
theorem length_entries (q : TxQueue) :
    q.entries.length =
      (q.line .high).length + (q.line .normal).length +
        (q.line .low).length := by
  unfold line
  induction q.entries with
  | nil => rfl
  | cons e rest ih =>
      simp only [List.length_cons, ih]
      cases hP : e.priority <;>
        simp [hP] <;> omega

/- The same lines of our own, and nobody else in one. -/
structure Twin (q q' : TxQueue) : Prop where
  fits : q.Fits
  ordered : q.Ordered
  ordered' : q'.Ordered
  depth_eq : q'.depth = q.depth
  own : ∀ P, P ≠ .low → q'.line P = q.line P
  none : q'.line .low = []

theorem twin_start (depth : Nat) :
    Twin { depth := depth } { depth := depth } where
  fits := Nat.zero_le _
  ordered := ordered_empty depth
  ordered' := ordered_empty depth
  depth_eq := rfl
  own := fun _ _ => rfl
  none := rfl

theorem Twin.length_eq
    {q q' : TxQueue}
    (hTwin : Twin q q') :
    q.entries.length =
      q'.entries.length + (q.line .low).length := by
  rw [length_entries q, length_entries q',
    hTwin.own .high (by decide),
    hTwin.own .normal (by decide), hTwin.none]
  rfl

/- Transit joins the queue that has it, if at all. -/
theorem Twin.push_low
    {q q' : TxQueue}
    (hTwin : Twin q q')
    (hClear : q.sequence.toNat + 1 < 2 ^ 64)
    (frame : Bytes) :
    Twin (q.push frame .low).2 q' := by
  refine
    { fits := hTwin.fits.push frame .low
      ordered := hTwin.ordered.push hClear frame .low
      ordered' := hTwin.ordered'
      depth_eq := ?_
      own := ?_
      none := hTwin.none }
  · rw [hTwin.depth_eq]
    unfold push
    split <;> rfl
  · intro P hP
    rw [hTwin.own P hP]
    by_cases hFull : q.depth ≤ q.entries.length
    · rw [push_full hFull]
    · rw [line_push (Nat.not_le.mp hFull), Lines.join,
        Function.update_of_ne hP]

/- A frame of our own joins both queues. -/
theorem Twin.push_own
    {q q' : TxQueue}
    (hTwin : Twin q q')
    (hClear : q.sequence.toNat + 1 < 2 ^ 64)
    (hClear' : q'.sequence.toNat + 1 < 2 ^ 64)
    {P : TxPriority}
    (hOwn : P ≠ .low)
    (hFits :
      q.depth ≤ q.entries.length → q.line .low = [])
    (frame : Bytes) :
    (q'.push frame P).1 = (q.push frame P).1 ∧
      Twin (q.push frame P).2 (q'.push frame P).2 := by
  have hLength := hTwin.length_eq
  by_cases hFull : q.depth ≤ q.entries.length
  · have hFull' : q'.depth ≤ q'.entries.length := by
      rw [hFits hFull] at hLength
      rw [hTwin.depth_eq]
      exact Nat.le_trans hFull (Nat.le_of_eq hLength)
    rw [push_full hFull, push_full hFull']
    exact ⟨rfl, hTwin⟩
  · have hRoom : q.entries.length < q.depth :=
      Nat.not_le.mp hFull
    have hRoom' : q'.entries.length < q'.depth := by
      rw [hTwin.depth_eq]
      omega
    refine ⟨by rw [push_room hRoom, push_room hRoom'],
      ?_⟩
    refine
      { fits := hTwin.fits.push frame P
        ordered := hTwin.ordered.push hClear frame P
        ordered' := hTwin.ordered'.push hClear' frame P
        depth_eq := ?_
        own := ?_
        none := ?_ }
    · rw [push_room hRoom, push_room hRoom']
      exact hTwin.depth_eq
    · intro Q hQ
      rw [line_push hRoom, line_push hRoom']
      by_cases hSame : Q = P
      · subst hSame
        simp only [Lines.join, Function.update_self,
          hTwin.own Q hQ]
      · simp only [Lines.join,
          Function.update_of_ne hSame, hTwin.own Q hQ]
    · rw [line_push hRoom', Lines.join,
        Function.update_of_ne hOwn.symm]
      exact hTwin.none

/- A pop returns our own frame from both, or transit. -/
theorem Twin.pop
    {q q' q₁ : TxQueue} {e : TxEntry}
    (hTwin : Twin q q')
    (hPop : q.pop = some (e, q₁)) :
    (e.priority = .low ∧ Twin q₁ q') ∨
    (e.priority ≠ .low ∧
      ∃ e' q₁',
        q'.pop = some (e', q₁') ∧
        e'.priority = e.priority ∧
        e'.frame = e.frame ∧
        Twin q₁ q₁') := by
  rcases hTwin.ordered.lines hPop with
    ⟨hHead, hSame, hAhead⟩
  have hDepth : q₁.depth = q.depth := by
    rcases pop_eq_some hPop with ⟨_, _, _, rfl, _⟩
    rfl
  by_cases hLow : e.priority = .low
  · left
    refine ⟨hLow,
      { fits := hTwin.fits.pop hPop
        ordered := hTwin.ordered.pop hPop
        ordered' := hTwin.ordered'
        depth_eq := hTwin.depth_eq.trans hDepth.symm
        own := ?_
        none := hTwin.none }⟩
    intro P hP
    rw [hTwin.own P hP]
    exact (hSame P (by rw [hLow]; exact hP)).symm
  · right
    refine ⟨hLow, ?_⟩
    cases hPop' : q'.pop with
    | none =>
        -- the line of the frame is not empty over there
        rw [pop_eq_none_iff] at hPop'
        have hLine := hTwin.own e.priority hLow
        rw [hHead] at hLine
        simp [line, hPop'] at hLine
    | some r =>
        rcases r with ⟨e', q₁'⟩
        rcases hTwin.ordered'.lines hPop' with
          ⟨hHead', hSame', hAhead'⟩
        have hOwn' : e'.priority ≠ .low := by
          intro hLow'
          rw [hLow', hTwin.none] at hHead'
          contradiction
        have hPriority : e'.priority = e.priority := by
          apply TxPriority.rank_inj
          rcases Nat.lt_trichotomy e'.priority.rank
              e.priority.rank with hLess | hEq | hMore
          · have hNil := hAhead _ hLess
            rw [← hTwin.own _ hOwn', hHead'] at hNil
            contradiction
          · exact hEq
          · have hNil := hAhead' _ hMore
            rw [hTwin.own _ hLow, hHead] at hNil
            contradiction
        rw [hPriority, hTwin.own _ hLow, hHead,
          List.cons.injEq] at hHead'
        refine ⟨e', q₁', rfl, hPriority, hHead'.1.symm,
          ?_⟩
        have hDepth' : q₁'.depth = q'.depth := by
          rcases pop_eq_some hPop' with ⟨_, _, _, rfl, _⟩
          rfl
        refine
          { fits := hTwin.fits.pop hPop
            ordered := hTwin.ordered.pop hPop
            ordered' := hTwin.ordered'.pop hPop'
            depth_eq := by
              rw [hDepth', hTwin.depth_eq, hDepth]
            own := ?_
            none := ?_ }
        · intro P hP
          by_cases hHere : P = e.priority
          · rw [hHere]
            exact hHead'.2.symm
          · rw [hSame P hHere, ← hTwin.own P hP]
            exact hSame' P (by rw [hPriority]; exact hHere)
        · rw [hSame' .low hOwn'.symm]
          exact hTwin.none

------------------------------------------------------------
-- One Call
------------------------------------------------------------

/- What a call on `q` is, as a transition. -/
def callOn (q : TxQueue) (op : TxOp) :
    Transition TxQueue TxOp :=
  ⟨q, op, q.apply op⟩

/- Transit is never in its own way. -/
theorem unobstructed_of_transit
    {q : TxQueue} {op : TxOp}
    (hTransit : IsTransit (callOn q op) = true) :
    Unobstructed (callOn q op) := by
  cases op with
  | push frame P =>
      intro hOwn
      exact absurd (eq_of_beq hTransit) hOwn
  | pop => trivial

/- A call for transit touches the one queue that has it. -/
theorem Twin.transit
    {q q' : TxQueue} {op : TxOp}
    (hTwin : Twin q q')
    (hClear : q.sequence.toNat + 1 < 2 ^ 64)
    (hTransit : IsTransit (callOn q op) = true) :
    Twin (q.apply op) q' := by
  cases op with
  | push frame P =>
      have hLow : P = .low := eq_of_beq hTransit
      subst hLow
      exact hTwin.push_low hClear frame
  | pop =>
      simp only [IsTransit, callOn] at hTransit
      cases hPop : q.pop with
      | none => simp [hPop] at hTransit
      | some r =>
          rcases r with ⟨e, q₁⟩
          have hLow : e.priority = .low := by
            simpa [hPop] using hTransit
          simp only [apply, hPop]
          rcases hTwin.pop hPop with
            ⟨_, hNext⟩ | ⟨hOwn, _⟩
          · exact hNext
          · exact absurd hLow hOwn

/- Another call returns the same on both, if unobstructed. -/
theorem Twin.unobstructed
    {q q' : TxQueue} {op : TxOp}
    (hTwin : Twin q q')
    (hClear : q.sequence.toNat + 1 < 2 ^ 64)
    (hClear' : q'.sequence.toNat + 1 < 2 ^ 64)
    (hOwn : IsTransit (callOn q op) = false)
    (hFree : Unobstructed (callOn q op)) :
    q'.answer op = q.answer op ∧
      Twin (q.apply op) (q'.apply op) := by
  cases op with
  | push frame P =>
      have hNotLow : P ≠ .low := by
        intro hLow
        simp [IsTransit, callOn, hLow] at hOwn
      rcases hTwin.push_own hClear hClear' hNotLow
          (hFree hNotLow) frame with ⟨hSame, hNext⟩
      exact ⟨congrArg TxAnswer.pushed hSame, hNext⟩
  | pop =>
      cases hPop : q.pop with
      | none =>
          have hLength := hTwin.length_eq
          have hEmpty := (pop_eq_none_iff q).mp hPop
          rw [hEmpty, List.length_nil] at hLength
          have hEmpty' : q'.entries = [] :=
            List.eq_nil_of_length_eq_zero (by omega)
          have hPop' := (pop_eq_none_iff q').mpr hEmpty'
          simp only [answer, apply, hPop, hPop', true_and]
          exact hTwin
      | some r =>
          rcases r with ⟨e, q₁⟩
          have hNotLow : e.priority ≠ .low := by
            intro hLow
            simp [IsTransit, callOn, hPop, hLow] at hOwn
          rcases hTwin.pop hPop with
            ⟨hLow, _⟩ | ⟨_, e', q₁', hPop', hP, hF, hNext⟩
          · exact absurd hLow hNotLow
          · simp only [answer, apply, hPop, hPop',
              Option.map_some, hP, hF, true_and]
            exact hNext

/- An obstructed one does not: it is refused on one only. -/
theorem Twin.obstructed
    {q q' : TxQueue} {op : TxOp}
    (hTwin : Twin q q')
    (hNot : ¬ Unobstructed (callOn q op)) :
    q'.answer op ≠ q.answer op := by
  cases op with
  | push frame P =>
      simp only [Unobstructed, callOn, not_forall,
        exists_prop] at hNot
      rcases hNot with ⟨_, hFull, hWaiting⟩
      have hLength := hTwin.length_eq
      have hSome := List.length_pos_of_ne_nil hWaiting
      have hRefused : (q.push frame P).1 = false := by
        rw [push_full hFull]
      have hRoom' : q'.entries.length < q'.depth := by
        have hFits := hTwin.fits
        rw [Fits] at hFits
        rw [hTwin.depth_eq]
        omega
      simp only [answer, hRefused, push_room hRoom']
      simp
  | pop => exact absurd trivial hNot

------------------------------------------------------------
-- Two Runs
------------------------------------------------------------

/- What the calls without transit return on a queue. -/
def rerun
    (q : TxQueue)
    (ts : List (Transition TxQueue TxOp)) :
    List (TxOp × TxAnswer) :=
  answers
    (replay apply q ((ownCalls ts).map Transition.event))

theorem rerun_cons_transit
    (q : TxQueue)
    {t : Transition TxQueue TxOp}
    (hTransit : IsTransit t = true)
    (ts : List (Transition TxQueue TxOp)) :
    rerun q (t :: ts) = rerun q ts := by
  simp [rerun, ownCalls, hTransit]

theorem rerun_cons_own
    (q : TxQueue)
    {t : Transition TxQueue TxOp}
    (hOwn : IsTransit t = false)
    (ts : List (Transition TxQueue TxOp)) :
    rerun q (t :: ts) =
      (t.event, q.answer t.event) ::
        rerun (q.apply t.event) ts := by
  simp [rerun, ownCalls, hOwn, replay, answers]

theorem answers_ownCalls_cons_transit
    {t : Transition TxQueue TxOp}
    (hTransit : IsTransit t = true)
    (ts : List (Transition TxQueue TxOp)) :
    answers (ownCalls (t :: ts)) =
      answers (ownCalls ts) := by
  simp [ownCalls, hTransit]

theorem answers_ownCalls_cons_own
    {t : Transition TxQueue TxOp}
    (hOwn : IsTransit t = false)
    (ts : List (Transition TxQueue TxOp)) :
    answers (ownCalls (t :: ts)) =
      (t.event, t.before.answer t.event) ::
        answers (ownCalls ts) := by
  simp [ownCalls, hOwn, answers]

/- A call numbers at most one entry. -/
theorem sequence_apply_le
    {q : TxQueue} {n : Nat}
    (hClear : q.sequence.toNat + (n + 1) < 2 ^ 64)
    (op : TxOp) :
    (q.apply op).sequence.toNat + n < 2 ^ 64 := by
  cases op with
  | push frame P =>
      simp only [apply, push]
      split
      · change q.sequence.toNat + n < 2 ^ 64
        omega
      · simp only [UInt64.toNat_add]
        rw [Nat.mod_eq_of_lt (by
          change q.sequence.toNat + 1 < 2 ^ 64
          omega)]
        change q.sequence.toNat + 1 + n < 2 ^ 64
        omega
  | pop =>
      simp only [apply]
      cases hPop : q.pop with
      | none =>
          simp only
          omega
      | some r =>
          rcases pop_eq_some hPop with
            ⟨_, _, _, hQueue, _⟩
          simp only [hQueue]
          omega

/-
  From twins on, the two runs agree if and only if nothing
  of our own is refused where transit waits: the first such
  refusal is a push that the other queue accepts.
-/
theorem Twin.rerun_eq_iff
    (ops : List TxOp)
    {q q' : TxQueue}
    (hTwin : Twin q q')
    (hClear : q.sequence.toNat + ops.length < 2 ^ 64)
    (hClear' : q'.sequence.toNat + ops.length < 2 ^ 64) :
    rerun q' (replay apply q ops) =
        answers (ownCalls (replay apply q ops)) ↔
      ∀ t ∈ replay apply q ops, Unobstructed t := by
  induction ops generalizing q q' with
  | nil => simp [rerun, answers, ownCalls, replay]
  | cons op ops ih =>
      simp only [List.length_cons] at hClear hClear'
      have hNext := sequence_apply_le hClear op
      change
        rerun q' (callOn q op :: replay apply _ ops) =
            answers
              (ownCalls
                (callOn q op :: replay apply _ ops)) ↔
          ∀ t ∈ callOn q op :: replay apply _ ops,
            Unobstructed t
      rw [List.forall_mem_cons]
      by_cases hTransit : IsTransit (callOn q op) = true
      · have hFree := unobstructed_of_transit hTransit
        have hTwin' :=
          hTwin.transit (by omega) hTransit
        rw [rerun_cons_transit q' hTransit,
          answers_ownCalls_cons_transit hTransit,
          ih hTwin' hNext (by omega)]
        constructor
        · intro hAll
          exact ⟨hFree, hAll⟩
        · exact And.right
      · rw [Bool.not_eq_true] at hTransit
        rw [rerun_cons_own q' hTransit,
          answers_ownCalls_cons_own hTransit,
          List.cons.injEq, Prod.mk.injEq]
        by_cases hFree : Unobstructed (callOn q op)
        · rcases hTwin.unobstructed (by omega) (by omega)
            hTransit hFree with ⟨hSame, hTwin'⟩
          have hRest :=
            ih hTwin' hNext (sequence_apply_le hClear' op)
          constructor
          · rintro ⟨_, hEq⟩
            exact ⟨hFree, hRest.mp hEq⟩
          · rintro ⟨_, hAll⟩
            exact ⟨⟨rfl, hSame⟩, hRest.mpr hAll⟩
        · have hDiffer := hTwin.obstructed hFree
          constructor
          · rintro ⟨⟨_, hSame⟩, _⟩
            exact absurd hSame hDiffer
          · rintro ⟨hThis, _⟩
            exact absurd hThis hFree

/-
  Leaving out the pushes of transit and the pops that
  returned it changes neither which of our own frames are
  accepted nor the order in which they are popped, if and
  only if no frame of our own is pushed into a queue that is
  full and holds transit.
-/
theorem own_frames_undisturbed_iff
    (depth : Nat)
    (ops : List TxOp)
    (hClear : ops.length < 2 ^ 64) :
    answers
        (history depth
          ((ownCalls (history depth ops)).map
            Transition.event)) =
        answers (ownCalls (history depth ops)) ↔
      ∀ t ∈ history depth ops, Unobstructed t := by
  have hNumbers :
      (0 : UInt64).toNat + ops.length < 2 ^ 64 := by
    simpa using hClear
  exact (twin_start depth).rerun_eq_iff ops hNumbers
    hNumbers

/- An ack overtakes what waits, where there is room. -/
theorem ack_overtakes_transit :
    [TxOp.push [1] .low, .push [2] .high, .pop].length <
        2 ^ 64 ∧
    answers
        (history 2
          ((ownCalls
            (history 2
              [.push [1] .low, .push [2] .high,
                .pop])).map Transition.event)) =
        answers
          (ownCalls
            (history 2
              [.push [1] .low, .push [2] .high,
                .pop])) :=
  ⟨by decide,
    (own_frames_undisturbed_iff 2
      [.push [1] .low, .push [2] .high, .pop]
      (by decide)).mpr (by
        intro t ht
        rcases List.mem_cons.mp ht with rfl | ht
        · exact fun h => absurd rfl h
        · rcases List.mem_cons.mp ht with rfl | ht
          · intro _ hFull
            exact absurd hFull (by decide)
          · rcases List.mem_cons.mp ht with rfl | ht
            · trivial
            · exact absurd ht List.not_mem_nil)⟩

/- Sixteen repeated strangers, and then an ack. -/
def fullOfTransit : List TxOp :=
  List.replicate 16 (.push [7] .low) ++ [.push [2] .high]

theorem full_of_transit_refuses_an_ack :
    ¬ ∀ (depth : Nat) (ops : List TxOp),
      answers
          (history depth
            ((ownCalls (history depth ops)).map
              Transition.event)) =
        answers (ownCalls (history depth ops)) := by
  intro hAll
  exact absurd (hAll 16 fullOfTransit) (by decide +kernel)

end TxQueue

end MeshCore
