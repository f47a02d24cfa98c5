import MeshCore.Radio.Driver

/-
  What becomes of a frame the duty cycle refused. It is put
  back through `push`, which numbers it anew, so it goes on
  behind everybody of its level; it keeps its place only
  where nobody else waits there.

  Key definitions include:
    * `Undisturbed`
    * `InOrder`
    * `Traffic.Honoured`

  Key facts include:
    * `Air.turn_cases`
    * `Air.inOrder_turn_iff`
    * `Traffic.keeps_its_place_iff`
-/

namespace MeshCore

------------------------------------------------------------
-- One Turn
------------------------------------------------------------

namespace Air

variable {airtimeUs : Nat → UInt32}
variable {usable : Bytes → Bool} {starts : Bool}
variable {now : Millis}

/- All that a turn does to the queue. -/
theorem turn_cases
    {air air' : Air} {outcome : Outcome}
    (hTurn :
      turn airtimeUs usable starts now air =
        (outcome, air')) :
    (outcome = .idle ∧ air' = air) ∨
    (∃ e,
      (outcome = .dropped e ∨
        ∃ slot, outcome = .sent e slot) ∧
      air.queue.pop = some (e, air'.queue)) ∨
    ∃ e queue,
      outcome = .refused e ∧
      air.queue.pop = some (e, queue) ∧
      air'.queue = (queue.push e.frame e.priority).2 := by
  simp only [turn] at hTurn
  cases hPop : air.queue.pop with
  | none =>
      simp only [hPop, Prod.mk.injEq] at hTurn
      exact .inl ⟨hTurn.1.symm, hTurn.2.symm⟩
  | some r =>
      rcases r with ⟨e, queue⟩
      simp only [hPop] at hTurn
      split_ifs at hTurn with hUsable hAllowed hStarts
      · rcases Prod.mk.inj hTurn with ⟨rfl, rfl⟩
        exact .inr (.inl ⟨e, .inl rfl, rfl⟩)
      · rcases Prod.mk.inj hTurn with ⟨rfl, rfl⟩
        exact .inr (.inr ⟨e, queue, rfl, rfl, rfl⟩)
      · rcases Prod.mk.inj hTurn with ⟨rfl, rfl⟩
        exact .inr (.inl ⟨e, .inl rfl, rfl⟩)
      · rcases Prod.mk.inj hTurn with ⟨rfl, rfl⟩
        exact .inr (.inl ⟨e, .inr ⟨_, rfl⟩, rfl⟩)

end Air

------------------------------------------------------------
-- Order
------------------------------------------------------------

/- What left the queue for good at one level. -/
def departed
    (P : TxPriority)
    (turns : List (Transition Air Outcome)) :
    List Bytes :=
  turns.filterMap fun t =>
    match t.event with
    | .dropped e =>
        if e.priority = P then some e.frame else none
    | .sent e _ =>
        if e.priority = P then some e.frame else none
    | _ => none

/- What went on the air at one level. -/
def onAir
    (P : TxPriority)
    (turns : List (Transition Air Outcome)) :
    List Bytes :=
  turns.filterMap fun t =>
    match t.event with
    | .sent e _ =>
        if e.priority = P then some e.frame else none
    | _ => none

/- How often a frame was put back. -/
def refusals
    (turns : List (Transition Air Outcome)) :
    Nat :=
  turns.countP fun t =>
    match t.event with
    | .refused _ => true
    | _ => false

/- What `send` accepted at one level. -/
def acceptedAt
    (P : TxPriority)
    (accepted : List (TxPriority × Bytes)) :
    List Bytes :=
  (accepted.filter fun x => x.1 = P).map Prod.snd

/-
  What has left at each level, and then what the queue would
  give up next, is what was accepted, in that order.
-/
def InOrder
    (accepted : List (TxPriority × Bytes))
    (turns : List (Transition Air Outcome))
    (q : TxQueue) :
    Prop :=
  ∀ P, departed P turns ++ q.waiting P = acceptedAt P accepted

/-
  A refused frame finds no other frame of its level in the
  queue, unless it is one with the same bytes.
-/
def Undisturbed (t : Transition Air Outcome) : Prop :=
  match t.event with
  | .refused e =>
      ∀ frame ∈ t.before.queue.waiting e.priority,
        frame = e.frame
  | _ => True

instance (t : Transition Air Outcome) :
    Decidable (Undisturbed t) := by
  unfold Undisturbed
  split <;> infer_instance

/- The queue, and how many numbers it has given out. -/
structure Numbered
    (accepted : List (TxPriority × Bytes))
    (turns : List (Transition Air Outcome))
    (q : TxQueue) :
    Prop where
  ordered : q.Ordered
  fits : q.Fits
  sequence_eq :
    q.sequence.toNat = accepted.length + refusals turns

theorem departed_append
    (P : TxPriority)
    (turns more : List (Transition Air Outcome)) :
    departed P (turns ++ more) =
      departed P turns ++ departed P more :=
  List.filterMap_append

theorem refusals_append
    (turns more : List (Transition Air Outcome)) :
    refusals (turns ++ more) =
      refusals turns + refusals more :=
  List.countP_append

/- Only what departed can have been on the air. -/
theorem onAir_sublist_departed
    (P : TxPriority)
    (turns : List (Transition Air Outcome)) :
    (onAir P turns).Sublist (departed P turns) := by
  induction turns with
  | nil => exact List.Sublist.slnil
  | cons t turns ih =>
      cases hEvent : t.event with
      | idle => simpa [onAir, departed, hEvent] using ih
      | refused e =>
          simpa [onAir, departed, hEvent] using ih
      | dropped e =>
          by_cases hP : e.priority = P
          · simp only [onAir, departed, hEvent, hP,
              List.filterMap_cons, if_true]
            exact ih.cons e.frame
          · simpa [onAir, departed, hEvent, hP] using ih
      | sent e slot =>
          by_cases hP : e.priority = P
          · simp only [onAir, departed, hEvent, hP,
              List.filterMap_cons, if_true]
            exact ih.cons_cons e.frame
          · simpa [onAir, departed, hEvent, hP] using ih

/- To go to the end of one's own line and stay in place. -/
theorem rotate_eq_iff
    {α : Type} (a : α) (l : List α) :
    a :: l = l ++ [a] ↔ ∀ b ∈ l, b = a := by
  induction l with
  | nil => simp
  | cons b l ih =>
      rw [List.forall_mem_cons, List.cons_append,
        List.cons.injEq]
      constructor
      · rintro ⟨rfl, hRest⟩
        exact ⟨rfl, ih.mp hRest⟩
      · rintro ⟨rfl, hRest⟩
        exact ⟨rfl, ih.mpr hRest⟩

/- Where both queues are in order, so are their lines. -/
theorem waiting_eq_iff
    {q q' : TxQueue}
    (hOrdered : q.Ordered)
    (hOrdered' : q'.Ordered) :
    q'.popOrder = q.popOrder ↔
      ∀ P, q'.waiting P = q.waiting P := by
  constructor
  · intro hOrder P
    rw [TxQueue.waiting, hOrder]
    rfl
  · intro hWaiting
    have hLines : q'.line = q.line := by
      funext P
      rw [← TxQueue.waiting_eq hOrdered,
        ← TxQueue.waiting_eq hOrdered']
      exact hWaiting P
    rw [TxQueue.popOrder_eq hOrdered,
      TxQueue.popOrder_eq hOrdered', hLines]

/- A pop takes the head of what waits at its level. -/
theorem waiting_pop
    {q q' : TxQueue} {e : TxEntry}
    (hOrdered : q.Ordered)
    (hPop : q.pop = some (e, q'))
    (P : TxPriority) :
    q.waiting P =
      if e.priority = P then e.frame :: q'.waiting P
      else q'.waiting P := by
  rcases hOrdered.lines hPop with ⟨hHead, hSame, _⟩
  rw [TxQueue.waiting_eq hOrdered,
    TxQueue.waiting_eq (hOrdered.pop hPop)]
  by_cases hP : e.priority = P
  · rw [if_pos hP, ← hP, hHead]
  · rw [if_neg hP, hSame P fun h => hP h.symm]

/- A push goes to the end of its level. -/
theorem waiting_push
    {q : TxQueue}
    (hOrdered : q.Ordered)
    (hClear : q.sequence.toNat + 1 < 2 ^ 64)
    (hRoom : q.entries.length < q.depth)
    (frame : Bytes)
    (P Q : TxPriority) :
    (q.push frame P).2.waiting Q =
      if P = Q then q.waiting Q ++ [frame]
      else q.waiting Q := by
  rw [TxQueue.waiting_eq hOrdered,
    TxQueue.waiting_eq (hOrdered.push hClear frame P),
    TxQueue.line_push hRoom, Lines.join]
  by_cases hP : P = Q
  · subst hP
    rw [if_pos rfl, Function.update_self]
  · rw [if_neg hP,
      Function.update_of_ne fun h => hP h.symm]

/- A pop frees the place a put-back needs. -/
theorem room_of_pop
    {q q' : TxQueue} {e : TxEntry}
    (hFits : q.Fits)
    (hPop : q.pop = some (e, q')) :
    q'.entries.length < q'.depth := by
  rcases TxQueue.pop_eq_some hPop with
    ⟨as, bs, hEntries, rfl, _⟩
  simp only [TxQueue.Fits, hEntries, List.length_append,
    List.length_cons] at hFits ⊢
  omega

theorem sequence_of_pop
    {q q' : TxQueue} {e : TxEntry}
    (hPop : q.pop = some (e, q')) :
    q'.sequence = q.sequence := by
  rcases TxQueue.pop_eq_some hPop with ⟨_, _, _, rfl, _⟩
  rfl

theorem sequence_of_push
    {q : TxQueue}
    (hClear : q.sequence.toNat + 1 < 2 ^ 64)
    (hRoom : q.entries.length < q.depth)
    (frame : Bytes) (P : TxPriority) :
    (q.push frame P).2.sequence.toNat =
      q.sequence.toNat + 1 := by
  rw [TxQueue.push_room hRoom]
  simp only [UInt64.toNat_add]
  exact Nat.mod_eq_of_lt hClear

namespace Air

variable {airtimeUs : Nat → UInt32}
variable {usable : Bytes → Bool} {starts : Bool}
variable {now : Millis}
variable {accepted : List (TxPriority × Bytes)}
variable {turns : List (Transition Air Outcome)}
variable {air air' : Air} {outcome : Outcome}

/- A turn keeps the numbers in order. -/
theorem numbered_turn
    (hNumbered : Numbered accepted turns air.queue)
    (hTurn :
      turn airtimeUs usable starts now air =
        (outcome, air'))
    (hClear :
      accepted.length +
          refusals (turns ++ [⟨air, outcome, air'⟩]) <
        2 ^ 64) :
    Numbered accepted (turns ++ [⟨air, outcome, air'⟩])
      air'.queue := by
  have hOrdered := hNumbered.ordered
  have hFits := hNumbered.fits
  have hSequence := hNumbered.sequence_eq
  rw [refusals_append] at hClear
  rcases turn_cases hTurn with
    ⟨rfl, rfl⟩ | ⟨e, hGone, hPop⟩ |
      ⟨e, queue, rfl, hPop, hQueue⟩
  · exact
      { ordered := hOrdered
        fits := hFits
        sequence_eq := by
          simpa [refusals_append, refusals] using
            hSequence }
  · have hNone :
        refusals [⟨air, outcome, air'⟩] = 0 := by
      rcases hGone with rfl | ⟨slot, rfl⟩ <;> rfl
    exact
      { ordered := hOrdered.pop hPop
        fits := hFits.pop hPop
        sequence_eq := by
          rw [sequence_of_pop hPop, refusals_append, hNone,
            hSequence]
          rfl }
  · have hOne :
        refusals [⟨air, .refused e, air'⟩] = 1 :=
      rfl
    have hRoom := room_of_pop hFits hPop
    have hNext :
        queue.sequence.toNat + 1 < 2 ^ 64 := by
      rw [sequence_of_pop hPop]
      omega
    rw [hQueue]
    exact
      { ordered :=
          (hOrdered.pop hPop).push hNext e.frame e.priority
        fits := (hFits.pop hPop).push e.frame e.priority
        sequence_eq := by
          rw [sequence_of_push hNext hRoom,
            sequence_of_pop hPop, refusals_append, hOne,
            hSequence]
          omega }

/- A turn keeps everything in order unless it disturbs it. -/
theorem inOrder_turn_iff
    (hNumbered : Numbered accepted turns air.queue)
    (hTurn :
      turn airtimeUs usable starts now air =
        (outcome, air'))
    (hClear :
      accepted.length +
          refusals (turns ++ [⟨air, outcome, air'⟩]) <
        2 ^ 64)
    (hOrder : InOrder accepted turns air.queue) :
    InOrder accepted (turns ++ [⟨air, outcome, air'⟩])
        air'.queue ↔
      Undisturbed ⟨air, outcome, air'⟩ := by
  have hOrdered := hNumbered.ordered
  rw [refusals_append] at hClear
  rcases turn_cases hTurn with
    ⟨rfl, rfl⟩ | ⟨e, hGone, hPop⟩ |
      ⟨e, queue, rfl, hPop, hQueue⟩
  · have hNone :
        ∀ P, departed P [⟨air', .idle, air'⟩] = [] :=
      fun _ => rfl
    simp only [InOrder, departed_append, hNone,
      List.append_nil]
    exact iff_of_true hOrder trivial
  · have hOne :
        ∀ P,
          departed P [⟨air, outcome, air'⟩] =
            if e.priority = P then [e.frame] else [] := by
      intro P
      rcases hGone with rfl | ⟨slot, rfl⟩ <;>
        by_cases hP : e.priority = P <;>
          simp [departed, hP]
    have hFree : Undisturbed ⟨air, outcome, air'⟩ := by
      rcases hGone with rfl | ⟨slot, rfl⟩ <;> trivial
    refine iff_of_true ?_ hFree
    intro P
    rw [← hOrder P, departed_append, hOne,
      waiting_pop hOrdered hPop P, List.append_assoc]
    split <;> rfl
  · have hNone :
        ∀ P, departed P [⟨air, .refused e, air'⟩] = [] :=
      fun _ => rfl
    have hRoom := room_of_pop hNumbered.fits hPop
    have hSequence := hNumbered.sequence_eq
    have hNext :
        queue.sequence.toNat + 1 < 2 ^ 64 := by
      have hOne :
          refusals [⟨air, .refused e, air'⟩] = 1 :=
        rfl
      rw [sequence_of_pop hPop]
      omega
    have hHead :
        air.queue.waiting e.priority =
          e.frame :: queue.waiting e.priority := by
      rw [waiting_pop hOrdered hPop, if_pos rfl]
    have hAfter :
        ∀ P,
          air'.queue.waiting P =
            if e.priority = P then
              queue.waiting P ++ [e.frame]
            else queue.waiting P := by
      intro P
      rw [hQueue]
      exact waiting_push (hOrdered.pop hPop) hNext hRoom
        e.frame e.priority P
    have hSame :
        Undisturbed ⟨air, .refused e, air'⟩ ↔
          e.frame :: queue.waiting e.priority =
            queue.waiting e.priority ++ [e.frame] := by
      simp only [Undisturbed, hHead, List.forall_mem_cons,
        true_and]
      exact (rotate_eq_iff _ _).symm
    rw [hSame]
    constructor
    · intro hThen
      have hThis := hThen e.priority
      rw [departed_append, hNone, List.append_nil,
        hAfter, if_pos rfl, ← hOrder e.priority,
        hHead] at hThis
      exact (List.append_cancel_left hThis).symm
    · intro hRotate P
      rw [departed_append, hNone, List.append_nil, hAfter,
        ← hOrder P, waiting_pop hOrdered hPop P]
      by_cases hP : e.priority = P
      · rw [if_pos hP, if_pos hP, ← hP, hRotate]
      · rw [if_neg hP, if_neg hP]

/-
  Turn after turn: the numbers stay in order, everything
  else does unless a turn disturbs it, and a tick that
  begins with a refusal ends with it.
-/
theorem drain_inOrder_iff
    (n : Nat)
    (hNumbered : Numbered accepted turns air.queue)
    (hClear :
      accepted.length +
          refusals
            (turns ++
              (drain airtimeUs usable starts now n air).1) <
        2 ^ 64) :
    Numbered accepted
        (turns ++
          (drain airtimeUs usable starts now n air).1)
        (drain airtimeUs usable starts now n
          air).2.queue ∧
      (InOrder accepted turns air.queue →
        (InOrder accepted
            (turns ++
              (drain airtimeUs usable starts now n air).1)
            (drain airtimeUs usable starts now n
              air).2.queue ↔
          ∀ t ∈ (drain airtimeUs usable starts now n air).1,
            Undisturbed t)) := by
  induction n generalizing air turns with
  | zero =>
      simp only [drain, List.append_nil]
      refine ⟨hNumbered, ?_⟩
      intro hOrder
      exact iff_of_true hOrder (by simp)
  | succ n ih =>
      rcases hTurn :
          turn airtimeUs usable starts now air with
        ⟨outcome, air'⟩
      -- what the first turn does, as long as it is counted
      have hFirst :
          ∀ more,
            accepted.length +
                refusals
                  (turns ++ ⟨air, outcome, air'⟩ :: more) <
              2 ^ 64 →
            accepted.length +
                refusals
                  (turns ++ [⟨air, outcome, air'⟩]) <
              2 ^ 64 := by
        intro more hAll
        rw [List.append_cons, refusals_append] at hAll
        omega
      cases outcome with
      | idle =>
          simp only [drain, hTurn] at hClear ⊢
          refine
            ⟨numbered_turn hNumbered hTurn hClear, ?_⟩
          intro hOrder
          rw [inOrder_turn_iff hNumbered hTurn hClear
            hOrder]
          simp
      | refused e =>
          simp only [drain, hTurn] at hClear ⊢
          refine
            ⟨numbered_turn hNumbered hTurn hClear, ?_⟩
          intro hOrder
          rw [inOrder_turn_iff hNumbered hTurn hClear
            hOrder]
          simp
      | dropped e =>
          simp only [drain, hTurn] at hClear ⊢
          have hOne := hFirst _ hClear
          rw [List.append_cons] at hClear ⊢
          rcases ih (numbered_turn hNumbered hTurn hOne)
              hClear with ⟨hNext, hRest⟩
          refine ⟨hNext, ?_⟩
          intro hOrder
          have hFree :
              Undisturbed ⟨air, .dropped e, air'⟩ :=
            trivial
          have hOrder' :=
            (inOrder_turn_iff hNumbered hTurn hOne
              hOrder).mpr hFree
          rw [hRest hOrder', List.forall_mem_cons]
          exact (and_iff_right hFree).symm
      | sent e slot =>
          simp only [drain, hTurn] at hClear ⊢
          have hOne := hFirst _ hClear
          rw [List.append_cons] at hClear ⊢
          rcases ih (numbered_turn hNumbered hTurn hOne)
              hClear with ⟨hNext, hRest⟩
          refine ⟨hNext, ?_⟩
          intro hOrder
          have hFree :
              Undisturbed ⟨air, .sent e slot, air'⟩ :=
            trivial
          have hOrder' :=
            (inOrder_turn_iff hNumbered hTurn hOne
              hOrder).mpr hFree
          rw [hRest hOrder', List.forall_mem_cons]
          exact (and_iff_right hFree).symm

/- A refusal is the last turn of its tick. -/
theorem drain_refused
    {n : Nat}
    {t : Transition Air Outcome}
    {more : List (Transition Air Outcome)}
    {e : TxEntry}
    (hDrain :
      (drain airtimeUs usable starts now n air).1 =
        t :: more)
    (hRefused : t.event = .refused e) :
    more = [] := by
  cases n with
  | zero => simp [drain] at hDrain
  | succ n =>
      rcases hTurn :
          turn airtimeUs usable starts now air with
        ⟨outcome, air'⟩
      cases outcome with
      | idle =>
          simp only [drain, hTurn, List.cons.injEq]
            at hDrain
          exact hDrain.2.symm
      | refused e' =>
          simp only [drain, hTurn, List.cons.injEq]
            at hDrain
          exact hDrain.2.symm
      | dropped e' =>
          simp only [drain, hTurn, List.cons.injEq]
            at hDrain
          rw [← hDrain.1] at hRefused
          contradiction
      | sent e' slot =>
          simp only [drain, hTurn, List.cons.injEq]
            at hDrain
          rw [← hDrain.1] at hRefused
          contradiction

end Air

------------------------------------------------------------
-- Whole Runs
------------------------------------------------------------

namespace Traffic

variable (airtimeUs : Nat → UInt32)

/- The numbers the queue of a driver has given out. -/
def pushes (s : Traffic) : Nat :=
  s.accepted.length + refusals s.turns

def Ordered (s : Traffic) : Prop :=
  InOrder s.accepted s.turns s.driver.air.queue

/-
  What a call has to leave behind: everything still in the
  order it was accepted, on the air too, and, if it was a
  tick whose first frame was refused, the queue's future as
  it was.
-/
structure Honoured
    (t : Transition Traffic DriverCall) :
    Prop where
  ordered : t.after.Ordered
  on_air :
    ∀ P,
      (onAir P t.after.turns).Sublist
        (acceptedAt P t.after.accepted)
  first_refused :
    ∀ turn more e,
      t.after.turns = t.before.turns ++ turn :: more →
        turn.event = .refused e →
          t.after.driver.air.queue.popOrder =
            t.before.driver.air.queue.popOrder

/- What is in order has been on the air in order. -/
theorem Ordered.on_air
    {s : Traffic}
    (hOrder : s.Ordered)
    (P : TxPriority) :
    (onAir P s.turns).Sublist (acceptedAt P s.accepted) := by
  rw [← hOrder P]
  exact (onAir_sublist_departed P s.turns).trans
    (List.sublist_append_left _ _)

/- A frame that is accepted goes to the end of its level. -/
theorem send_keeps
    (s : Traffic)
    (frame : Bytes) (P : TxPriority)
    (hNumbered :
      Numbered s.accepted s.turns s.driver.air.queue)
    (hClear :
      (s.call airtimeUs (.send frame P)).pushes < 2 ^ 64) :
    Numbered (s.call airtimeUs (.send frame P)).accepted
        s.turns
        (s.call airtimeUs
          (.send frame P)).driver.air.queue ∧
      (s.Ordered →
        (s.call airtimeUs (.send frame P)).Ordered) := by
  have hOrdered := hNumbered.ordered
  have hSequence := hNumbered.sequence_eq
  have hAccepted :
      (s.call airtimeUs (.send frame P)).accepted =
        if (s.driver.air.queue.push frame P).1 then
          s.accepted ++ [(P, frame)]
        else s.accepted :=
    rfl
  have hQueue :
      (s.call airtimeUs
          (.send frame P)).driver.air.queue =
        (s.driver.air.queue.push frame P).2 := by
    simp only [call, Driver.send, Driver.air_withAir]
  have hTurns :
      (s.call airtimeUs (.send frame P)).turns = s.turns :=
    rfl
  simp only [pushes, Ordered, hAccepted, hQueue, hTurns]
    at hClear ⊢
  by_cases hFull :
      s.driver.air.queue.depth ≤
        s.driver.air.queue.entries.length
  · rw [TxQueue.push_full hFull]
    exact ⟨hNumbered, fun hOrder => hOrder⟩
  · have hRoom := Nat.not_le.mp hFull
    have hYes :
        (s.driver.air.queue.push frame P).1 = true := by
      rw [TxQueue.push_room hRoom]
    simp only [hYes, if_true, List.length_append,
      List.length_singleton] at hClear ⊢
    have hNext :
        s.driver.air.queue.sequence.toNat + 1 < 2 ^ 64 := by
      omega
    constructor
    · exact
        { ordered := hOrdered.push hNext frame P
          fits := hNumbered.fits.push frame P
          sequence_eq := by
            rw [sequence_of_push hNext hRoom, hSequence]
            simp only [List.length_append,
              List.length_singleton]
            omega }
    · intro hOrder Q
      rw [waiting_push hOrdered hNext hRoom]
      by_cases hP : P = Q
      · simp only [hP, if_true, acceptedAt,
          List.filter_append, List.map_append]
        rw [← List.append_assoc, hOrder Q]
        simp [acceptedAt]
      · simp only [hP, if_false, acceptedAt,
          List.filter_append, List.map_append]
        rw [hOrder Q]
        simp [acceptedAt, hP]

/- What one call adds to the turns, and what that breaks. -/
theorem call_keeps
    (s : Traffic)
    (c : DriverCall)
    (hNumbered :
      Numbered s.accepted s.turns s.driver.air.queue)
    (hClear : (s.call airtimeUs c).pushes < 2 ^ 64) :
    ∃ fresh,
      (s.call airtimeUs c).turns = s.turns ++ fresh ∧
      Numbered (s.call airtimeUs c).accepted
        (s.call airtimeUs c).turns
        (s.call airtimeUs c).driver.air.queue ∧
      (s.Ordered →
        ((s.call airtimeUs c).Ordered ↔
          ∀ t ∈ fresh, Undisturbed t)) ∧
      ∀ t more e,
        fresh = t :: more →
          t.event = .refused e →
            more = [] ∧
              (s.call airtimeUs c).accepted =
                s.accepted := by
  cases c with
  | send frame P =>
      rcases send_keeps airtimeUs s frame P hNumbered hClear
        with ⟨hNext, hOrder⟩
      refine ⟨[], (List.append_nil _).symm, hNext, ?_,
        by simp⟩
      intro hBefore
      exact iff_of_true (hOrder hBefore) (by simp)
  | canTransmitNow =>
      have hSame :
          (s.driver.canTransmitNow
              airtimeUs).2.air.queue =
            s.driver.air.queue := by
        simp only [Driver.canTransmitNow]
        split_ifs
        · rfl
        · simp
      refine ⟨[], (List.append_nil _).symm, ?_, ?_,
        by simp⟩
      · simp only [call, hSame]
        exact hNumbered
      · intro hBefore
        simp only [call, Ordered, hSame]
        exact iff_of_true hBefore (by simp)
  | usedPermille =>
      have hSame :
          s.driver.usedPermille.2.air.queue =
            s.driver.air.queue := by
        simp [Driver.usedPermille]
      refine ⟨[], (List.append_nil _).symm, ?_, ?_,
        by simp⟩
      · simp only [call, hSame]
        exact hNumbered
      · intro hBefore
        simp only [call, Ordered, hSame]
        exact iff_of_true hBefore (by simp)
  | tick now done starts =>
      rcases Driver.tick_drains airtimeUs s.driver now done
          starts with ⟨usable, ok, n, hDrain⟩
      rcases Prod.mk.inj hDrain with ⟨hTurns, hAir⟩
      simp only [pushes, call, hTurns] at hClear
      rcases Air.drain_inOrder_iff n hNumbered hClear with
        ⟨hNext, hOrder⟩
      rw [← hTurns, ← hAir] at hNext hOrder
      refine ⟨_, rfl, hNext, hOrder, ?_⟩
      intro t more e hFresh hRefused
      rw [hTurns] at hFresh
      exact ⟨Air.drain_refused hFresh hRefused, rfl⟩

/- A call that disturbs nothing is honoured. -/
theorem honoured_of_ordered
    {s : Traffic} {c : DriverCall}
    {fresh : List (Transition Air Outcome)}
    (hNumbered :
      Numbered s.accepted s.turns s.driver.air.queue)
    (hTurns :
      (s.call airtimeUs c).turns = s.turns ++ fresh)
    (hNext :
      Numbered (s.call airtimeUs c).accepted
        (s.call airtimeUs c).turns
        (s.call airtimeUs c).driver.air.queue)
    (hRefusal :
      ∀ t more e,
        fresh = t :: more →
          t.event = .refused e →
            more = [] ∧
              (s.call airtimeUs c).accepted = s.accepted)
    (hBefore : s.Ordered)
    (hAfter : (s.call airtimeUs c).Ordered) :
    Honoured ⟨s, c, s.call airtimeUs c⟩ := by
  refine ⟨hAfter, hAfter.on_air, ?_⟩
  intro t more e hFresh hRefused
  simp only [hTurns] at hFresh
  have hSplit := List.append_cancel_left hFresh
  rcases hRefusal t more e hSplit hRefused with
    ⟨rfl, hAccepted⟩
  apply (waiting_eq_iff hNumbered.ordered
    hNext.ordered).mpr
  intro P
  have hThere := hAfter P
  have hHere := hBefore P
  have hNone : departed P [t] = [] := by
    simp [departed, hRefused]
  rw [hTurns, hSplit, departed_append, hNone,
    List.append_nil, hAccepted, ← hHere] at hThere
  exact List.append_cancel_left hThere

/- Numbers are only ever given out. -/
theorem pushes_le_call
    (s : Traffic) (c : DriverCall) :
    s.pushes ≤ (s.call airtimeUs c).pushes := by
  cases c with
  | send frame P =>
      simp only [pushes, call]
      split
      · simp only [List.length_append]
        omega
      · exact Nat.le_refl _
  | canTransmitNow => exact Nat.le_refl _
  | usedPermille => exact Nat.le_refl _
  | tick now done starts =>
      simp only [pushes, call, refusals_append]
      omega

/-
  Over any calls at all, what was accepted leaves in order
  and every refused frame keeps its place, if and only if no
  refused frame ever finds another of its level waiting.
-/
theorem keeps_its_place_iff
    {d : Driver} {depth : Nat} {s : Traffic}
    {ts : List (Transition Traffic DriverCall)}
    (hNew : d.air.queue = { depth := depth })
    (hRun :
      Run (fun s c s' => s.call airtimeUs c = s')
        { driver := d } ts s)
    (hClear : s.pushes < 2 ^ 64) :
    (∀ t ∈ ts, Honoured t) ↔
      ∀ turn ∈ s.turns, Undisturbed turn := by
  have hAll :
      Numbered s.accepted s.turns s.driver.air.queue ∧
      ((∀ t ∈ ts, Honoured t) ↔
        ∀ turn ∈ s.turns, Undisturbed turn) ∧
      ((∀ turn ∈ s.turns, Undisturbed turn) →
        s.Ordered) := by
    induction hRun with
    | start =>
        have hOrdered := TxQueue.ordered_empty depth
        refine ⟨?_, by simp, ?_⟩
        · simp only [hNew]
          exact
            { ordered := hOrdered
              fits := Nat.zero_le _
              sequence_eq := rfl }
        · intro _ P
          simp only [hNew, TxQueue.waiting_eq hOrdered]
          rfl
    | @step ts s s' c hBefore hStep ih =>
        subst hStep
        have hEarlier := pushes_le_call airtimeUs s c
        rcases ih (by omega) with
          ⟨hNumbered, hIff, hOrder⟩
        rcases call_keeps airtimeUs s c hNumbered hClear
          with ⟨fresh, hTurns, hNext, hFresh, hRefusal⟩
        have hMem :
            (∀ turn ∈ (s.call airtimeUs c).turns,
                Undisturbed turn) ↔
              (∀ turn ∈ s.turns, Undisturbed turn) ∧
                ∀ turn ∈ fresh, Undisturbed turn := by
          rw [hTurns]
          exact List.forall_mem_append
        refine ⟨hNext, ?_, ?_⟩
        · rw [hMem, List.forall_mem_append]
          constructor
          · rintro ⟨hEach, hLast⟩
            have hFree := hIff.mp hEach
            have hHere :=
              hLast _ (List.mem_singleton.mpr rfl)
            exact ⟨hFree,
              (hFresh (hOrder hFree)).mp hHere.ordered⟩
          · rintro ⟨hFree, hMore⟩
            refine ⟨hIff.mpr hFree, ?_⟩
            intro t ht
            rw [List.mem_singleton.mp ht]
            exact honoured_of_ordered airtimeUs hNumbered
              hTurns hNext hRefusal (hOrder hFree)
              ((hFresh (hOrder hFree)).mpr hMore)
        · intro hFree
          rcases hMem.mp hFree with ⟨hOld, hMore⟩
          exact (hFresh (hOrder hOld)).mpr hMore
  exact hAll.2.1

/- A radio whose duty cycle has air for one short frame. -/
def oneAtATime : Driver :=
  .virtual
    { air :=
        { duty := { percent := 10, window := 20000 }
          queue := { depth := 16 } } }

/- What a frame of a few bytes holds the air for. -/
def shortAirtimeUs : Nat → UInt32 :=
  fun _ => 1089536

/- A reply and a stranger's packet, one window apart. -/
def replyThenTransit : List DriverCall :=
  [.send [2] .low, .send [1] .normal,
    .tick 0 false true, .tick 20000 false true]

theorem reply_and_transit_keep_their_places :
    oneAtATime.air.queue = { depth := 16 } ∧
      ∀ t ∈ replay (call shortAirtimeUs)
          { driver := oneAtATime } replyThenTransit,
        Honoured t :=
  ⟨rfl,
    (keeps_its_place_iff shortAirtimeUs
      (d := oneAtATime) rfl
      (run_replay (call shortAirtimeUs)
        { driver := oneAtATime } replyThenTransit)
      (by decide +kernel)).mpr (by decide +kernel)⟩

/- Three replies, and air for one of them at a time. -/
def threeReplies : List DriverCall :=
  [.send [1] .normal, .send [2] .normal,
    .send [3] .normal, .tick 0 false true,
    .tick 20000 false true, .tick 40000 false true]

theorem refused_reply_is_overtaken :
    ¬ ∀ (airtimeUs : Nat → UInt32) (d : Driver)
        (depth : Nat) (cs : List DriverCall),
      d.air.queue = { depth := depth } →
        ∀ t ∈ replay (call airtimeUs) { driver := d } cs,
          Honoured t := by
  intro hAll
  have hLast :=
    hAll shortAirtimeUs oneAtATime 16 threeReplies rfl
      ((replay (call shortAirtimeUs)
        { driver := oneAtATime } threeReplies).get
          ⟨5, by decide +kernel⟩)
      (List.get_mem _ _)
  exact absurd (hLast.on_air .normal) (by decide +kernel)

end Traffic

end MeshCore
