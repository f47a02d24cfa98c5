import MeshCore.Routing.Errands

/-
  What becomes of the frames that a router takes up to carry
  for others. Each of them waits once, with the delay of its
  reception; it is given to the radio by the first tick that
  is not before its time, behind those that have waited for
  longer, and no other frame is but our own.

  Key definitions include:
    * `Router.takenAt`, `Router.carriedAt`
    * `Router.CarriedInTime`

  Key facts include:
    * `Router.carrying_step`
    * `Router.transit_is_carried_once`
-/

namespace MeshCore

namespace Router

open scoped List

------------------------------------------------------------
-- The Order Of The Queue
------------------------------------------------------------

/- By rank, and by time where that is the same. -/
theorem Delayed.before_iff (a b : Delayed) :
    Delayed.before a b ↔
      a.priority.rank < b.priority.rank ∨
        a.priority.rank = b.priority.rank ∧
          a.notBefore.toNat ≤ b.notBefore.toNat := by
  have hRank :
      a.priority = b.priority ↔
        a.priority.rank = b.priority.rank := by
    cases a.priority <;> cases b.priority <;>
      simp [Priority.rank]
  unfold Delayed.before
  rw [← UInt64.le_iff_toNat_le]
  split
  next hOther =>
    have hRanks := hRank.not.mp hOther
    exact ⟨.inl, fun h => h.resolve_right fun h => hRanks h.1⟩
  next hSame =>
    have hRanks := hRank.mp (not_not.mp hSame)
    simp [hRanks]

instance : Std.Total Delayed.before where
  total a b := by
    rw [Delayed.before_iff, Delayed.before_iff]
    omega

instance : IsTrans Delayed Delayed.before where
  trans a b c hFirst hThen := by
    rw [Delayed.before_iff] at *
    omega

/- What is handed over is handed over in that order. -/
theorem pairwise_due (r : Router) :
    r.due.Pairwise Delayed.before :=
  (List.pairwise_insertionSort _ _).filter _

/- What waits is handed over or goes on waiting. -/
theorem due_append_waiting (r : Router) :
    r.due ++ r.waiting ~ r.queue := by
  have hNot :
      (fun entry : Delayed =>
          decide (r.now < entry.notBefore)) =
        fun entry => !decide (entry.notBefore ≤ r.now) := by
    funext entry
    rw [← decide_not]
    exact decide_eq_decide.mpr UInt64.not_le.symm
  rw [due, waiting, hNot]
  exact
    (List.filter_append_perm _ _).trans
      (List.perm_insertionSort _ _)

------------------------------------------------------------
-- What Is Taken Up
------------------------------------------------------------

def queuedOf : Act → Option Bytes
| .queued frame => some frame
| _ => none

/- The delay with which what was so received is sent on. -/
def IsDelay
    (config : RouterConfig)
    (rx : RxMeta)
    (delay : Millis) :
    Prop :=
  ∃ spread,
    (spread = 0 ∨ spread < config.forwardJitter) ∧
      delay =
        rx.airtime * config.forwardAirtimeFactor.toUInt64 +
          spread

theorem jitter_spread (r : Router) :
    r.jitter.1 = 0 ∨ r.jitter.1 < r.config.forwardJitter := by
  unfold jitter
  split
  next => exact .inl rfl
  next hSome =>
    have hPos := UInt64.pos_iff_ne_zero.mpr hSome
    exact .inr (UInt64.mod_lt _ hPos)

section Moves

variable [CryptoCore]
variable {δ : Type} {D : Delegate δ}

/- What forwarding adds to the queue, and when it is due. -/
theorem considerForwarding_takes
    (p : Packet)
    (rx : RxMeta)
    (s : δ × Router) :
    ∃ added : List Delayed,
      s.2.Does (added.map fun entry => .queued entry.frame)
        (considerForwarding D p rx s).2 ∧
      (considerForwarding D p rx s).2.queue =
        s.2.queue ++ added ∧
      ∀ entry ∈ added,
        entry.priority = .low ∧
          ∃ delay,
            IsDelay s.2.config rx delay ∧
              entry.notBefore = s.2.now + delay := by
  have hJitter := jitter_does s.2
  have hQueue : s.2.jitter.2.queue = s.2.queue := by
    unfold jitter
    split <;> rfl
  unfold considerForwarding
  simp only
  split
  · cases (transitCopy p s.2.store.selfHash rx.snr).bind
        (serialize · maxPacketFrame) with
    | none => exact ⟨[], .refl s.2, by simp, by simp⟩
    | some out =>
        rw [hJitter.config, hJitter.now]
        refine
          ⟨[{ notBefore :=
                s.2.now +
                  (rx.airtime *
                      s.2.config.forwardAirtimeFactor.toUInt64 +
                    s.2.jitter.1)
              priority := .low
              frame := out }],
            hJitter.trans (queueFrame_does _ _ _ _), ?_, ?_⟩
        · rw [← hQueue]
          rfl
        · intro entry hEntry
          rw [List.mem_singleton.mp hEntry]
          exact ⟨rfl, _, ⟨_, jitter_spread s.2, rfl⟩, rfl⟩
  · exact ⟨[], .refl s.2, by simp, by simp⟩

/- One step of a run of a router. -/
abbrev Move (δ : Type) :=
  Transition (δ × Router) (Event δ)

/- What is taken up to be carried. -/
def takenAt (t : Move δ) : List Delayed :=
  match t.event with
  | .frame _ _ =>
      t.after.2.queue.drop t.before.2.queue.length
  | _ => []

/- What is given to the radio from the queue. -/
def carriedAt (t : Move δ) : List Delayed :=
  match t.event with
  | .tick now => due { t.before.2 with now := now }
  | _ => []

def takenIn (ts : List (Move δ)) : List Delayed :=
  ts.flatMap takenAt

def carriedIn (ts : List (Move δ)) : List Delayed :=
  ts.flatMap carriedAt

omit [CryptoCore] in
/- What delivers a packet, or releases one, takes none up. -/
theorem queuedOf_eq_nil
    {acts : List Act}
    (hActs : ∀ a ∈ acts, IsDelivery a) :
    acts.filterMap queuedOf = [] := by
  rw [List.filterMap_eq_nil_iff]
  intro a ha
  have hThis := hActs a ha
  cases a with
  | queued frame => exact absurd hThis id
  | _ => rfl

omit [CryptoCore] in
theorem IsRelease.isDelivery
    {a : Act}
    (hRelease : IsRelease a) :
    IsDelivery a := by
  cases a <;> trivial

omit [CryptoCore] in
/- A tick keeps what is not due, and hands the rest over. -/
theorem tick_queue (now : Millis) (s : δ × Router) :
    (tick D now s).2.queue =
      waiting { s.2 with now := now } := by
  have hSame :
      (tick D now s).2.queue =
        (drainQueue { s.2 with now := now }).queue :=
    retryPending_queue _ _ _
  rw [hSame, drainQueue_eq]

/- What a frame adds to the queue, if it adds anything. -/
theorem onFrame_takes
    (frame : Bytes)
    (rx : RxMeta)
    (s : δ × Router) :
    ∃ added : List Delayed,
      (onFrame D frame rx s).2.queue = s.2.queue ++ added ∧
      (onFrame D frame rx s).2.history.filterMap queuedOf =
        s.2.history.filterMap queuedOf ++
          added.map (·.frame) ∧
      ∀ entry ∈ added,
        entry.priority = .low ∧
          ∃ delay,
            IsDelay s.2.config rx delay ∧
              entry.notBefore = s.2.now + delay := by
  rcases onFrame_performs (D := D) frame rx s with
    ⟨s', hPerforms, hEnd⟩
  rcases hPerforms.acts with ⟨acts, hDoes, hDelivery, -⟩
  have hNone := queuedOf_eq_nil hDelivery
  rcases hEnd with hEnd | ⟨p, -, -, hEnd⟩
  · refine ⟨[], ?_, ?_, by simp⟩
    · rw [hEnd, hPerforms.queue, List.append_nil]
    · rw [hEnd, hDoes.filterMap_history, hNone]
      rfl
  · rcases considerForwarding_takes (D := D) p rx s' with
      ⟨added, hMore, hQueue, hDelays⟩
    have hAdded :
        (added.map fun entry =>
            Act.queued entry.frame).filterMap queuedOf =
          added.map (·.frame) := by
      rw [List.filterMap_map]
      change added.filterMap (some ∘ (·.frame)) = _
      rw [List.filterMap_eq_map]
    refine ⟨added, ?_, ?_, ?_⟩
    · rw [hEnd, hQueue, hPerforms.queue]
    · rw [hEnd, hMore.filterMap_history,
        hDoes.filterMap_history, hNone, List.append_nil,
        hAdded]
    · intro entry hEntry
      rcases hDelays entry hEntry with
        ⟨hLow, delay, hDelay, hDue⟩
      rw [hDoes.config] at hDelay
      rw [hDoes.now] at hDue
      exact ⟨hLow, delay, hDelay, hDue⟩

theorem takenAt_frame
    {frame : Bytes} {rx : RxMeta}
    {s : δ × Router} {added : List Delayed}
    (hQueue :
      (onFrame D frame rx s).2.queue = s.2.queue ++ added) :
    takenAt ⟨s, .frame frame rx, onFrame D frame rx s⟩ =
      added := by
  rw [takenAt, hQueue, List.drop_left]

/- The step lemma: what waits came, and has not gone. -/
theorem carrying_step
    {s s' : δ × Router} {e : Event δ}
    (hStep : apply D s e = s') :
    carriedAt ⟨s, e, s'⟩ ++ s'.2.queue ~
        s.2.queue ++ takenAt ⟨s, e, s'⟩ ∧
      s'.2.history.filterMap queuedOf =
        s.2.history.filterMap queuedOf ++
          (takenAt ⟨s, e, s'⟩).map (·.frame) := by
  subst hStep
  cases e with
  | tick now =>
      rcases (tick_releases (D := D) now s).acts with
        ⟨acts, hDoes, hRelease, -⟩
      refine ⟨?_, ?_⟩
      · rw [apply, tick_queue]
        change due _ ++ waiting _ ~ s.2.queue ++ []
        rw [List.append_nil]
        exact due_append_waiting { s.2 with now := now }
      · rw [apply, hDoes.filterMap_history,
          queuedOf_eq_nil fun a ha =>
            (hRelease a ha).isDelivery]
        rfl
  | above task =>
      have hPerforms := run_performs (task s.1) s.2
      rcases hPerforms.acts with ⟨acts, hDoes, hDelivery, -⟩
      refine ⟨?_, ?_⟩
      · rw [apply, hPerforms.queue]
        change s.2.queue ~ s.2.queue ++ []
        rw [List.append_nil]
      · rw [apply, hDoes.filterMap_history,
          queuedOf_eq_nil hDelivery]
        rfl
  | frame frame rx =>
      rcases onFrame_takes (D := D) frame rx s with
        ⟨added, hQueue, hHistory, -⟩
      rw [apply, takenAt_frame hQueue, hQueue]
      exact ⟨List.Perm.refl _, hHistory⟩

/- The run lemma. -/
theorem carrying_run
    {s s' : δ × Router} {ts : List (Move δ)}
    (hRun : Run (fun s e s' => apply D s e = s') s ts s') :
    carriedIn ts ++ s'.2.queue ~ s.2.queue ++ takenIn ts ∧
      s'.2.history.filterMap queuedOf =
        s.2.history.filterMap queuedOf ++
          (takenIn ts).map (·.frame) := by
  induction hRun with
  | start => simp [carriedIn, takenIn]
  | @step ts m s' e _ hStep ih =>
      rcases ih with ⟨hSame, hHistory⟩
      rcases carrying_step hStep with ⟨hMore, hThen⟩
      simp only [carriedIn, takenIn, List.flatMap_append,
        List.flatMap_singleton] at hSame hHistory ⊢
      refine ⟨?_, ?_⟩
      · rw [List.append_assoc, ← List.append_assoc s.2.queue]
        exact
          ((hMore.append_left _).trans
            (List.append_assoc _ _ _ ▸ .refl _)).trans
            (hSame.append_right _)
      · rw [hThen, hHistory, List.append_assoc,
          List.map_append]

/-
  What is taken up in a step is taken up with its delay; and
  a tick hands over what is due, in the order of its time,
  and then sends again what has awaited an answer too long.
-/
structure CarriedInTime (t : Move δ) : Prop where
  delayed :
    ∀ frame rx, t.event = .frame frame rx →
      ∀ entry ∈ takenAt t,
        entry.priority = .low ∧
          ∃ delay,
            IsDelay t.before.2.config rx delay ∧
              entry.notBefore = t.before.2.now + delay
  due :
    ∀ now, t.event = .tick now →
      (∀ entry ∈ carriedAt t, entry.notBefore ≤ now) ∧
        ∀ entry ∈ t.after.2.queue, now < entry.notBefore
  ordered : (carriedAt t).Pairwise Delayed.before
  handed :
    ∀ now, t.event = .tick now →
      ∃ more,
        t.before.2.actsSince t.after.2 =
            (carriedAt t).map handOver ++ more ∧
          ∀ frame ∈ more.filterMap handedOf,
            ∃ entry ∈ t.before.2.pending,
              entry.frame = frame

theorem carriedInTime_of_step
    {s s' : δ × Router} {e : Event δ}
    (hStep : apply D s e = s') :
    CarriedInTime ⟨s, e, s'⟩ := by
  subst hStep
  exact
    { delayed := by
        rintro frame rx ⟨⟩
        rcases onFrame_takes (D := D) frame rx s with
          ⟨added, hQueue, -, hDelays⟩
        rw [apply, takenAt_frame hQueue]
        exact hDelays
      due := by
        rintro now ⟨⟩
        refine ⟨?_, ?_⟩
        · intro entry hEntry
          exact of_decide_eq_true (List.mem_filter.mp hEntry).2
        · rw [apply, tick_queue]
          intro entry hEntry
          exact of_decide_eq_true (List.mem_filter.mp hEntry).2
      ordered := by
        cases e with
        | tick now => exact pairwise_due _
        | _ => exact .nil
      handed := by
        rintro now ⟨⟩
        rcases retryPending_pending (D := D)
            (drainQueue { s.2 with now := now }).pending s.1
            (drainQueue { s.2 with now := now }) with
          ⟨⟨more, hMore, -, hHanded⟩, -⟩
        refine ⟨more, tick_actsSince hMore, ?_⟩
        intro frame hFrame
        rcases hHanded frame hFrame with ⟨entry, hEntry, hEq⟩
        rw [drainQueue_eq] at hEntry
        exact ⟨entry, hEntry, hEq⟩ }

/-
  Over any run of a router: of what it took up to carry each
  frame was given to the radio once, or waits; and so it was
  given in its time.
-/
theorem transit_is_carried_once
    {s s' : δ × Router} {ts : List (Move δ)}
    (hNew : s.2.queue = [])
    (hRun : Run (fun s e s' => apply D s e = s') s ts s') :
    carriedIn ts ++ s'.2.queue ~ takenIn ts ∧
      s'.2.history.filterMap queuedOf =
        s.2.history.filterMap queuedOf ++
          (takenIn ts).map (·.frame) ∧
      ∀ t ∈ ts, CarriedInTime t := by
  have hAll := carrying_run hRun
  rw [hNew, List.nil_append] at hAll
  refine ⟨hAll.1, hAll.2, ?_⟩
  intro t ht
  exact carriedInTime_of_step (hRun.step_of_mem ht)

end Moves

section Example

open Sample

/- Two frames of others: one goes on soon, and one later. -/
def twoFrames : List (Event Unit) :=
  [.frame (buildFrame .grpTxt [1, 2, 3] none) {},
    .frame (buildFrame .grpTxt [4, 5, 6] none)
      { airtime := 1000 },
    .tick 500]

def carrying : Unit × Router :=
  twoFrames.foldl (apply .carrier) ((), ofByte 2 {})

def carryingMoves : List (Move Unit) :=
  replay (apply .carrier) ((), ofByte 2 {}) twoFrames

theorem carrying_runs :
    Run (fun s e s' => apply .carrier s e = s')
      ((), ofByte 2 {}) carryingMoves carrying :=
  run_replay _ _ _

theorem one_of_two_is_carried :
    ((carriedIn carryingMoves).length = 1 ∧
        carrying.2.queue.length = 1) ∧
      carriedIn carryingMoves ++ carrying.2.queue ~
          takenIn carryingMoves ∧
        carrying.2.history.filterMap queuedOf =
          (ofByte 2 {}).history.filterMap queuedOf ++
            (takenIn carryingMoves).map (·.frame) ∧
        ∀ t ∈ carryingMoves, CarriedInTime t :=
  ⟨by decide,
    transit_is_carried_once rfl carrying_runs⟩

end Example

end Router

end MeshCore
