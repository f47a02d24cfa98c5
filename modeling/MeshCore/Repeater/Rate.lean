import MeshCore.Library.Limiter
import MeshCore.Repeater.Policy

/-
  How often a policy agrees to carry a flood. Every
  neighbour has a limiter of its own, which only a flood of
  that neighbour reaches, and only where nothing else has
  refused it.

  Key definitions include:
    * `Repeater.Call`, `Repeater.Policy.serve`
    * `Repeater.Policy.slotOf`
    * `Repeater.Policy.carriedWithin`
    * `Repeater.Policy.answersFor`

  Key facts include:
    * `Repeater.Policy.withinRate_ask`
    * `Repeater.Policy.serve_step`
    * `Repeater.Policy.flood_rate_is_kept`
-/

namespace MeshCore.Repeater

------------------------------------------------------------
-- Calls
------------------------------------------------------------

/- What a policy is asked about a packet, and when. -/
structure Call where
  packet : Packet
  now : Millis
  usedPermille : UInt32

/- A flood that the neighbour of this bucket handed us. -/
def Call.floodOf (bucket : Nat) (call : Call) : Bool :=
  call.packet.routeType.isFlood ∧
    Policy.bucketOf call.packet = bucket

namespace Policy

def serve (policy : Policy) (call : Call) : Policy :=
  (policy.shouldForward call.packet call.now
    call.usedPermille).2

def answer (policy : Policy) (call : Call) : Bool :=
  (policy.shouldForward call.packet call.now
    call.usedPermille).1

/- Nothing but the rate stands against it. -/
def passes (policy : Policy) (call : Call) : Bool :=
  policy.config.enabled ∧
    ¬ policy.config.maxHops ≤ call.packet.hopCount ∧
    ¬ policy.isBlocked call.packet ∧
    ¬ (policy.config.dutyCeilingPermille ≠ 0 ∧
      policy.config.dutyCeilingPermille ≤
        call.usedPermille)

theorem bucketOf_lt (p : Packet) :
    bucketOf p < repeaterSourceBuckets := by
  unfold bucketOf
  split
  · decide
  · exact Nat.lt_trans (UInt8.toNat_lt _) (by decide)

------------------------------------------------------------
-- One Call
------------------------------------------------------------

/- A flood that passes is up to its neighbour's counter. -/
theorem shouldForward_eq
    (policy : Policy)
    (call : Call) :
    (policy.answer call, (policy.serve call).buckets) =
      if policy.passes call then
        if call.packet.routeType.isFlood then
          ((policy.withinRate (bucketOf call.packet)
              call.now).1,
            (policy.withinRate (bucketOf call.packet)
              call.now).2.buckets)
        else (true, policy.buckets)
      else (false, policy.buckets) := by
  unfold answer serve shouldForward passes
  by_cases hOn : policy.config.enabled
  · by_cases hLimit :
      policy.config.maxHops ≤ call.packet.hopCount
    · simp [hOn, hLimit]
    · by_cases hBlocked : policy.isBlocked call.packet
      · simp [hOn, hLimit, hBlocked]
      · by_cases hBudget :
          policy.config.dutyCeilingPermille ≠ 0 ∧
            policy.config.dutyCeilingPermille ≤
              call.usedPermille
        · simp [hOn, hLimit, hBlocked, hBudget]
        · cases hFlood : call.packet.routeType.isFlood
          · simp [hOn, hLimit, hBlocked, hBudget]
          · cases hWithin :
              (policy.withinRate (bucketOf call.packet)
                call.now).1 <;>
              simp [hOn, hLimit, hBlocked, hBudget, hWithin]
  · simp [hOn]

------------------------------------------------------------
-- A Limiter For Every Neighbour
------------------------------------------------------------

def rate (policy : Policy) : Nat :=
  policy.config.floodPerMinute.toNat

/- What is kept of a neighbour, as a limiter keeps it. -/
def slotOf (policy : Policy) (bucket : Nat) :
    Limiter.Slot :=
  let slot := policy.buckets.getD bucket {}
  { start := slot.windowStart.toNat
    count := slot.count.toNat }

theorem slotOf_set
    (policy : Policy)
    {bucket : Nat}
    (hBucket : bucket < policy.buckets.length)
    (slot : Bucket)
    (other : Nat) :
    { policy with
        buckets :=
          policy.buckets.set bucket slot }.slotOf other =
      if other = bucket then
        { start := slot.windowStart.toNat
          count := slot.count.toNat }
      else policy.slotOf other := by
  unfold slotOf
  simp only [List.getD_eq_getElem?_getD, List.getElem?_set]
  by_cases hSame : other = bucket
  · rw [if_pos hSame, if_pos hSame.symm, if_pos hBucket]
    rfl
  · rw [if_neg hSame, if_neg (Ne.symm hSame)]

/- A window that is over, on clocks that wrap. -/
theorem past_iff (start now length : Millis) :
    now < start ∨ length ≤ now - start ↔
      now.toNat < start.toNat ∨
        start.toNat + length.toNat ≤ now.toNat := by
  rw [UInt64.lt_iff_toNat_lt, UInt64.le_iff_toNat_le]
  by_cases hBefore : now.toNat < start.toNat
  · simp [hBefore]
  · have hLe : start ≤ now :=
      UInt64.le_iff_toNat_le.mpr (Nat.le_of_not_lt hBefore)
    rw [UInt64.toNat_sub_of_le _ _ hLe]
    omega

/- The counter is a limiter, and nobody else's changes. -/
theorem withinRate_ask
    {policy : Policy} {bucket : Nat}
    (hRate : policy.config.floodPerMinute ≠ 0)
    (hBucket : bucket < policy.buckets.length)
    (now : Millis) :
    let asked :=
      Limiter.ask policy.rate repeaterRateWindowMs.toNat
        (policy.slotOf bucket) now.toNat
    (policy.withinRate bucket now).1 = asked.1 ∧
      ∀ other,
        (policy.withinRate bucket now).2.slotOf other =
          if other = bucket then asked.2
          else policy.slotOf other := by
  intro asked
  have hOpened :
      (policy.slotOf bucket).opened
          repeaterRateWindowMs.toNat now.toNat =
        let slot := policy.buckets.getD bucket {}
        let slot :=
          if now < slot.windowStart ∨
              repeaterRateWindowMs ≤
                now - slot.windowStart then
            { windowStart := now, count := 0 }
          else slot
        { start := slot.windowStart.toNat
          count := slot.count.toNat } := by
    unfold Limiter.Slot.opened slotOf
    simp only [past_iff]
    split <;> rfl
  unfold withinRate
  simp only [asked, Limiter.ask, hOpened,
    if_neg hRate]
  generalize
    (if now < (policy.buckets.getD bucket {}).windowStart ∨
        repeaterRateWindowMs ≤
          now - (policy.buckets.getD bucket {}).windowStart
      then ({ windowStart := now, count := 0 } : Bucket)
      else policy.buckets.getD bucket {}) = here
  have hFull :
      policy.config.floodPerMinute ≤ here.count ↔
        policy.rate ≤ here.count.toNat :=
    UInt32.le_iff_toNat_le
  by_cases hLimit :
    policy.config.floodPerMinute ≤ here.count
  · rw [if_pos hLimit, if_pos (hFull.mp hLimit)]
    exact ⟨rfl, slotOf_set policy hBucket here⟩
  · have hRoom : ¬ policy.rate ≤ here.count.toNat :=
      fun hLe => hLimit (hFull.mpr hLe)
    have hCount :
        (here.count + 1).toNat = here.count.toNat + 1 := by
      have hMax : policy.rate < 2 ^ 32 :=
        UInt32.toNat_lt _
      rw [UInt32.toNat_add, UInt32.toNat_one]
      omega
    rw [if_neg hLimit, if_neg hRoom]
    refine ⟨rfl, ?_⟩
    intro other
    rw [slotOf_set policy hBucket]
    simp only [hCount]

------------------------------------------------------------
-- Runs Of Calls
------------------------------------------------------------

theorem serve_config
    (policy : Policy)
    (call : Call) :
    (policy.serve call).config = policy.config :=
  policy.shouldForward_config _ _ _

/- When a call reaches the counter of a neighbour. -/
def asks
    (bucket : Nat)
    (policy : Policy)
    (call : Call) :
    Option Nat :=
  if call.floodOf bucket ∧ policy.passes call then
    some call.now.toNat
  else none

theorem asks_eq_none
    {bucket : Nat} {policy : Policy} {call : Call}
    (hNot : ¬ (call.floodOf bucket ∧ policy.passes call)) :
    asks bucket policy call = none :=
  if_neg hNot

theorem of_asks
    {bucket now : Nat} {policy : Policy} {call : Call}
    (hAsks : asks bucket policy call = some now) :
    now = call.now.toNat := by
  unfold asks at hAsks
  split at hAsks
  · exact (Option.some.inj hAsks).symm
  · cases hAsks

theorem slotOf_congr
    {policy policy' : Policy}
    (hBuckets : policy.buckets = policy'.buckets)
    (bucket : Nat) :
    policy.slotOf bucket = policy'.slotOf bucket := by
  unfold slotOf
  rw [hBuckets]

theorem length_withinRate
    (policy : Policy)
    (bucket : Nat)
    (now : Millis) :
    (policy.withinRate bucket now).2.buckets.length =
      policy.buckets.length := by
  unfold withinRate
  dsimp only
  split_ifs <;> simp

theorem length_serve
    (policy : Policy)
    (call : Call) :
    (policy.serve call).buckets.length =
      policy.buckets.length := by
  have hServed :=
    congrArg Prod.snd (policy.shouldForward_eq call)
  dsimp only at hServed
  rw [hServed]
  split_ifs
  · exact policy.length_withinRate _ _
  · rfl
  · rfl

/- A policy at work is a limiter at work, for each bucket. -/
theorem serve_step
    {policy : Policy}
    (hRate : policy.config.floodPerMinute ≠ 0)
    (hSlots : policy.buckets.length = repeaterSourceBuckets)
    (bucket : Nat)
    (call : Call) :
    Limiter.Step policy.rate repeaterRateWindowMs.toNat
        (policy.slotOf bucket) (asks bucket policy call)
        ((policy.serve call).slotOf bucket) ∧
      (call.floodOf bucket = true →
        policy.answer call =
          ((asks bucket policy call).map fun now =>
            (Limiter.ask policy.rate
              repeaterRateWindowMs.toNat
              (policy.slotOf bucket) now).1).getD
            false) := by
  have hServed := policy.shouldForward_eq call
  have hAnswer := congrArg Prod.fst hServed
  have hBuckets := congrArg Prod.snd hServed
  split_ifs at hAnswer hBuckets with hPasses hFlood
  · have hBucket :
        bucketOf call.packet < policy.buckets.length := by
      rw [hSlots]
      exact bucketOf_lt call.packet
    have hAsk := withinRate_ask hRate hBucket call.now
    by_cases hSame : bucketOf call.packet = bucket
    · subst hSame
      have hHere :
          asks (bucketOf call.packet) policy call =
            some call.now.toNat :=
        if_pos ⟨by simp [Call.floodOf, hFlood], hPasses⟩
      have hSlot := hAsk.2 (bucketOf call.packet)
      rw [if_pos rfl] at hSlot
      rw [hHere]
      exact ⟨(slotOf_congr hBuckets _).trans hSlot,
        fun _ => hAnswer.trans hAsk.1⟩
    · have hNot : ¬ call.floodOf bucket = true := by
        simp [Call.floodOf, hSame]
      have hSlot := hAsk.2 bucket
      rw [if_neg (Ne.symm hSame)] at hSlot
      rw [asks_eq_none fun hBoth => hNot hBoth.1]
      exact ⟨(slotOf_congr hBuckets _).trans hSlot,
        fun hIs => absurd hIs hNot⟩
  · have hNot : ¬ call.floodOf bucket = true := by
      simp [Call.floodOf, hFlood]
    rw [asks_eq_none fun hBoth => hNot hBoth.1]
    exact ⟨slotOf_congr hBuckets bucket,
      fun hIs => absurd hIs hNot⟩
  · rw [asks_eq_none fun hBoth => hPasses hBoth.2]
    exact ⟨slotOf_congr hBuckets bucket, fun _ => hAnswer⟩

/- The calls served in turn, with the policy around each. -/
def served (policy : Policy) (calls : List Call) :
    List (Transition Policy Call) :=
  replay serve policy calls

theorem map_event_served
    (policy : Policy)
    (calls : List Call) :
    (policy.served calls).map (·.event) = calls := by
  induction calls generalizing policy with
  | nil => rfl
  | cons call calls ih =>
      exact congrArg (call :: ·) (ih (policy.serve call))

/- Settings and counters stay what and where they are. -/
theorem served_invariant
    {policy : Policy} {calls : List Call}
    {t : Transition Policy Call}
    (ht : t ∈ policy.served calls) :
    (t.before.config = policy.config ∧
        t.before.buckets.length = policy.buckets.length) ∧
      t.before.serve t.event = t.after := by
  have hRun := run_replay serve policy calls
  refine ⟨?_, hRun.step_of_mem ht⟩
  have hBoth :=
    hRun.invariant_mem
      (I := fun policy' =>
        policy'.config = policy.config ∧
          policy'.buckets.length = policy.buckets.length)
      ⟨rfl, rfl⟩
      (by
        rintro s call s' ⟨hConfig, hLength⟩ rfl
        exact ⟨(s.serve_config call).trans hConfig,
          (s.length_serve call).trans hLength⟩) ht
  exact hBoth.1

/- The floods of a bucket answered true in an interval. -/
def carriedWithin
    (policy : Policy)
    (calls : List Call)
    (bucket first after : Nat) :
    Nat :=
  (policy.served calls).countP fun t =>
    t.event.floodOf bucket ∧
      t.before.answer t.event ∧
        first ≤ t.event.now.toNat ∧
          t.event.now.toNat < after

section Runs

variable {policy : Policy} {calls : List Call}

/- The run of one bucket's limiter inside that of a policy. -/
def limiterRun
    (bucket : Nat)
    (policy : Policy)
    (calls : List Call) :
    List (Transition Limiter.Slot (Option Nat)) :=
  (policy.served calls).map
    (Transition.map (slotOf · bucket) fun t =>
      asks bucket t.before t.event)

theorem run_limiterRun
    (hRate : policy.config.floodPerMinute ≠ 0)
    (hSlots : policy.buckets.length = repeaterSourceBuckets)
    (bucket : Nat) :
    Run
      (Limiter.Step policy.rate repeaterRateWindowMs.toNat)
      (policy.slotOf bucket)
      (limiterRun bucket policy calls)
      ((calls.foldl serve policy).slotOf bucket) := by
  apply (run_replay serve policy calls).map
  intro t ht
  rcases served_invariant ht with
    ⟨⟨hConfig, hLength⟩, hAfter⟩
  have hStep :=
    (serve_step (hConfig ▸ hRate) (hLength.trans hSlots)
      bucket t.event).1
  rw [← hAfter]
  rw [rate, hConfig] at hStep
  exact hStep

/- A flood that is carried is one its limiter grants. -/
theorem carries_iff
    (hRate : policy.config.floodPerMinute ≠ 0)
    (hSlots : policy.buckets.length = repeaterSourceBuckets)
    {t : Transition Policy Call}
    (ht : t ∈ policy.served calls)
    (bucket : Nat)
    (within : Nat → Bool) :
    (t.event.floodOf bucket ∧
        t.before.answer t.event ∧
          within t.event.now.toNat) ↔
      (((asks bucket t.before t.event).filter fun now =>
          (Limiter.ask policy.rate
            repeaterRateWindowMs.toNat
            (t.before.slotOf bucket) now).1).map
        within).getD false = true := by
  rcases served_invariant ht with ⟨⟨hConfig, hLength⟩, _⟩
  have hStep :=
    (serve_step (hConfig ▸ hRate) (hLength.trans hSlots)
      bucket t.event).2
  rw [rate, hConfig] at hStep
  by_cases hFlood : t.event.floodOf bucket = true
  · rw [hStep hFlood]
    by_cases hPasses : t.before.passes t.event = true
    · rw [asks, if_pos ⟨hFlood, hPasses⟩]
      cases hAsk :
        (Limiter.ask policy.rate
          repeaterRateWindowMs.toNat
          (t.before.slotOf bucket)
          t.event.now.toNat).1 <;>
        simp_all [Option.filter, rate]
    · rw [asks_eq_none fun hBoth => hPasses hBoth.2]
      simp
  · rw [asks_eq_none fun hBoth => hFlood hBoth.1]
    simp [hFlood]

/- What was carried of a neighbour is what was granted. -/
theorem carriedWithin_eq
    (hRate : policy.config.floodPerMinute ≠ 0)
    (hSlots : policy.buckets.length = repeaterSourceBuckets)
    (bucket first after : Nat) :
    carriedWithin policy calls bucket first after =
      Limiter.within
        (Limiter.grants policy.rate
          repeaterRateWindowMs.toNat
          (limiterRun bucket policy calls))
        first after := by
  unfold Limiter.within Limiter.grants limiterRun
  rw [List.countP_filterMap, List.countP_map]
  apply List.countP_congr
  intro t ht
  have hCarries :=
    carries_iff hRate hSlots ht bucket
      fun s => decide (first ≤ s ∧ s < after)
  rw [decide_eq_true_eq] at hCarries
  rw [decide_eq_true_eq, hCarries]
  rfl

/- Requests come in the order of the calls. -/
theorem pairwise_requests
    (hOrder :
      calls.Pairwise fun early late =>
        early.now ≤ late.now)
    (bucket : Nat)
    (policy : Policy) :
    (Limiter.requests
      (limiterRun bucket policy calls)).Pairwise
      (· ≤ ·) := by
  unfold Limiter.requests limiterRun
  rw [List.filterMap_map, List.pairwise_filterMap]
  rw [← map_event_served policy calls,
    List.pairwise_map] at hOrder
  apply hOrder.imp
  intro early late hLe s hs s' hs'
  have hEarly := of_asks hs
  have hLate := of_asks hs'
  rw [hEarly, hLate]
  exact UInt64.le_iff_toNat_le.mp hLe

/- A flood that is carried has its window among those. -/
theorem mem_starts
    (hRate : policy.config.floodPerMinute ≠ 0)
    (hSlots : policy.buckets.length = repeaterSourceBuckets)
    {t : Transition Policy Call}
    (ht : t ∈ policy.served calls)
    {bucket : Nat}
    (hFlood : t.event.floodOf bucket = true)
    (hCarried : t.before.answer t.event = true) :
    (t.after.slotOf bucket).start ∈
      Limiter.starts (limiterRun bucket policy calls) := by
  have hGranted :=
    (carries_iff hRate hSlots ht bucket fun _ => true).mp
      ⟨hFlood, hCarried, rfl⟩
  unfold Limiter.starts limiterRun
  rw [List.filterMap_map, List.mem_filterMap]
  refine ⟨t, ht, ?_⟩
  cases hAsks : asks bucket t.before t.event with
  | none => simp [hAsks] at hGranted
  | some now => simp [Transition.map, hAsks]

/- That window is open when the flood is carried. -/
theorem carried_in_window
    (hRate : policy.config.floodPerMinute ≠ 0)
    (hSlots : policy.buckets.length = repeaterSourceBuckets)
    {t : Transition Policy Call}
    (ht : t ∈ policy.served calls)
    {bucket : Nat}
    (hFlood : t.event.floodOf bucket = true)
    (hCarried : t.before.answer t.event = true) :
    let window := (t.after.slotOf bucket).start
    window ≤ t.event.now.toNat ∧
      t.event.now.toNat <
        window + repeaterRateWindowMs.toNat := by
  rcases served_invariant ht with
    ⟨⟨hConfig, hLength⟩, hAfter⟩
  have hStep :=
    serve_step (hConfig ▸ hRate) (hLength.trans hSlots)
      bucket t.event
  cases hAsks : asks bucket t.before t.event with
  | none =>
      have hAnswer := hStep.2 hFlood
      rw [hCarried, hAsks] at hAnswer
      cases hAnswer
  | some now =>
      have hSlot := hStep.1
      rw [hAsks, hAfter] at hSlot
      rw [Limiter.Step.unique hSlot rfl, ← of_asks hAsks]
      exact Limiter.ask_spans (by decide) _ _ now

------------------------------------------------------------
-- One Neighbour Alone
------------------------------------------------------------

/- What was answered about the floods of one neighbour. -/
def answersFor
    (policy : Policy)
    (calls : List Call)
    (bucket : Nat) :
    List (Call × Bool) :=
  ((policy.served calls).filter
      (·.event.floodOf bucket)).map fun t =>
    (t.event, t.before.answer t.event)

@[simp] theorem answersFor_nil
    (policy : Policy)
    (bucket : Nat) :
    policy.answersFor [] bucket = [] :=
  rfl

theorem answersFor_cons
    (policy : Policy)
    (call : Call)
    (calls : List Call)
    (bucket : Nat) :
    policy.answersFor (call :: calls) bucket =
      (if call.floodOf bucket then
        [(call, policy.answer call)]
      else []) ++
        (policy.serve call).answersFor calls bucket := by
  unfold answersFor served
  rw [replay]
  cases hFlood : call.floodOf bucket <;>
    simp [hFlood]

/- All that counts for the floods of one neighbour. -/
structure SameFor
    (bucket : Nat)
    (policy policy' : Policy) :
    Prop where
  config : policy.config = policy'.config
  slot : policy.slotOf bucket = policy'.slotOf bucket
  rated : policy.config.floodPerMinute ≠ 0
  slots : policy.buckets.length = repeaterSourceBuckets
  slots' : policy'.buckets.length = repeaterSourceBuckets

theorem passes_congr
    {policy policy' : Policy}
    (hConfig : policy.config = policy'.config)
    (call : Call) :
    policy.passes call = policy'.passes call := by
  unfold passes isBlocked
  rw [hConfig]

namespace SameFor

variable {bucket : Nat}
variable {policy policy' : Policy} {call : Call}

/- A flood of the neighbour finds and leaves the same. -/
theorem serve
    (hSame : SameFor bucket policy policy')
    (hFlood : call.floodOf bucket = true) :
    policy.answer call = policy'.answer call ∧
      SameFor bucket (policy.serve call)
        (policy'.serve call) := by
  have hRated : policy'.config.floodPerMinute ≠ 0 :=
    hSame.config ▸ hSame.rated
  have hStep :=
    serve_step hSame.rated hSame.slots bucket call
  have hStep' := serve_step hRated hSame.slots' bucket call
  have hAsks :
      asks bucket policy' call =
        asks bucket policy call := by
    unfold asks
    rw [passes_congr hSame.config]
  have hRate : policy'.rate = policy.rate := by
    rw [rate, rate, hSame.config]
  rw [hAsks, hRate, ← hSame.slot] at hStep'
  refine ⟨?_, ?_, ?_, ?_, ?_, ?_⟩
  · rw [hStep.2 hFlood, hStep'.2 hFlood]
  · rw [serve_config, serve_config, hSame.config]
  · exact Limiter.Step.unique hStep.1 hStep'.1
  · rw [serve_config]
    exact hSame.rated
  · rw [length_serve, hSame.slots]
  · rw [length_serve, hSame.slots']

/- What is not a flood of the neighbour leaves it alone. -/
theorem serve_other
    (hSame : SameFor bucket policy policy')
    (hFlood : ¬ call.floodOf bucket = true) :
    SameFor bucket (policy.serve call) policy' := by
  have hStep :=
    (serve_step hSame.rated hSame.slots bucket call).1
  rw [asks_eq_none fun hBoth => hFlood hBoth.1] at hStep
  refine ⟨?_, ?_, ?_, ?_, hSame.slots'⟩
  · rw [serve_config, hSame.config]
  · exact Eq.trans hStep hSame.slot
  · rw [serve_config]
    exact hSame.rated
  · rw [length_serve, hSame.slots]

/- The answers to one neighbour need nobody else's calls. -/
theorem answersFor_filter
    (hSame : SameFor bucket policy policy')
    (calls : List Call) :
    policy.answersFor calls bucket =
      policy'.answersFor
        (calls.filter (·.floodOf bucket)) bucket := by
  induction calls generalizing policy policy' with
  | nil => rfl
  | cons call calls ih =>
      rw [answersFor_cons]
      by_cases hFlood : call.floodOf bucket = true
      · rcases hSame.serve hFlood with ⟨hAnswer, hNext⟩
        rw [List.filter_cons_of_pos hFlood,
          answersFor_cons, hAnswer, ih hNext]
      · rw [List.filter_cons_of_neg hFlood, if_neg hFlood]
        exact ih (hSame.serve_other hFlood)

end SameFor

/-
  The allowance of a neighbour is kept, and its own: twice
  the rate within any minute, the rate within each window
  that a flood is carried in, and the same answers with
  everybody else's calls taken out.
-/
theorem flood_rate_is_kept
    (hRate : policy.config.floodPerMinute ≠ 0)
    (hSlots : policy.buckets.length = repeaterSourceBuckets)
    (hOrder :
      calls.Pairwise fun early late =>
        early.now ≤ late.now)
    (bucket : Nat) :
    let minute := repeaterRateWindowMs.toNat
    (∀ first,
      policy.carriedWithin calls bucket first
          (first + minute) ≤
        2 * policy.rate) ∧
    (∀ t ∈ policy.served calls,
      t.event.floodOf bucket = true →
      t.before.answer t.event = true →
        let window := (t.after.slotOf bucket).start
        (window ≤ t.event.now.toNat ∧
          t.event.now.toNat < window + minute) ∧
        policy.carriedWithin calls bucket window
            (window + minute) ≤
          policy.rate) ∧
    policy.answersFor calls bucket =
      policy.answersFor
        (calls.filter (·.floodOf bucket)) bucket := by
  intro minute
  have hMinute : 0 < minute := by decide
  have hRun :
      Run (Limiter.Step policy.rate minute) _
        (limiterRun bucket policy calls) _ :=
    run_limiterRun hRate hSlots bucket
  have hRequests := pairwise_requests hOrder bucket policy
  refine ⟨?_, ?_, ?_⟩
  · intro first
    rw [carriedWithin_eq hRate hSlots]
    exact Limiter.granted_within_interval hMinute hRun
      hRequests first
  · intro t ht hFlood hCarried window
    refine ⟨?_, ?_⟩
    · exact carried_in_window hRate hSlots ht hFlood hCarried
    · rw [carriedWithin_eq hRate hSlots]
      exact Limiter.granted_within_window hMinute hRun
        hRequests (mem_starts hRate hSlots ht hFlood hCarried)
  · have hSame : SameFor bucket policy policy :=
      ⟨rfl, rfl, hRate, hSlots, hSlots⟩
    exact hSame.answersFor_filter calls

end Runs

section Example

def onePerMinute : Policy :=
  .create { floodPerMinute := 1 }

/- A flood that the neighbour of this hash handed us. -/
def sampleCall (hash : UInt8) (now : Millis) : Call :=
  { packet :=
      { header := 0x15
        hashSize := 1
        hopCount := 1
        path := [hash]
        payload := [] }
    now := now
    usedPermille := 0 }

/- Two neighbours, one of which says the same three times. -/
def crowd : List Call :=
  [sampleCall 7 5, sampleCall 9 6, sampleCall 7 8,
    sampleCall 7 60005]

theorem crowd_keeps_the_rate :
    onePerMinute.carriedWithin crowd 7 5 60005 ≤ 2 ∧
      onePerMinute.answersFor crowd 7 =
        onePerMinute.answersFor
          [sampleCall 7 5, sampleCall 7 8,
            sampleCall 7 60005] 7 := by
  have hOrder :
      crowd.Pairwise fun early late =>
        early.now ≤ late.now := by
    decide
  have hKept :=
    onePerMinute.flood_rate_is_kept (by decide)
      List.length_replicate hOrder 7
  exact ⟨hKept.1 5, hKept.2.2⟩

/- One flood is carried in each of the windows. -/
example :
    (onePerMinute.answersFor crowd 7).map Prod.snd =
      [true, false, true] := by
  decide +kernel

end Example

end Policy

end MeshCore.Repeater
