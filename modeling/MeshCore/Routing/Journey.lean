import MeshCore.Routing.Chain

/-
  The journey of a direct packet along a chain: where the
  medium carries it and nobody takes it for a packet heard
  before, every hop hands it to the next.

  Key definitions include:
    * `Network.Brings`
    * `Network.Carried`, `Network.Unmistaken`
    * `Network.Chain.Arrives`, `Network.Chain.Strips`

  Key facts include:
    * `Router.queue_apply`
    * `Network.handed_of_waiting`
    * `Network.Chain.brought_before`
    * `Network.Chain.arrives`
-/

namespace MeshCore

------------------------------------------------------------
-- What Waits
------------------------------------------------------------

namespace Router

variable [CryptoCore]
variable {δ : Type} {D : Delegate δ}

/- What waits, waits on or is given to the radio. -/
theorem queue_apply
    (e : Event δ)
    (s : δ × Router) :
    ∀ entry ∈ s.2.queue,
      entry ∈ (apply D s e).2.queue ∨
        handOver entry ∈ s.2.actsSince (apply D s e).2 := by
  intro entry hEntry
  cases e with
  | tick now => exact tick_hands now s entry hEntry
  | above task =>
      left
      rw [apply, (run_performs (task s.1) s.2).queue]
      exact hEntry
  | frame frame rx =>
      left
      rcases onFrame_performs (D := D) frame rx s with
        ⟨s', hPerforms, hEnd⟩
      rw [apply]
      rcases hEnd with hEnd | ⟨p, -, -, hEnd⟩
      · rw [hEnd, hPerforms.queue]
        exact hEntry
      · rcases considerForwarding_queue (D := D) p rx s' with
          ⟨added, -, hQueue, -⟩
        rw [hEnd, hQueue, hPerforms.queue]
        exact List.mem_append_left _ hEntry

/- What is queued waits. -/
theorem queue_of_queued
    {frame out : Bytes} {rx : RxMeta} {s : δ × Router}
    (hQueued :
      .queued out ∈
        s.2.actsSince (onFrame D frame rx s).2) :
    ∃ entry ∈ (onFrame D frame rx s).2.queue,
      entry.frame = out := by
  rcases onFrame_performs (D := D) frame rx s with
    ⟨s', hPerforms, hEnd⟩
  rcases hPerforms.acts with ⟨acts, hDoes, hDelivery, -⟩
  rcases hEnd with hEnd | ⟨p, -, -, hEnd⟩
  · rw [hEnd, hDoes.actsSince] at hQueued
    exact absurd (hDelivery _ hQueued) id
  · rcases considerForwarding_queue (D := D) p rx s' with
      ⟨added, hMore, hQueue, -⟩
    rw [hEnd, (hDoes.trans hMore).actsSince,
      List.mem_append] at hQueued
    rcases hQueued with hQueued | hQueued
    · exact absurd (hDelivery _ hQueued) id
    · rcases List.mem_map.mp hQueued with
        ⟨entry, hEntry, hFrame⟩
      rw [Act.queued.injEq] at hFrame
      rw [hEnd, hQueue]
      exact ⟨entry, List.mem_append_right _ hEntry, hFrame⟩

/- What is sent is given to the radio at once. -/
theorem handed_of_originated
    {e : Event δ} {s : δ × Router} {frame : Bytes}
    (hSent :
      frame ∈
        (s.2.actsSince (apply D s e).2).filterMap
          originatedOf) :
    ∃ priority,
      .handed frame priority ∈
        s.2.actsSince (apply D s e).2 := by
  have hHanded :
      ∀ acts more : List Act,
        frame ∈ (acts ++ more).filterMap originatedOf →
        more.filterMap originatedOf = [] →
        acts.filterMap originatedOf =
          acts.filterMap handedOf →
          ∃ priority, .handed frame priority ∈ acts ++ more := by
    intro acts more hMem hNone hSame
    rw [List.filterMap_append, hNone, List.append_nil, hSame,
      List.mem_filterMap] at hMem
    rcases hMem with ⟨a, ha, hOf⟩
    cases a with
    | handed out priority =>
        rw [handedOf, Option.some.injEq] at hOf
        rw [hOf] at ha
        exact ⟨priority, List.mem_append_left _ ha⟩
    | _ => simp [handedOf] at hOf
  cases e with
  | above task =>
      rcases (run_performs (task s.1) s.2).acts with
        ⟨acts, hDoes, -, hOf, hTo⟩
      rw [apply, hDoes.actsSince,
        ← List.append_nil acts] at hSent ⊢
      exact hHanded acts [] hSent rfl (hOf.trans hTo.symm)
  | tick now =>
      rw [originated_apply] at hSent
      simp [errandsAt] at hSent
  | frame heard rx =>
      rcases onFrame_performs (D := D) heard rx s with
        ⟨s', hPerforms, hEnd⟩
      rcases hPerforms.acts with ⟨acts, hDoes, -, hOf, hTo⟩
      rw [apply] at hSent ⊢
      rcases hEnd with hEnd | ⟨p, -, -, hEnd⟩
      · rw [hEnd, hDoes.actsSince,
          ← List.append_nil acts] at hSent ⊢
        exact hHanded acts [] hSent rfl (hOf.trans hTo.symm)
      · rcases considerForwarding_queue (D := D) p rx s' with
          ⟨added, hMore, -, -⟩
        rw [hEnd, (hDoes.trans hMore).actsSince] at hSent ⊢
        apply hHanded acts _ hSent ?_ (hOf.trans hTo.symm)
        rw [List.filterMap_map, List.filterMap_eq_nil_iff]
        exact fun entry _ => rfl

end Router

------------------------------------------------------------
-- The Medium
------------------------------------------------------------

namespace Network

variable {ι δ : Type}

/- Who hears which frame of whom in the event. -/
def Event.heard : Event ι δ → Option (ι × ι × Bytes)
| deliver src dst frame _ => some (src, dst, frame)
| _ => none

theorem Event.heard_eq_some
    {e : Event ι δ} {src dst : ι} {frame : Bytes} :
    e.heard = some (src, dst, frame) ↔
      ∃ rx, e = .deliver src dst frame rx := by
  cases e with
  | deliver a b out rx => simp [heard]
  | tick node now => simp [heard]
  | above node task => simp [heard]

instance decidableEveryDelivery
    {P : ι → ι → Bytes → Prop}
    [∀ src dst frame, Decidable (P src dst frame)]
    (e : Event ι δ) :
    Decidable
      (∀ src dst frame rx,
        e = .deliver src dst frame rx → P src dst frame) :=
  decidable_of_iff
    (∀ place ∈ e.heard, P place.1 place.2.1 place.2.2)
    ⟨by
      rintro hAll src dst frame rx rfl
      exact hAll (src, dst, frame) rfl,
    by
      rintro hAll ⟨src, dst, frame⟩ hPlace
      rcases Event.heard_eq_some.mp hPlace with
        ⟨rx, hEvent⟩
      exact hAll _ _ _ rx hEvent⟩

/- The packet comes to a node, by air or from above. -/
def Brings
    (orig : Bytes)
    (t : Transition (Network ι δ) (Event ι δ))
    (node : ι) :
    Prop :=
  (∃ src frame rx,
    t.event = .deliver src node frame rx ∧
      IsCopyOf orig frame) ∨
  ∃ frame ∈ (actsOf t node).filterMap Router.originatedOf,
    IsCopyOf orig frame

instance
    [DecidableEq ι]
    (orig : Bytes)
    (t : Transition (Network ι δ) (Event ι δ))
    (node : ι) :
    Decidable (Brings orig t node) :=
  decidable_of_iff
    ((∃ place ∈ t.event.heard,
      place.2.1 = node ∧ IsCopyOf orig place.2.2) ∨
    ∃ frame ∈
        (actsOf t node).filterMap Router.originatedOf,
      IsCopyOf orig frame)
    (or_congr_left ⟨by
      rintro ⟨⟨src, dst, frame⟩, hPlace, rfl, hCopy⟩
      rcases Event.heard_eq_some.mp hPlace with
        ⟨rx, hEvent⟩
      exact ⟨src, frame, rx, hEvent, hCopy⟩,
    by
      rintro ⟨src, frame, rx, hEvent, hCopy⟩
      exact ⟨(src, node, frame),
        Event.heard_eq_some.mpr ⟨rx, hEvent⟩, rfl, hCopy⟩⟩)

/- Nobody is heard before the packet has come to it. -/
def Causal
    (ts : List (Transition (Network ι δ) (Event ι δ)))
    (orig : Bytes) :
    Prop :=
  ∀ pre t post, ts = pre ++ t :: post →
    ∀ src dst frame rx,
      t.event = .deliver src dst frame rx →
      IsCopyOf orig frame →
        ∃ u ∈ pre, Brings orig u src

/-
  The medium carries the packet: whatever a radio is given
  is heard by everybody in reach, later and not before, and
  nothing waits in the end.
-/
structure Carried
    (hears : ι → ι → Prop)
    (ts : List (Transition (Network ι δ) (Event ι δ)))
    (s : Network ι δ)
    (orig : Bytes) :
    Prop where
  causal : Causal ts orig
  heard :
    ∀ t ∈ ts, ∀ src dst frame priority,
      hears src dst →
      .handed frame priority ∈ actsOf t src →
      IsCopyOf orig frame →
        ∃ u ∈ ts, ∃ rx,
          u.event = .deliver src dst frame rx
  drained :
    ∀ node, ∀ entry ∈ (s node).2.queue,
      ¬ IsCopyOf orig entry.frame

instance
    [DecidableEq ι]
    (ts : List (Transition (Network ι δ) (Event ι δ)))
    (orig : Bytes) :
    Decidable (Causal ts orig) := by
  unfold Causal
  infer_instance

instance
    [Fintype ι]
    [DecidableEq ι]
    (hears : ι → ι → Prop)
    [DecidableRel hears]
    (ts : List (Transition (Network ι δ) (Event ι δ)))
    (s : Network ι δ)
    (orig : Bytes) :
    Decidable (Carried hears ts s orig) :=
  decidable_of_iff
    (Causal ts orig ∧
      (∀ t ∈ ts, ∀ src dst, hears src dst →
        ∀ frame ∈
            (actsOf t src).filterMap Router.handedOf,
          IsCopyOf orig frame →
            ∃ u ∈ ts,
              u.event.heard = some (src, dst, frame)) ∧
      ∀ node, ∀ entry ∈ (s node).2.queue,
        ¬ IsCopyOf orig entry.frame)
    ⟨by
      rintro ⟨hCausal, hHeard, hDrained⟩
      refine ⟨hCausal, ?_, hDrained⟩
      intro t ht src dst frame priority hHears hHanded hCopy
      have hMem :
          frame ∈
            (actsOf t src).filterMap Router.handedOf :=
        List.mem_filterMap.mpr ⟨_, hHanded, rfl⟩
      rcases hHeard t ht src dst hHears frame hMem hCopy with
        ⟨u, hu, hPlace⟩
      exact ⟨u, hu, Event.heard_eq_some.mp hPlace⟩,
    by
      rintro ⟨hCausal, hHeard, hDrained⟩
      refine ⟨hCausal, ?_, hDrained⟩
      intro t ht src dst hHears frame hMem hCopy
      rcases List.mem_filterMap.mp hMem with ⟨a, ha, hOf⟩
      cases a with
      | handed out priority =>
          rw [Router.handedOf, Option.some.injEq] at hOf
          rw [hOf] at ha
          rcases hHeard t ht src dst frame priority hHears
              ha hCopy with
            ⟨u, hu, rx, hEvent⟩
          exact ⟨u, hu,
            Event.heard_eq_some.mpr ⟨rx, hEvent⟩⟩
      | _ => simp [Router.handedOf] at hOf⟩

theorem Causal.of_append
    {ts us : List (Transition (Network ι δ) (Event ι δ))}
    {orig : Bytes}
    (hCausal : Causal (ts ++ us) orig) :
    Causal ts orig := by
  intro pre t post hSplit
  apply hCausal pre t (post ++ us)
  rw [hSplit, List.append_assoc]
  rfl

variable [CryptoCore]

/-
  Whoever the packet comes to for the first time does not
  take it for one that was heard before.
-/
def Unmistaken
    (ts : List (Transition (Network ι δ) (Event ι δ)))
    (orig : Bytes) :
    Prop :=
  ∀ pre t post, ts = pre ++ t :: post →
    ∀ src dst frame rx,
      t.event = .deliver src dst frame rx →
      IsCopyOf orig frame →
      (∀ u ∈ pre, ¬ Brings orig u dst) →
        (t.before dst).2.alreadySeen frame = false

variable [DecidableEq ι]

instance
    (ts : List (Transition (Network ι δ) (Event ι δ)))
    (orig : Bytes) :
    Decidable (Unmistaken ts orig) := by
  unfold Unmistaken
  infer_instance

variable {hears : ι → ι → Prop} {D : ι → Delegate δ}

/- What waits is given to the radio, or is waiting still. -/
theorem handed_of_waiting
    {start s : Network ι δ}
    {ts : List (Transition (Network ι δ) (Event ι δ))}
    {node : ι} {entry : Delayed}
    (hRun : Run (Step hears D) start ts s)
    (hEntry : entry ∈ (start node).2.queue) :
    entry ∈ (s node).2.queue ∨
      ∃ t ∈ ts, Router.handOver entry ∈ actsOf t node := by
  induction hRun with
  | start => exact .inl hEntry
  | @step ts s s' e hPrefix hStep ih =>
      rcases ih with hWaits | ⟨t, ht, hHanded⟩
      · have hAfter := hStep.after_eq node
        by_cases hNode : node = e.node
        · rw [if_pos hNode, ← hNode] at hAfter
          rcases Router.queue_apply (D := D node) e.seen
              (s node) entry hWaits with hWaits | hHanded
          · left
            rw [hAfter]
            exact hWaits
          · right
            refine ⟨⟨s, e, s'⟩, by simp, ?_⟩
            change Router.handOver entry ∈
              (s node).2.actsSince (s' node).2
            rw [hAfter]
            exact hHanded
        · rw [if_neg hNode] at hAfter
          left
          rw [hAfter]
          exact hWaits
      · exact .inr
          ⟨t, List.mem_append_left _ ht, hHanded⟩

/- What a node sends is given to its radio at once. -/
theorem Step.handed_of_originated
    {t : Transition (Network ι δ) (Event ι δ)}
    (hStep : Step hears D t.before t.event t.after)
    {node : ι} {frame : Bytes}
    (hSent :
      frame ∈
        (actsOf t node).filterMap Router.originatedOf) :
    ∃ priority,
      .handed frame priority ∈ actsOf t node := by
  rcases List.mem_filterMap.mp hSent with ⟨a, ha, -⟩
  rw [actsOf, (hStep.node_of_act ha).2] at hSent ⊢
  exact Router.handed_of_originated hSent

------------------------------------------------------------
-- Hop By Hop
------------------------------------------------------------

namespace Chain

variable {n : Nat}

/-
  A packet that only the near end sends comes to a node by
  way of all the nodes before it.
-/
theorem brought_before
    {c : Chain hears n}
    {fresh start s : Network ι δ}
    {ts : List (Transition (Network ι δ) (Event ι δ))}
    {orig : Bytes}
    (hRun : Run (Step hears D) start ts s)
    (hDistinct : c.Distinct fresh)
    (hSole : SentOnlyBy ts c.near orig)
    (hCausal : Causal ts orig)
    {i j : Nat}
    (hPos : 1 ≤ i)
    (hLe : i ≤ j)
    (hj : j ≤ n + 1)
    (hBrought : ∃ t ∈ ts, Brings orig t (c.node j)) :
    ∃ t ∈ ts, Brings orig t (c.node i) := by
  induction ts using List.reverseRecOn
    generalizing s i j with
  | nil => simp at hBrought
  | append_singleton ts t ih =>
      rcases hRun.split_last with ⟨hBefore, hStep, -⟩
      have hEarlier :
          ∀ k, i ≤ k → k ≤ n + 1 →
            (∃ u ∈ ts, Brings orig u (c.node k)) →
              ∃ u ∈ ts ++ [t], Brings orig u (c.node i) := by
        intro k hi hk hThere
        rcases ih hBefore hSole.of_append.1
            hCausal.of_append hPos hi hk hThere with
          ⟨u, hu, hBrings⟩
        exact ⟨u, List.mem_append_left _ hu, hBrings⟩
      rcases hBrought with ⟨u, hu, hBrings⟩
      rcases List.mem_append.mp hu with hu | hu
      · exact hEarlier j hLe hj ⟨u, hu, hBrings⟩
      · obtain rfl := List.mem_singleton.mp hu
        by_cases hHere : i = j
        · rw [hHere]
          exact ⟨u, by simp, hBrings⟩
        · rcases hBrings with
            ⟨src, frame, rx, hEvent, hCopy⟩ |
              ⟨frame, hSent, hCopy⟩
          · rcases c.onChain src with ⟨k, hk, rfl⟩
            have hHears := hStep.1
            rw [hEvent] at hHears
            have hBeside :=
              (c.hears_iff k j hk hj).mp hHears.1
            exact hEarlier k (by omega) hk
              (hCausal ts u [] rfl _ _ _ _ hEvent hCopy)
          · have hNear :=
              (hSole u (by simp) _ frame hSent hCopy).1
            have hZero : j = 0 :=
              hDistinct.node_eq hj (Nat.zero_le _) hNear
            omega

/-
  A part of a run of new routers in a chain whose nodes all
  agree to forward.
-/
structure Window
    (D : ι → Delegate δ)
    (c : Chain hears n)
    (fresh start s : Network ι δ)
    (past ts : List (Transition (Network ι δ) (Event ι δ))) :
    Prop where
  isFresh : Fresh fresh
  reached : Run (Step hears D) fresh past start
  run : Run (Step hears D) start ts s
  distinct : c.Distinct fresh
  forwards :
    ∀ node d p, ((D node).shouldForward d p).1 = true

/-
  A direct packet that the near end alone sends, and sends
  the whole way, in a part of a run in which the medium
  carries it and nobody mistakes it.
-/
structure Journey
    (D : ι → Delegate δ)
    (c : Chain hears n)
    (fresh start s : Network ι δ)
    (past ts : List (Transition (Network ι δ) (Event ι δ)))
    (orig : Bytes)
    (p₀ : Packet) :
    Prop extends Window D c fresh start s past ts where
  parsed : parse orig = some p₀
  direct : p₀.routeType = .direct
  type : p₀.payloadType ≠ .trace
  oneByte : p₀.hashSize = UInt8.ofNat nodeHashSize
  path : p₀.path = c.hashes fresh n
  sole : SentOnlyBy (past ++ ts) c.near orig
  carried : Carried hears ts s orig
  unmistaken : Unmistaken ts orig

theorem Window.reversed
    {c : Chain hears n}
    {fresh start s : Network ι δ}
    {past ts : List (Transition (Network ι δ) (Event ι δ))}
    (hWindow : Window D c fresh start s past ts) :
    Window D c.reversed fresh start s past ts :=
  { hWindow with distinct := hWindow.distinct.reversed }

/-
  The node behind the hop `k` hears the packet, as one that
  is new, with the hops up to `k` off its path.
-/
structure Arrives
    (c : Chain hears n)
    (fresh : Network ι δ)
    (past : List (Transition (Network ι δ) (Event ι δ)))
    (orig : Bytes)
    (k : Nat)
    (t : Transition (Network ι δ) (Event ι δ))
    (frame : Bytes)
    (q : Packet) :
    Prop where
  event :
    ∃ rx,
      t.event =
        .deliver (c.node k) (c.node (k + 1)) frame rx
  parsed : parse frame = some q
  copy : IsCopyOf orig frame
  oneByte : q.hashSize = UInt8.ofNat nodeHashSize
  path : q.path = (c.hashes fresh n).drop k
  lineage : Lineage past frame (c.first k)
  new :
    (t.before (c.node (k + 1))).2.alreadySeen frame = false

/- Every repeater in turn has taken itself off its path. -/
def Strips
    (c : Chain hears n)
    (fresh : Network ι δ)
    (past ts : List (Transition (Network ι δ) (Event ι δ)))
    (orig : Bytes) :
    Prop :=
  ∀ k, k ≤ n →
    ∃ pre t post frame q,
      ts = pre ++ t :: post ∧
        c.Arrives fresh (past ++ pre) orig k t frame q

section Journeys

variable {c : Chain hears n}
variable {fresh start s : Network ι δ}
variable
  {past ts : List (Transition (Network ι δ) (Event ι δ))}
variable {orig : Bytes} {p₀ : Packet} {k : Nat}

/-
  Where a hop is heard at all, it is heard in time: the
  first copy to come to the next node is its frame.
-/
theorem Journey.arrives_of_heard
    (hJourney : Journey D c fresh start s past ts orig p₀)
    (hk : k ≤ n)
    (hHeard :
      ∃ t ∈ ts, ∃ frame rx,
        t.event =
            .deliver (c.node k) (c.node (k + 1)) frame rx ∧
          IsCopyOf orig frame) :
    ∃ pre t post frame q,
      ts = pre ++ t :: post ∧
        c.Arrives fresh (past ++ pre) orig k t frame q := by
  have hBrought :
      ∃ t ∈ ts, Brings orig t (c.node (k + 1)) := by
    rcases hHeard with ⟨t, ht, frame, rx, hEvent, hCopy⟩
    exact ⟨t, ht, .inl ⟨_, frame, rx, hEvent, hCopy⟩⟩
  rcases Run.exists_first hBrought with
    ⟨pre, t, post, hSplit, hBrings, hFirst⟩
  have hRun := hJourney.run
  have hSole := hJourney.sole
  rw [hSplit] at hRun hSole
  rcases hRun.split_cons with ⟨hBefore, hStep, -⟩
  have hHere := hSole.of_append.2
  rcases hBrings with
    ⟨src, frame, rx, hEvent, hCopy⟩ | ⟨frame, hSent, hCopy⟩
  · rcases c.onChain src with ⟨i, hi, rfl⟩
    have hHears := hStep.1
    rw [hEvent] at hHears
    have hBeside :=
      (c.hears_iff i (k + 1) hi (by omega)).mp hHears.1
    have hPrev : i = k := by
      by_contra hNext
      -- whoever is further on has had it from here
      rcases brought_before hBefore hJourney.distinct
          hHere.of_append.1
          (by
            have hCausal := hJourney.carried.causal
            rw [hSplit] at hCausal
            exact hCausal.of_append)
          (Nat.le_add_left 1 k) (by omega : k + 1 ≤ i) hi
          (hJourney.carried.causal pre t post hSplit _ _ _ _
            hEvent hCopy) with
        ⟨u, hu, hEarlier⟩
      exact hFirst u hu hEarlier
    subst hPrev
    have hWhole := hJourney.reached.trans hBefore
    have hFrom :=
      from_of_onAir hJourney.isFresh hWhole hHears.2
    cases hParse : parse frame with
    | none =>
        unfold IsCopyOf at hCopy
        simp [hParse, hJourney.parsed] at hCopy
    | some q =>
        have hWholeSole :
            SentOnlyBy (past ++ pre) c.near orig := by
          rw [← List.append_assoc] at hSole
          exact hSole.of_append.1
        rcases direct_path hJourney.isFresh hWhole
            hJourney.distinct hJourney.parsed
            (by rw [hJourney.direct]; rfl) hJourney.type
            hJourney.oneByte hJourney.path hWholeSole
            hi hFrom hParse hCopy with
          ⟨-, hSize, hPath, hLineage⟩
        exact ⟨pre, t, post, frame, q, hSplit,
          { event := ⟨rx, hEvent⟩
            parsed := hParse
            copy := hCopy
            oneByte := hSize
            path := hPath
            lineage := hLineage
            new :=
              hJourney.unmistaken pre t post hSplit _ _ _ _
                hEvent hCopy hFirst }⟩
  · have hNear :=
      (hHere t (by simp) _ frame hSent hCopy).1
    have hZero : k + 1 = 0 :=
      hJourney.distinct.node_eq (by omega) (Nat.zero_le _)
        hNear
    omega

/- A repeater that it arrives at queues it to go on. -/
theorem Journey.queued_of_arrives
    {pre post :
      List (Transition (Network ι δ) (Event ι δ))}
    {t : Transition (Network ι δ) (Event ι δ)}
    {frame : Bytes} {q : Packet}
    (hJourney : Journey D c fresh start s past ts orig p₀)
    (hk : k < n)
    (hSplit : ts = pre ++ t :: post)
    (hArrives :
      c.Arrives fresh (past ++ pre) orig k t frame q) :
    ∃ entry ∈ (t.after (c.node (k + 1))).2.queue,
      IsCopyOf orig entry.frame := by
  have hRun := hJourney.run
  rw [hSplit] at hRun
  rcases hRun.split_cons with ⟨hBefore, hStep, -⟩
  rcases hArrives.event with ⟨rx, hEvent⟩
  have hAfter := hStep.after_eq (c.node (k + 1))
  rw [hEvent, Event.node, if_pos rfl] at hAfter
  have hCopy := copy_eq hArrives.copy hJourney.parsed
    hArrives.parsed hJourney.type
  have hSelf :
      (t.before (c.node (k + 1))).2.store.selfHash =
        c.hash fresh (k + 1) :=
    selfHash_of_run (hJourney.reached.trans hBefore) _
  have hTurn :
      (t.before (c.node (k + 1))).2.OurTurn q :=
    { direct := by
        left
        rw [Packet.routeType, hCopy.1]
        exact hJourney.direct
      hashSize := hArrives.oneByte
      next := by
        rw [hArrives.path, c.drop_hashes fresh hk, hSelf]
        rfl }
  have hOther : q.payloadType ≠ .trace := by
    rw [Packet.payloadType, hCopy.1]
    exact hJourney.type
  have hAgrees :
      Router.Agrees (D (c.node (k + 1))) frame q
        ((t.before (c.node (k + 1))).1,
          (t.before (c.node (k + 1))).2) :=
    hJourney.forwards _ _ _
  have hCarries :=
    (Router.onFrame_carriesOn_iff hArrives.parsed hTurn
      hAgrees rx).mpr
      ⟨hArrives.new, fun hTrace => absurd hTrace hOther⟩
  rcases hCarries with ⟨out, payload, hQueued, hAdded, hOut⟩
  rw [Router.ReadingAdded, if_neg hOther] at hAdded
  rcases Router.queue_of_queued hQueued with
    ⟨entry, hEntry, hFrame⟩
  refine ⟨entry, ?_, ?_⟩
  · rw [hAfter]
    exact hEntry
  · simp only [IsCopyOf, hJourney.parsed, hFrame, hOut,
      if_neg hJourney.type]
    exact ⟨hCopy.1, hAdded.trans hCopy.2⟩

/- What is queued to go on is heard by the next node. -/
theorem Journey.heard_of_queued
    {pre post :
      List (Transition (Network ι δ) (Event ι δ))}
    {t : Transition (Network ι δ) (Event ι δ)}
    {node next : ι} {entry : Delayed}
    (hJourney : Journey D c fresh start s past ts orig p₀)
    (hHears : hears node next)
    (hSplit : ts = pre ++ t :: post)
    (hQueued : entry ∈ (t.after node).2.queue)
    (hCopy : IsCopyOf orig entry.frame) :
    ∃ u ∈ ts, ∃ frame rx,
      u.event = .deliver node next frame rx ∧
        IsCopyOf orig frame := by
  have hRun := hJourney.run
  rw [hSplit] at hRun
  rcases hRun.split_cons with ⟨-, -, hRest⟩
  rcases handed_of_waiting hRest hQueued with
    hWaits | ⟨u, hu, hHanded⟩
  · exact absurd hCopy
      (hJourney.carried.drained node entry hWaits)
  · have hMem : u ∈ ts := by
      rw [hSplit]
      exact List.mem_append_right _
        (List.mem_cons_of_mem _ hu)
    rcases hJourney.carried.heard u hMem node next _ _
        hHears hHanded hCopy with
      ⟨v, hv, rx, hEvent⟩
    exact ⟨v, hv, _, rx, hEvent, hCopy⟩

/- The packet arrives behind every hop, the last included. -/
theorem Journey.arrives
    (hJourney : Journey D c fresh start s past ts orig p₀)
    (hSent :
      ∃ t ∈ ts,
        orig ∈
          (actsOf t c.near).filterMap Router.originatedOf)
    (hk : k ≤ n) :
    ∃ pre t post frame q,
      ts = pre ++ t :: post ∧
        c.Arrives fresh (past ++ pre) orig k t frame q := by
  induction k with
  | zero =>
      apply hJourney.arrives_of_heard (Nat.zero_le n)
      rcases hSent with ⟨t, ht, hSent⟩
      have hStep := hJourney.run.step_of_mem ht
      rcases hStep.handed_of_originated hSent with
        ⟨priority, hHanded⟩
      have hCopy : IsCopyOf orig orig := by
        simp [IsCopyOf, hJourney.parsed]
      have hHears : hears (c.node 0) (c.node 1) := by
        rw [c.hears_iff 0 1 (by omega) (by omega)]
        exact .inl rfl
      rcases hJourney.carried.heard t ht _ _ _ _ hHears
          hHanded hCopy with
        ⟨u, hu, rx, hEvent⟩
      exact ⟨u, hu, orig, rx, hEvent, hCopy⟩
  | succ k ih =>
      rcases ih (Nat.le_of_succ_le hk) with
        ⟨pre, t, post, frame, q, hSplit, hArrives⟩
      rcases hJourney.queued_of_arrives hk hSplit hArrives
        with ⟨entry, hEntry, hCopy⟩
      apply hJourney.arrives_of_heard hk
      have hHears :
          hears (c.node (k + 1)) (c.node (k + 1 + 1)) := by
        rw [c.hears_iff _ _ (by omega) (by omega)]
        exact .inl rfl
      exact hJourney.heard_of_queued hHears hSplit hEntry
        hCopy

end Journeys

end Chain

end Network

end MeshCore
