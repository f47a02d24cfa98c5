import MeshCore.Node.Loop
import MeshCore.Room.Transit
import MeshCore.Routing.Forwarding

/-
  What the transit counters count. The policy counts a
  packet as forwarded when it agrees to it, and only then
  does the router look whether the packet can go on from
  here. So what is counted is what was agreed to, which is
  what was carried only as long as everything agreed to can
  travel.

  Key definitions include:
    * `Node.asks`, `Node.clears`, `Node.carries`
    * `Node.Counted`, `Node.Carriable`
    * `Node.carriedSince`

  Key facts include:
    * `Node.counted_iff`
    * `Node.transit_is_counted_iff`
-/

namespace MeshCore

------------------------------------------------------------
-- What A Turn Carries And Counts
------------------------------------------------------------

namespace Node

variable {η : Type}

def isQueued : Act → Bool
| .queued _ => true
| _ => false

/- How many transit frames a turn queued. -/
def carries (t : Turn η) : Nat :=
  (t.before.2.actsSince t.after.2).countP isQueued

section Steps

variable [CryptoCore]

/-
  The packet that transit is asked about, and the room that
  is asked: the packet has been delivered to it by then.
-/
def asks
    (s : Node η) :
    Event η → Option (Packet × Room η)
| .frame frame rx wall =>
    let s := hear s frame rx wall
    (parse frame).bind fun p =>
      if Takes s frame p then
        some (p, (delivered s frame p).1)
      else none
| _ => none

/- An admin of the room clears the transit counters. -/
def clears (s : Node η) : Event η → Bool
| .frame frame rx wall =>
    let s := hear s frame rx wall
    !s.2.alreadySeen frame &&
      ((Router.opened Room.delegate frame s).bind
        Room.eventOf).any s.1.clears
| _ => false

/- What was counted, once delivery is through. -/
def transitAfter
    (s : Node η)
    (e : Event η) :
    Repeater.Stats :=
  if clears s e then {} else Room.transitOf s.1.config

/- What delivery does to the counters. -/
theorem delivered_transit
    {s : Node η} {frame : Bytes} {p : Packet}
    (hTakes : Takes s frame p) :
    Room.transitOf (delivered s frame p).1.config =
      if ((Router.opened Room.delegate frame s).bind
          Room.eventOf).any s.1.clears then
        {}
      else Room.transitOf s.1.config := by
  rcases hTakes with ⟨hParse, -, hOther⟩
  have hOpened :
      Router.opened Room.delegate frame s =
        (Router.upcall Room.delegate p
          (s.1, s.2.takeIn frame)).1 := by
    simp [Router.opened, hParse, hOther]
  rw [delivered, Router.dispatch_eq, hOpened]
  generalize Router.upcall Room.delegate p
    (s.1, s.2.takeIn frame) = told
  rcases told with ⟨u, r⟩
  apply Router.told_room
    (P := fun room =>
      Room.transitOf room.config =
        if (u.bind Room.eventOf).any s.1.clears then {}
        else Room.transitOf s.1.config)
  · intro hNone
    rw [hNone]
    rfl
  · intro e hEvent
    rw [hEvent]
    apply s.1.perform_transit e
    -- routing never hands an upcall on as a question
    rintro q rfl
    rcases Option.bind_eq_some_iff.mp hEvent with
      ⟨u, -, hIs⟩
    cases u <;> simp [Room.eventOf] at hIs

/- Looking at an advert is no act of the router. -/
theorem hear_does
    (s : Node η)
    (frame : Bytes)
    (rx : RxMeta)
    (wall : UInt32) :
    s.2.Does [] (hear s frame rx wall).2 := by
  rcases Receiver.rememberIfAdvert_eq s.2.store
      { frame := frame, wall := wall, snr := rx.snr } with
    ⟨contacts, buckets, hEq⟩
  simp only [hear, hEq]
  exact ⟨rfl, rfl, rfl, rfl, by simp, rfl, by simp⟩

omit [CryptoCore] in
/- Acts that queue nothing are no carrying. -/
theorem carries_of_history
    {s s' : Node η} {acts : List Act}
    (hHistory : s'.2.history = s.2.history ++ acts)
    (e : Event η) :
    carries ⟨s, e, s'⟩ = acts.countP isQueued := by
  simp [carries, Router.actsSince, hHistory]

omit [CryptoCore] in
theorem countP_isQueued_of_delivery
    {acts : List Act}
    (hDelivery : ∀ a ∈ acts, Router.IsDelivery a) :
    acts.countP isQueued = 0 := by
  rw [List.countP_eq_zero]
  intro a ha hQueued
  have hHere := hDelivery a ha
  cases a with
  | queued frame => exact hHere
  | _ => simp [isQueued] at hQueued

/- Where transit is not asked, nothing is carried. -/
theorem apply_of_not_asked
    {s : Node η} {e : Event η}
    (hNone : asks s e = none) :
    Room.transitOf (apply s e).1.config =
        transitAfter s e ∧
      carries ⟨s, e, apply s e⟩ = 0 := by
  cases e with
  | frame frame rx wall =>
      have hNot :
          ∀ p, ¬ Takes (hear s frame rx wall) frame p := by
        intro p hTakes
        simp [asks, hTakes.1, hTakes] at hNone
      rcases onFrame_of_not_taken hNot rx with
        ⟨hSame, hTold⟩
      have hClears :
          clears s (.frame frame rx wall) = false := by
        rcases hTold with hSeen | hTold
        · simp [clears, hSeen]
        · simp [clears, hTold]
      have hHeard := hear_does s frame rx wall
      have hTaken :=
        hHeard.trans (Router.takeIn_does _ frame)
      rw [transitAfter, hClears, apply]
      rcases hSame with hSame | hSame
      · rw [hSame, carries_of_history hHeard.history]
        exact ⟨rfl, rfl⟩
      · rw [hSame, carries_of_history hTaken.history]
        exact ⟨rfl, rfl⟩
  | routing now =>
      have hConfig :
          (apply s (.routing now)).1.config = s.1.config :=
        Router.tick_told
          (I := fun room => room.config = s.1.config)
          (fun room id hRoom =>
            (Room.onDeliveryFailed_onlyRows room
              id).config.trans hRoom) now s rfl
      rcases Router.tick_does (D := Room.delegate)
          now s.1 s.2 with
        ⟨acts, hActs, hRelease⟩
      refine ⟨Room.transitOf_of_config hConfig, ?_⟩
      rw [apply, carries_of_history hActs.history]
      apply countP_isQueued_of_delivery
      intro a ha
      have hHere := hRelease a ha
      cases a <;> trivial
  | board now =>
      rcases Router.run_does (s.1.tick now) s.2 with
        ⟨acts, hActs, hSend⟩
      have hRows :=
        ((Room.tick_onlyRows s.1 now).exec
          (Program.run_exec Router.sender _ s.2)).2
      refine ⟨Room.transitOf_of_config hRows.config, ?_⟩
      rw [apply, carries_of_history hActs.history]
      exact countP_isQueued_of_delivery
        fun a ha => (hSend a ha).isDelivery
  | advert payload =>
      refine ⟨rfl, ?_⟩
      rw [apply, carries_of_history
        (Router.sendFlood_does s.2 _ _).history]
      exact countP_isQueued_of_delivery
        fun a ha =>
          (Router.transmission_isSend s.2 _ _ a ha).isDelivery
  | _ =>
      refine ⟨rfl, ?_⟩
      simp [carries, Router.actsSince, apply]

/- What is agreed to and can travel is queued, once. -/
theorem carries_of_taken
    {s : Node η} {frame : Bytes} {p : Packet}
    (hTakes : Takes s frame p)
    (rx : RxMeta) :
    ∃ acts,
      s.2.Does acts
          (Router.onFrame Room.delegate frame rx s).2 ∧
        acts.countP isQueued =
          if ((delivered s frame p).1.shouldForward p).1 =
                true ∧
              Router.CanTravel p s.2.store.selfHash then
            1
          else 0 := by
  rcases Router.dispatch_delivers (D := Room.delegate) p s.1
      (s.2.takeIn frame) with
    ⟨here, hHere, hDelivery⟩
  have hSoFar :
      s.2.Does (.received frame s.2.now :: here)
        (delivered s frame p).2 :=
    (Router.takeIn_does s.2 frame).trans hHere
  have hNothing :
      (Act.received frame s.2.now :: here).countP
        isQueued = 0 := by
    rw [List.countP_cons_of_neg (by simp [isQueued])]
    exact countP_isQueued_of_delivery hDelivery
  rw [onFrame_of_taken hTakes rx]
  by_cases hAgreed :
      ((delivered s frame p).1.shouldForward p).1 = true
  · have hQueued :=
      Router.considerForwarding_of_agreed
        (D := Room.delegate) hAgreed rx
        (delivered s frame p).2
    refine ⟨_, hSoFar.trans hQueued, ?_⟩
    have hTravels :=
      Router.onwardFrame_isSome_iff (parse_valid hTakes.1)
        s.2.store.selfHash rx.snr
    rw [List.countP_append, hNothing, hSoFar.selfHash,
      Nat.zero_add]
    simp only [hAgreed, true_and, ← hTravels]
    cases Router.onwardFrame p s.2.store.selfHash rx.snr <;>
      simp [isQueued]
  · rw [Bool.not_eq_true] at hAgreed
    rw [Router.considerForwarding_of_refused
      (D := Room.delegate) hAgreed rx]
    refine ⟨_, hSoFar, ?_⟩
    simp [hNothing, hAgreed]

/- Where it is asked, it answers for the room it is asked of. -/
theorem apply_of_asked
    {s : Node η} {e : Event η}
    {p : Packet} {asked : Room η}
    (hAsks : asks s e = some (p, asked)) :
    Room.transitOf asked.config = transitAfter s e ∧
      (apply s e).1 = (asked.shouldForward p).2 ∧
      carries ⟨s, e, apply s e⟩ =
        if (asked.shouldForward p).1 = true ∧
            Router.CanTravel p s.2.store.selfHash then
          1
        else 0 := by
  cases e with
  | frame frame rx wall =>
      simp only [asks, Option.bind_eq_some_iff] at hAsks
      rcases hAsks with ⟨q, hParse, hHere⟩
      split at hHere
      next hTakes =>
        rw [Option.some.injEq, Prod.mk.injEq] at hHere
        rcases hHere with ⟨rfl, rfl⟩
        have hDelivered := delivered_transit hTakes
        have hApply := onFrame_of_taken hTakes rx
        refine ⟨?_, ?_, ?_⟩
        · rw [hDelivered]
          simp [transitAfter, clears, hTakes.2.1]
          rfl
        · rw [apply, hApply, Router.considerForwarding_told]
          rfl
        · rcases carries_of_taken hTakes rx with
            ⟨acts, hActs, hCount⟩
          have hAll :=
            (hear_does s frame rx wall).trans hActs
          rw [apply, carries_of_history hAll.history]
          rw [selfHash_hear] at hCount
          exact hCount
      next => contradiction
  | _ => simp [asks] at hAsks

------------------------------------------------------------
-- What Is To Be Counted
------------------------------------------------------------

/-
  What the counters are to say of a turn: as many forwarded
  as it carried, and nothing of a direct packet that does
  not travel through us.
-/
structure Counted (t : Turn η) : Prop where
  carried :
    (Room.transitOf t.after.1.config).forwarded =
      (transitAfter t.before t.event).forwarded +
        UInt32.ofNat (carries t)
  passing :
    ∀ frame rx wall p,
      t.event = .frame frame rx wall →
        parse frame = some p →
          p.routeType.isFlood = false →
            ¬ t.before.2.OurTurn p →
              Room.transitOf t.after.1.config =
                transitAfter t.before t.event

/-
  Transit is on, and asked only about what concerns it:
  direct packets whose next hop we are, and nothing that it
  agrees to and that cannot go on from here.
-/
def Carriable (t : Turn η) : Prop :=
  ∀ a ∈ asks t.before t.event,
    a.2.TransitOn →
      (a.1.routeType.isFlood = false →
          t.before.2.OurTurn a.1) ∧
        ((a.2.shouldForward a.1).1 = true →
          Router.CanTravel a.1 t.before.2.store.selfHash)

instance (t : Turn η) : Decidable (Carriable t) := by
  unfold Carriable
  infer_instance

/- Transit is asked about the packet of a frame. -/
theorem asks_eq_some
    {s : Node η} {e : Event η}
    {p : Packet} {asked : Room η}
    (hAsks : asks s e = some (p, asked)) :
    ∃ frame rx wall,
      e = .frame frame rx wall ∧ parse frame = some p := by
  cases e with
  | frame frame rx wall =>
      simp only [asks, Option.bind_eq_some_iff] at hAsks
      rcases hAsks with ⟨q, hParse, hHere⟩
      split at hHere
      · rw [Option.some.injEq, Prod.mk.injEq] at hHere
        rw [hHere.1] at hParse
        exact ⟨frame, rx, wall, rfl, hParse⟩
      · contradiction
  | _ => simp [asks] at hAsks

/- The step lemma: one turn is counted as it is carried. -/
theorem counted_iff (s : Node η) (e : Event η) :
    Counted ⟨s, e, apply s e⟩ ↔
      Carriable ⟨s, e, apply s e⟩ := by
  cases hAsks : asks s e with
  | none =>
      rcases apply_of_not_asked hAsks with ⟨hSame, hNone⟩
      refine ⟨fun _ => by simp [Carriable, hAsks],
        fun _ => ⟨?_, fun _ _ _ _ _ _ _ _ => hSame⟩⟩
      rw [hNone, hSame]
      exact (UInt32.add_zero _).symm
  | some a =>
      rcases a with ⟨p, asked⟩
      rcases apply_of_asked hAsks with
        ⟨hBefore, hAfter, hCarries⟩
      have hForwarded := asked.shouldForward_forwarded p
      have hIs :
          Carriable ⟨s, e, apply s e⟩ ↔
            (asked.TransitOn →
              (p.routeType.isFlood = false →
                  s.2.OurTurn p) ∧
                ((asked.shouldForward p).1 = true →
                  Router.CanTravel p
                    s.2.store.selfHash)) := by
        simp [Carriable, hAsks]
      rw [hIs]
      by_cases hOn : asked.TransitOn
      · have hMoves := Room.shouldForward_transit_ne hOn p
        rcases asks_eq_some hAsks with
          ⟨frame, rx, wall, rfl, hParse⟩
        rw [← hAfter, hBefore] at hMoves hForwarded
        constructor
        · rintro ⟨hCarried, hPassing⟩ -
          constructor
          · intro hDirect
            by_contra hNot
            exact hMoves
              (hPassing frame rx wall p rfl hParse hDirect
                hNot)
          · intro hAgreed
            by_contra hNot
            rw [hForwarded, hCarries, if_pos hAgreed,
              if_neg fun h => hNot h.2] at hCarried
            exact Repeater.Policy.counter_moves _
              (hCarried.trans (UInt32.add_zero _))
        · intro hOnly
          rcases hOnly hOn with ⟨hTurn, hTravels⟩
          refine ⟨?_, ?_⟩
          · rw [hForwarded, hCarries]
            by_cases hAgreed :
                (asked.shouldForward p).1 = true
            · rw [if_pos hAgreed,
                if_pos ⟨hAgreed, hTravels hAgreed⟩]
              rfl
            · rw [if_neg hAgreed,
                if_neg fun h => hAgreed h.1]
              exact (UInt32.add_zero _).symm
          · intro frame' rx' wall' q hEvent hParse' hDirect
            cases hEvent
            rw [hParse] at hParse'
            cases hParse'
            intro hNot
            exact absurd (hTurn hDirect) hNot
      · rcases Room.shouldForward_off hOn p with
          ⟨hRefused, hSame⟩
        refine ⟨fun _ h => absurd h hOn, fun _ => ?_⟩
        have hAll :
            Room.transitOf (apply s e).1.config =
              transitAfter s e := by
          rw [hAfter, hSame, hBefore]
        refine ⟨?_, fun _ _ _ _ _ _ _ _ => hAll⟩
        rw [hCarries, hRefused, hAll]
        simp

------------------------------------------------------------
-- Over A Run
------------------------------------------------------------

/- What was carried since the counters were last cleared. -/
def carriedSince (ts : List (Turn η)) : Nat :=
  ts.foldl
    (fun n t =>
      (if clears t.before t.event then 0 else n) +
        carries t)
    0

/- A line of a reply that tells a number as forwarded. -/
def TellsForwarded (n : Nat) (line : Bytes) : Prop :=
  (ascii "fwd " ++ decimal n) <:+: line

omit [CryptoCore] in
theorem TellsForwarded.append
    {n : Nat} {line : Bytes}
    (hTells : TellsForwarded n line)
    (more : Bytes) :
    TellsForwarded n (line ++ more) :=
  hTells.trans (List.prefix_append line more).isInfix

omit [CryptoCore] in
theorem tellsForwarded_here
    (line label : Bytes)
    (n : Nat) :
    TellsForwarded n
      (line ++ (label ++ ascii "fwd ") ++ decimal n) :=
  ⟨line ++ label, [], by simp⟩

omit [CryptoCore] in
theorem statsLine_tells
    {room : Room η} {policy : Repeater.Policy}
    (hPolicy : room.config.forwarder = some policy) :
    TellsForwarded policy.stats.forwarded.toNat
      room.statsLine := by
  have hWords :
      ascii ", fwd " = ascii ", " ++ ascii "fwd " := by
    decide
  unfold Room.statsLine
  simp only [hPolicy, hWords]
  iterate 7 apply TellsForwarded.append
  exact tellsForwarded_here _ _ _

omit [CryptoCore] in
theorem transitLine_tells (policy : Repeater.Policy) :
    TellsForwarded policy.stats.forwarded.toNat
      (Room.transitLine policy) := by
  have hWords :
      ascii " hops, fwd " =
        ascii " hops, " ++ ascii "fwd " := by
    decide
  unfold Room.transitLine
  simp only [hWords]
  iterate 8 apply TellsForwarded.append
  exact tellsForwarded_here _ _ _

/- As long as all of it can travel, the count is right. -/
theorem forwarded_of_carriable
    {s₀ s : Node η} {ts : List (Turn η)}
    (hRun : Run Step s₀ ts s)
    (hNew : (Room.transitOf s₀.1.config).forwarded = 0)
    (hOnly : ∀ t ∈ ts, Carriable t) :
    (Room.transitOf s.1.config).forwarded =
      UInt32.ofNat (carriedSince ts) := by
  induction hRun with
  | start => exact hNew
  | @step ts s s' e hRun hStep ih =>
      rw [Step] at hStep
      subst hStep
      have hSoFar :=
        ih fun t ht => hOnly t (List.mem_append_left _ ht)
      have hHere :=
        ((counted_iff s e).mpr (hOnly _ (by simp))).carried
      rw [carriedSince, List.foldl_append] at *
      simp only [List.foldl_cons, List.foldl_nil] at hHere ⊢
      rw [hHere, UInt32.ofNat_add, transitAfter]
      split
      · rfl
      · rw [hSoFar]

/-
  Every turn of a run is counted as it is carried exactly if
  transit is asked only about what can go on from here. Then
  both replies tell the number of the packets carried since
  the counters were cleared.
-/
theorem transit_is_counted_iff
    {s₀ s : Node η} {ts : List (Turn η)}
    (hRun : Run Step s₀ ts s) :
    ((∀ t ∈ ts, Counted t) ↔ ∀ t ∈ ts, Carriable t) ∧
      ((Room.transitOf s₀.1.config).forwarded = 0 →
        (∀ t ∈ ts, Carriable t) →
          (Room.transitOf s.1.config).forwarded =
              UInt32.ofNat (carriedSince ts) ∧
            ∀ policy,
              s.1.config.forwarder = some policy →
                TellsForwarded (carriedSince ts % 2 ^ 32)
                    s.1.statsLine ∧
                  TellsForwarded (carriedSince ts % 2 ^ 32)
                    (Room.transitLine policy)) := by
  constructor
  · apply forall₂_congr
    intro t ht
    rcases t with ⟨before, e, after⟩
    have hStep : apply before e = after :=
      hRun.step_of_mem ht
    subst hStep
    exact counted_iff before e
  · intro hNew hOnly
    have hCount := forwarded_of_carriable hRun hNew hOnly
    refine ⟨hCount, ?_⟩
    intro policy hPolicy
    have hThis :
        policy.stats.forwarded.toNat =
          carriedSince ts % 2 ^ 32 := by
      rw [Room.transitOf, hPolicy] at hCount
      exact (congrArg UInt32.toNat hCount).trans
        UInt32.toNat_ofNat'
    rw [← hThis]
    exact ⟨statsLine_tells hPolicy, transitLine_tells policy⟩

end Steps

------------------------------------------------------------
-- A Packet For Somebody Else
------------------------------------------------------------

section Example

open Sample

/- A repeater whose key is all twos, as it starts. -/
def freshRepeater : Node Unit :=
  (.create
    { type := .repeater
      forwarder := some (.create {}) } (),
    .ofByte 2)

/- A direct packet whose next hop is 2, and then 3. -/
def throughUs : List (Event Unit) :=
  [.frame (Router.sampleDirectFrame [2, 3]) {} 0]

theorem next_hop_is_counted :
    (Room.transitOf
        (throughUs.foldl apply freshRepeater).1.config
      ).forwarded = 1 ∧
      ∀ t ∈ replay apply freshRepeater throughUs,
        Counted t := by
  have hOnly :
      ∀ t ∈ replay apply freshRepeater throughUs,
        Carriable t := by
    decide +kernel
  have hRun :
      Run Step freshRepeater
        (replay apply freshRepeater throughUs)
        (throughUs.foldl apply freshRepeater) :=
    run_replay apply freshRepeater throughUs
  refine ⟨?_, (transit_is_counted_iff hRun).1.mpr hOnly⟩
  rw [((transit_is_counted_iff hRun).2 rfl hOnly).1]
  decide +kernel

/- A direct packet whose next hop is 3 is none of ours. -/
theorem passing_packet_is_counted :
    ¬ ∀ (s₀ s : Node Unit) (ts : List (Turn Unit)),
      s₀.1.config.type.repeats = true →
        (Room.transitOf s₀.1.config).forwarded = 0 →
          Run Step s₀ ts s →
            ∀ t ∈ ts, Counted t := by
  intro hAll
  have hCounted :=
    hAll freshRepeater _ _ rfl rfl
      (run_replay apply freshRepeater
        [.frame (Router.sampleDirectFrame [3]) {} 0])
      _ List.mem_cons_self
  exact absurd hCounted.carried (by decide +kernel)

end Example

end Node

end MeshCore
