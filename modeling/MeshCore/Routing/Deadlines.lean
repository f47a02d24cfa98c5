import MeshCore.Routing.Outcomes
import MeshCore.Routing.Routes

/-
  How long a send that is to be acknowledged is waited for.
  The first time its frame goes out over a route, every hop
  of the route is given its time. When the frame goes out
  again, the hops are given none.

  Key definitions include:
    * `Router.Attempt`, `Router.Attempt.after`
    * `Router.Awaits`
    * `Router.directWait`
    * `Router.GivesTime`

  Key facts include:
    * `Router.tick_pending`
    * `Router.mem_givenUp_of_forgotten`
    * `Router.attempts_are_given_time_iff`
-/

namespace MeshCore

namespace Router

section Deadlines

variable [CryptoCore]
variable {δ : Type} {D : Delegate δ}

------------------------------------------------------------
-- What A Tick Leaves
------------------------------------------------------------

omit [CryptoCore] in
/- The table is walked entry by entry. -/
theorem tick_pending
    (now : Millis)
    (s : δ × Router) :
    (tick D now s).2.pending =
      s.2.pending.filterMap (entryNext now s.2.config) := by
  have hWalk :=
    (retryPending_walks (D := D)
      (drainQueue { s.2 with now := now }).pending s.1
      (drainQueue { s.2 with now := now })).1
  rw [drainQueue_eq] at hWalk
  rw [tick, drainQueue_eq]
  exact hWalk

/- The entries that a tick gives up. -/
def GivenUp
    (now : Millis)
    (config : RouterConfig)
    (entry : Pending) :
    Prop :=
  entryDeed now config entry = some (.failed entry.id)

omit [CryptoCore] in
/- What is due is sent again or given up. -/
theorem entryDeed_of_due
    {now : Millis} {config : RouterConfig} {entry : Pending}
    (hDue : ¬ now < entry.deadline) :
    entryDeed now config entry ≠ none := by
  unfold entryDeed
  rw [if_neg hDue]
  split <;> exact Option.some_ne_none _

omit [CryptoCore] in
/- Forgetting one peer's route leaves the others'. -/
theorem hasRoute_forgetRoute
    {r : Router} {dest other : PublicKey}
    (hOther : other ≠ dest)
    (hHere : r.hasRoute dest = true) :
    (r.forgetRoute other).hasRoute dest = true := by
  rw [hasRoute, findRoute, List.find?_isSome] at hHere ⊢
  rcases hHere with ⟨route, hRoute, hDest⟩
  refine ⟨route, ?_, hDest⟩
  have hKept : ¬ (route.dest == other) = true := by
    rw [eq_of_beq hDest, beq_iff_eq]
    exact fun hEq => hOther hEq.symm
  exact (List.mem_eraseP_of_neg
    (p := (·.dest == other)) hKept).mpr hRoute

omit [CryptoCore] in
/- A route goes when an entry for its peer is given up. -/
theorem mem_givenUp_of_forgotten
    {entries : List Pending} {d : δ} {r : Router}
    {dest : PublicKey}
    (hHere : r.hasRoute dest = true)
    (hGone :
      (retryPending D entries (d, r)).2.2.hasRoute dest =
        false) :
    ∃ entry ∈ entries,
      entry.dest = dest ∧
        GivenUp r.now r.config entry := by
  induction entries generalizing d r with
  | nil =>
      rw [retryPending, hHere] at hGone
      contradiction
  | cons entry rest ih =>
      have hMore :
          (∃ other ∈ rest,
            other.dest = dest ∧
              GivenUp r.now r.config other) →
            ∃ other ∈ entry :: rest,
              other.dest = dest ∧
                GivenUp r.now r.config other := by
        rintro ⟨other, hOther, hLost⟩
        exact ⟨other, List.mem_cons_of_mem _ hOther, hLost⟩
      unfold retryPending at hGone
      by_cases hEarly : r.now < entry.deadline
      · rw [if_pos hEarly] at hGone
        exact hMore (ih hHere hGone)
      · rw [if_neg hEarly] at hGone
        by_cases hLast :
            r.config.maxAttempts ≤ entry.attempts
        · rw [if_pos hLast] at hGone
          by_cases hDest : entry.dest = dest
          · refine ⟨entry, List.mem_cons_self, hDest, ?_⟩
            rw [GivenUp, entryDeed, if_neg hEarly,
              if_pos hLast]
          · apply hMore
            apply ih
              (r := (r.forgetRoute entry.dest).note
                (.failed entry.id))
            · exact hasRoute_forgetRoute hDest hHere
            · exact hGone
        · rw [if_neg hLast] at hGone
          apply hMore
          apply ih (r := r.handToRadio entry.frame .normal)
          · exact hHere
          · exact hGone

omit [CryptoCore] in
theorem mem_givenUp_of_tick
    {s : δ × Router} {now : Millis} {dest : PublicKey}
    (hHere : s.2.hasRoute dest = true)
    (hGone : (tick D now s).2.hasRoute dest = false) :
    ∃ entry ∈ s.2.pending,
      entry.dest = dest ∧
        GivenUp now s.2.config entry := by
  have hDrained :
      (drainQueue { s.2 with now := now }).hasRoute dest =
        true := by
    rw [drainQueue_eq]
    exact hHere
  have hLost := mem_givenUp_of_forgotten hDrained hGone
  rw [drainQueue_eq] at hLost
  exact hLost

------------------------------------------------------------
-- An Entry Through A Run
------------------------------------------------------------

/- A kept entry, and when its frame went out last. -/
structure Attempt where
  entry : Pending
  since : Millis

/- What an event makes of it, for as long as it is kept. -/
def Attempt.after
    (config : RouterConfig)
    (a : Attempt) :
    Event δ → Option Attempt
| .frame _ _ => some a
| .tick now =>
    (entryNext now config a.entry).map fun next =>
      { entry := next
        since :=
          if now < a.entry.deadline then a.since else now }
| .above _ => some a

/- The entry is in the table, event after event. -/
inductive Awaits
    (D : Delegate δ)
    (s : δ × Router)
    (a : Attempt) :
    List (Event δ) → δ × Router → Attempt → Prop
| start
    (hKept : a.entry ∈ s.2.pending) :
    Awaits D s a [] s a
| step
    {es : List (Event δ)} {s' : δ × Router}
    {a' a'' : Attempt} {e : Event δ}
    (hAwaits : Awaits D s a es s' a')
    (hAfter : a'.after s'.2.config e = some a'')
    (hKept : a''.entry ∈ (apply D s' e).2.pending) :
    Awaits D s a (es ++ [e]) (apply D s' e) a''

/- The time that is to be given over a route of `n` hops. -/
def directWait (config : RouterConfig) (n : Nat) : Nat :=
  config.directAckBase.toNat +
    n * config.directAckPerHop.toNat

/-
  A tick that sends the frame again, or gives the entry up,
  or takes the peer's route for no other entry's sake, comes
  no sooner than `wait` after the frame went out last.
-/
structure NotTooSoon
    (D : Delegate δ)
    (wait : Nat)
    (s : δ × Router)
    (a : Attempt)
    (now : Millis) :
    Prop where
  deed :
    entryDeed now s.2.config a.entry ≠ none →
      a.since.toNat + wait ≤ now.toNat
  route :
    s.2.hasRoute a.entry.dest = true →
      (tick D now s).2.hasRoute a.entry.dest = false →
        (∀ other ∈ s.2.pending,
          other.dest = a.entry.dest →
            GivenUp now s.2.config other →
              other = a.entry) →
          a.since.toNat + wait ≤ now.toNat

/-
  Whatever happens, every time the frame goes out the entry
  is waited for, if the clock lasts that long.
-/
def GivesTime
    (D : Delegate δ)
    (wait : Nat)
    (s : δ × Router)
    (a : Attempt) :
    Prop :=
  ∀ es s' a',
    Awaits D s a es s' a' →
      a'.since.toNat + wait < 2 ^ 64 →
        ∀ now, NotTooSoon D wait s' a' now

/- The entry that a send over a known route is kept as. -/
def directEntry
    (r : Router)
    (dest : PublicKey)
    (type : PayloadType)
    (payload wire : Bytes)
    (route : Route) :
    Pending :=
  { id := r.nextId
    expectedAck := expectedAck payload r.store.selfPk
    deadline := r.ackDeadline (some route)
    attempts := 1
    viaFlood := false
    dest := dest
    frame := buildFrame type wire (some route) }

/- Its frame goes out as it is kept. -/
def firstAttempt
    (r : Router)
    (dest : PublicKey)
    (type : PayloadType)
    (payload wire : Bytes)
    (route : Route) :
    Attempt :=
  { entry := r.directEntry dest type payload wire route
    since := r.now }

theorem sendDirect_pending
    {r : Router} {dest : PublicKey} {payload wire : Bytes}
    {route : Route}
    (hSealed : r.sealFor dest payload = some wire)
    (hRoute : r.findRoute dest = some route)
    (hRoom : r.pending.length < r.config.maxPending)
    (type : PayloadType) :
    (r.sendDirect dest type payload true).2.pending =
      r.pending ++
        [r.directEntry dest type payload wire route] := by
  have hSelf :
      ((r.issueId dest type payload true).2.secretFor
          dest).2.store.selfHash =
        r.store.selfHash :=
    (secretFor_does r dest).selfHash
  have hPk :
      ((r.issueId dest type payload true).2.secretFor
          dest).2.store.selfPk =
        r.store.selfPk :=
    (secretFor_does r dest).selfPk
  have hSame :
      ((r.issueId dest type payload true).2.secretFor
          dest).1 =
        (r.secretFor dest).1 :=
    rfl
  have hFound :
      ((r.issueId dest type payload true).2.secretFor
          dest).2.findRoute dest =
        some route :=
    hRoute
  rw [sealFor] at hSealed
  simp only [sendDirect, hSelf, hPk, hSame, hSealed, hFound]
  rw [(transmitNow_calm _ _ _).pending, keepPending,
    if_pos ⟨rfl, hRoom⟩]
  rfl

theorem sendDirect_config
    (r : Router)
    (dest : PublicKey)
    (type : PayloadType)
    (payload : Bytes)
    (wantAck : Bool) :
    (r.sendDirect dest type payload wantAck).2.config =
      r.config := by
  rcases sendDirect_does r dest type payload wantAck with
    ⟨acts, hDoes, -⟩
  exact hDoes.config

------------------------------------------------------------
-- The First Time, And Again
------------------------------------------------------------

/-
  What is kept of an attempt: its deadline leaves the hops
  their time where it is not a retry, or where the hops ask
  for none.
-/
structure Timed
    (config : RouterConfig)
    (wait : Nat)
    (r : Router)
    (a : Attempt) :
    Prop where
  config_eq : r.config = config
  direct : a.entry.viaFlood = false
  attempts : 1 ≤ a.entry.attempts.toNat
  deadline :
    a.since.toNat + wait < 2 ^ 64 →
      a.entry.deadline.toNat = a.since.toNat + wait

/- Waiting for the base alone is waiting long enough. -/
def BaseSuffices (config : RouterConfig) (n : Nat) : Prop :=
  n * config.directAckPerHop.toNat = 0 ∨
    config.maxAttempts ≤ 1

theorem Timed.step
    {config : RouterConfig} {n : Nat}
    (hSuffices : BaseSuffices config n)
    {s : δ × Router} {a a' : Attempt} {e : Event δ}
    (hTimed : Timed config (directWait config n) s.2 a)
    (hAfter : a.after s.2.config e = some a') :
    Timed config (directWait config n)
      (apply D s e).2 a' := by
  have hConfig : (apply D s e).2.config = config := by
    rcases apply_does (D := D) e s with ⟨acts, hDoes⟩
    rw [hDoes.config]
    exact hTimed.config_eq
  cases e with
  | frame frame rx =>
      rw [← Option.some.inj hAfter]
      exact { hTimed with config_eq := hConfig }
  | above task =>
      rw [← Option.some.inj hAfter]
      exact { hTimed with config_eq := hConfig }
  | tick now =>
      rw [Attempt.after, hTimed.config_eq] at hAfter
      rcases Option.map_eq_some_iff.mp hAfter with
        ⟨next, hNext, rfl⟩
      unfold entryNext at hNext
      by_cases hEarly : now < a.entry.deadline
      · rw [if_pos hEarly] at hNext
        simp only [if_pos hEarly]
        rw [← Option.some.inj hNext]
        exact { hTimed with config_eq := hConfig }
      · rw [if_neg hEarly] at hNext
        simp only [if_neg hEarly]
        by_cases hLast : config.maxAttempts ≤ a.entry.attempts
        · rw [if_pos hLast] at hNext
          contradiction
        · rw [if_neg hLast, hTimed.direct,
            Option.some.injEq] at hNext
          have hMore :
              a.entry.attempts.toNat <
                config.maxAttempts.toNat :=
            UInt8.lt_iff_toNat_lt.mp (UInt8.not_le.mp hLast)
          have hLimit := config.maxAttempts.toNat_lt
          -- an entry that is sent again was sent before
          have hNoHops :
              n * config.directAckPerHop.toNat = 0 := by
            rcases hSuffices with hNone | hOnce
            · exact hNone
            · have hFew := UInt8.le_iff_toNat_le.mp hOnce
              have hOne := hTimed.attempts
              have hIs : (1 : UInt8).toNat = 1 := rfl
              omega
          rw [← hNext]
          refine
            { config_eq := hConfig
              direct := rfl
              attempts := ?_
              deadline := ?_ }
          · simp only [UInt8.toNat_add]
            have hOne := hTimed.attempts
            have hIs : (1 : UInt8).toNat = 1 := rfl
            omega
          · intro hTime
            rw [directWait, hNoHops, Nat.add_zero] at hTime ⊢
            simp only [Bool.false_eq_true, if_false,
              UInt64.toNat_add]
            exact Nat.mod_eq_of_lt hTime

omit [CryptoCore] in
/- An attempt that keeps its time is not cut short. -/
theorem Timed.notTooSoon
    {config : RouterConfig} {wait : Nat}
    {s : δ × Router} {a : Attempt}
    (hTimed : Timed config wait s.2 a)
    (hTime : a.since.toNat + wait < 2 ^ 64)
    (now : Millis) :
    NotTooSoon D wait s a now := by
  have hDeed :
      entryDeed now s.2.config a.entry ≠ none →
        a.since.toNat + wait ≤ now.toNat := by
    intro hDone
    have hDue : a.entry.deadline ≤ now := by
      by_contra hEarly
      apply hDone
      rw [entryDeed, if_pos (UInt64.not_le.mp hEarly)]
    rw [← hTimed.deadline hTime]
    exact UInt64.le_iff_toNat_le.mp hDue
  refine ⟨hDeed, ?_⟩
  intro hHere hGone hOnly
  rcases mem_givenUp_of_tick hHere hGone with
    ⟨other, hOther, hDest, hLost⟩
  rw [hOnly other hOther hDest hLost] at hLost
  apply hDeed
  rw [hLost]
  exact Option.some_ne_none _

theorem Awaits.timed
    {config : RouterConfig} {n : Nat}
    (hSuffices : BaseSuffices config n)
    {s s' : δ × Router} {a a' : Attempt}
    {es : List (Event δ)}
    (hAwaits : Awaits D s a es s' a')
    (hTimed : Timed config (directWait config n) s.2 a) :
    Timed config (directWait config n) s'.2 a' := by
  induction hAwaits with
  | start _ => exact hTimed
  | step _ hAfter _ ih => exact ih.step hSuffices hAfter

omit [CryptoCore] in
/- Where the sum fits the clock it is the sum. -/
theorem toNat_ackDeadline
    {r : Router} {route : Route}
    (hTime :
      r.now.toNat +
          directWait r.config route.path.length <
        2 ^ 64) :
    (r.ackDeadline (some route)).toNat =
      r.now.toNat +
        directWait r.config route.path.length := by
  rw [directWait] at hTime ⊢
  have hHops :
      (r.config.directAckPerHop *
          UInt64.ofNat route.path.length).toNat =
        route.path.length *
          r.config.directAckPerHop.toNat := by
    rw [UInt64.toNat_mul, UInt64.toNat_ofNat',
      Nat.mul_mod_mod, Nat.mul_comm]
    exact Nat.mod_eq_of_lt (by omega)
  have hWait :
      (r.config.directAckBase +
          r.config.directAckPerHop *
            UInt64.ofNat route.path.length).toNat =
        r.config.directAckBase.toNat +
          route.path.length *
            r.config.directAckPerHop.toNat := by
    rw [UInt64.toNat_add, hHops]
    exact Nat.mod_eq_of_lt (by omega)
  rw [ackDeadline, UInt64.toNat_add, hWait]
  exact Nat.mod_eq_of_lt hTime

/- The first deadline counts the hops. -/
theorem timed_firstAttempt
    {r r' : Router}
    (hConfig : r'.config = r.config)
    (dest : PublicKey)
    (type : PayloadType)
    (payload wire : Bytes)
    (route : Route) :
    Timed r.config (directWait r.config route.path.length) r'
      (r.firstAttempt dest type payload wire route) where
  config_eq := hConfig
  direct := rfl
  attempts := Nat.le_refl 1
  deadline := toNat_ackDeadline

------------------------------------------------------------
-- A Retry Is Cut Short
------------------------------------------------------------

/- The entry as the first retry leaves it. -/
def secondAttempt
    (config : RouterConfig)
    (a : Attempt) :
    Attempt :=
  { entry :=
      { a.entry with
        attempts := a.entry.attempts + 1
        deadline := a.entry.deadline + config.directAckBase }
    since := a.entry.deadline }

/- The frame goes out again as soon as it may. -/
theorem awaits_secondAttempt
    {r : Router} {s : δ × Router}
    (hConfig : s.2.config = r.config)
    {dest : PublicKey} {type : PayloadType}
    {payload wire : Bytes} {route : Route}
    (hKept :
      r.directEntry dest type payload wire route ∈
        s.2.pending)
    (hMore : 1 < r.config.maxAttempts) :
    Awaits D s
      (r.firstAttempt dest type payload wire route)
      [.tick (r.ackDeadline (some route))]
      (apply D s (.tick (r.ackDeadline (some route))))
      (secondAttempt r.config
        (r.firstAttempt dest type payload wire route)) := by
  have hNext :
      entryNext (r.ackDeadline (some route)) s.2.config
          (r.directEntry dest type payload wire route) =
        some
          (secondAttempt r.config
            (r.firstAttempt dest type payload wire
              route)).entry := by
    have hLeft : ¬ r.config.maxAttempts ≤ 1 :=
      UInt8.not_le.mpr hMore
    rw [hConfig, entryNext, directEntry,
      if_neg (UInt64.lt_irrefl _), if_neg hLeft]
    rfl
  have hAfter :
      (r.firstAttempt dest type payload wire route).after
          s.2.config
          (.tick (r.ackDeadline (some route)) : Event δ) =
        some
          (secondAttempt r.config
            (r.firstAttempt dest type payload wire
              route)) := by
    rw [Attempt.after, firstAttempt, hNext, Option.map_some,
      directEntry, if_neg (UInt64.lt_irrefl _)]
    rfl
  have hStep :=
    Awaits.step (D := D) (.start hKept) hAfter (by
      rw [apply, tick_pending]
      exact List.mem_filterMap.mpr ⟨_, hKept, hNext⟩)
  exact hStep

/- And then the entry is due the base later. -/
theorem not_givesTime_of_retry
    {r : Router} {s : δ × Router}
    (hConfig : s.2.config = r.config)
    {dest : PublicKey} {type : PayloadType}
    {payload wire : Bytes} {route : Route}
    (hKept :
      r.directEntry dest type payload wire route ∈
        s.2.pending)
    (hHops :
      0 < route.path.length *
        r.config.directAckPerHop.toNat)
    (hMore : 1 < r.config.maxAttempts)
    (hTime :
      r.now.toNat +
          2 * directWait r.config route.path.length <
        2 ^ 64) :
    ¬ GivesTime D
      (directWait r.config route.path.length) s
      (r.firstAttempt dest type payload wire route) := by
  intro hGives
  have hWait :
      r.config.directAckBase.toNat <
        directWait r.config route.path.length :=
    Nat.lt_add_of_pos_right hHops
  have hDeadline :
      (r.ackDeadline (some route)).toNat =
        r.now.toNat +
          directWait r.config route.path.length :=
    toNat_ackDeadline (by omega)
  have hAgain := awaits_secondAttempt (D := D) hConfig hKept
    hMore
  have hSoon :=
    (hGives _ _ _ hAgain (by
      change (r.ackDeadline (some route)).toNat + _ < _
      omega)
      (r.ackDeadline (some route) +
        r.config.directAckBase)).deed
  have hLate :=
    hSoon (entryDeed_of_due (UInt64.lt_irrefl _))
  change
    (r.ackDeadline (some route)).toNat + _ ≤
      (r.ackDeadline (some route) +
        r.config.directAckBase).toNat at hLate
  rw [UInt64.toNat_add, Nat.mod_eq_of_lt (by omega)] at hLate
  omega

------------------------------------------------------------
-- Every Acknowledged Send
------------------------------------------------------------

/- What else one call does drops nothing that is kept. -/
structure KeepsAll (r r' : Router) : Prop where
  config : r'.config = r.config
  pending : r.pending <+: r'.pending

omit [CryptoCore] in
theorem KeepsAll.refl (r : Router) : r.KeepsAll r :=
  ⟨rfl, List.prefix_rfl⟩

omit [CryptoCore] in
theorem KeepsAll.trans
    {r r' r'' : Router}
    (hFirst : r.KeepsAll r')
    (hThen : r'.KeepsAll r'') :
    r.KeepsAll r'' :=
  ⟨hThen.config.trans hFirst.config,
    hFirst.pending.trans hThen.pending⟩

theorem Calm.keepsAll
    {r r' : Router}
    (hCalm : r.Calm r') :
    r.KeepsAll r' :=
  ⟨hCalm.config, hCalm.pending ▸ List.prefix_rfl⟩

theorem sender_keepsAll (op : SenderOp) (r : Router) :
    r.KeepsAll (sender op r).2 := by
  cases op with
  | sendDirect dest type payload wantAck =>
      have hAsked :
          r.KeepsAll
            ((r.issueId dest type payload
              wantAck).2.secretFor dest).2 :=
        ⟨rfl, List.prefix_rfl⟩
      simp only [sender, sendDirect]
      split
      · exact hAsked
      · refine (hAsked.trans ?_).trans
          (transmitNow_calm _ _ _).keepsAll
        unfold keepPending
        split
        · exact ⟨rfl, List.prefix_append _ _⟩
        · exact .refl _
  | sendAck dest value extra =>
      exact (transmitNow_calm r _ _).keepsAll
  | sendFlood type payload =>
      exact (transmitNow_calm r _ _).keepsAll
  | randomBytes n => exact ⟨rfl, List.prefix_rfl⟩
  | store => exact .refl r

theorem run_keepsAll
    {α : Type}
    (task : SenderM α)
    (r : Router) :
    r.KeepsAll (task.run sender r).2 :=
  Program.run_invariant (I := fun r' => r.KeepsAll r')
    (fun op _ hKeeps => hKeeps.trans (sender_keepsAll op _))
    task (.refl r)

/- The end of a callback, and of the frame that called. -/
theorem rest_keepsAll
    (rest : SenderM δ)
    (type : PayloadType)
    (peer : PublicKey)
    (plain : Bytes)
    (p : Packet)
    (rx : RxMeta)
    (r : Router) :
    r.KeepsAll
      (considerForwarding D p rx
        (acknowledge D type peer plain
          (rest.run sender r))).2 := by
  refine ((run_keepsAll rest r).trans ?_).trans
    (considerForwarding_calm p rx _).keepsAll
  unfold acknowledge
  split
  · exact (transmitNow_calm _ _ _).keepsAll
  · exact .refl _

/-
  For a send that is kept over a known route, in whatever
  call it is asked for and whatever comes after it: every
  time its frame goes out the hops are given their time if
  the base is all the time they need or there is no retry.
  And only then, where the clock lasts for a retry.
-/
theorem attempts_are_given_time_iff
    {r : Router} {dest : PublicKey} {payload wire : Bytes}
    {route : Route}
    (hSealed : r.sealFor dest payload = some wire)
    (hRoute : r.findRoute dest = some route)
    (hRoom : r.pending.length < r.config.maxPending)
    (type : PayloadType)
    {s : δ × Router}
    (hRest :
      (r.sendDirect dest type payload true).2.KeepsAll s.2) :
    (BaseSuffices r.config route.path.length →
        GivesTime D
          (directWait r.config route.path.length) s
          (r.firstAttempt dest type payload wire route)) ∧
      (r.now.toNat +
            2 * directWait r.config route.path.length <
          2 ^ 64 →
        GivesTime D
            (directWait r.config route.path.length) s
            (r.firstAttempt dest type payload wire route) →
          BaseSuffices r.config route.path.length) := by
  have hConfig : s.2.config = r.config :=
    hRest.config.trans (sendDirect_config r _ _ _ _)
  have hKept :
      r.directEntry dest type payload wire route ∈
        s.2.pending := by
    apply hRest.pending.subset
    rw [sendDirect_pending hSealed hRoute hRoom]
    exact List.mem_append_right _ List.mem_cons_self
  constructor
  · intro hSuffices es s' a' hAwaits hTime now
    have hTimed := hAwaits.timed hSuffices
      (timed_firstAttempt hConfig dest type payload wire
        route)
    exact hTimed.notTooSoon hTime now
  · intro hTime hGives
    by_contra hShort
    rw [BaseSuffices, not_or, UInt8.not_le] at hShort
    exact not_givesTime_of_retry hConfig hKept
      (Nat.pos_of_ne_zero hShort.1) hShort.2 hTime hGives

end Deadlines

section Example

open Sample

/- The peer 9 is two hops away. -/
def twoHopsAway (config : RouterConfig) : Unit × Router :=
  onFrame .carrier (floodedLoginFrame 1 2 [11, 12]) {}
    ((), ofByte 2 config)

/- What the node 2 sends it, sealed. -/
def sealedText (config : RouterConfig) : Bytes :=
  ((twoHopsAway config).2.sealFor (Vector.replicate _ 9)
    [1, 2, 3]).getD []

def wayBack : Route :=
  { dest := Vector.replicate _ 9, path := [12, 11] }

/- The router once the text has been sent. -/
def afterText (config : RouterConfig) : Router :=
  ((twoHopsAway config).2.sendDirect (Vector.replicate _ 9)
    .txtMsg [1, 2, 3] true).2

def textAttempt (config : RouterConfig) : Attempt :=
  (twoHopsAway config).2.firstAttempt (Vector.replicate _ 9)
    .txtMsg [1, 2, 3] (sealedText config) wayBack

theorem afterText_config (config : RouterConfig) :
    (afterText config).config =
      (twoHopsAway config).2.config :=
  sendDirect_config (twoHopsAway config).2
    (Vector.replicate _ 9) .txtMsg [1, 2, 3] true

theorem afterText_keepsAll (config : RouterConfig) :
    ((twoHopsAway config).2.sendDirect (Vector.replicate _ 9)
        .txtMsg [1, 2, 3] true).2.KeepsAll
      (afterText config) :=
  .refl (afterText config)

/- What a tick does when it sends the text again. -/
def textAgain : Deed :=
  .again 1 (textAttempt {}).entry.frame

/-
  A text over two hops is waited for for 8000 ms at first,
  and for 4000 ms after it went out again.
-/
theorem text_is_repeated_too_soon :
    directWait (twoHopsAway {}).2.config
        wayBack.path.length =
      8000 ∧
      textAgain ∈
        deedsAt .carrier ((), afterText {}) (.tick 8000) ∧
      textAgain ∈
        deedsAt .carrier
          (apply .carrier ((), afterText {}) (.tick 8000))
          (.tick 12000) ∧
      ¬ GivesTime .carrier
        (directWait (twoHopsAway {}).2.config
          wayBack.path.length)
        ((), afterText {}) (textAttempt {}) := by
  refine ⟨by decide +kernel, by decide +kernel,
    by decide +kernel, ?_⟩
  have hKept :
      (textAttempt {}).entry ∈ (afterText {}).pending := by
    decide +kernel
  exact not_givesTime_of_retry
    (s := ((), afterText {})) (afterText_config {})
    hKept (by decide +kernel) (by decide +kernel)
    (by decide +kernel)

/- With one attempt there is no retry. -/
theorem single_text_is_given_time :
    GivesTime .carrier
      (directWait (twoHopsAway { maxAttempts := 1 }).2.config
        wayBack.path.length)
      ((), afterText { maxAttempts := 1 })
      (textAttempt { maxAttempts := 1 }) := by
  have hSealed :
      (twoHopsAway { maxAttempts := 1 }).2.sealFor
          (Vector.replicate _ 9) [1, 2, 3] =
        some (sealedText { maxAttempts := 1 }) := by
    decide +kernel
  have hRoute :
      (twoHopsAway { maxAttempts := 1 }).2.findRoute
          (Vector.replicate _ 9) =
        some wayBack := by
    decide +kernel
  have hOnce :
      BaseSuffices (twoHopsAway { maxAttempts := 1 }).2.config
        wayBack.path.length :=
    .inr (by decide +kernel)
  exact
    (attempts_are_given_time_iff
      (s := ((), afterText { maxAttempts := 1 })) hSealed
      hRoute (by decide +kernel) .txtMsg
      (by dsimp only; exact afterText_keepsAll _)).1 hOnce

end Example

end Router

end MeshCore
