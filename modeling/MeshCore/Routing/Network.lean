import Mathlib.Logic.Function.Basic
import MeshCore.Routing.Forwarding

/-
  A network of routers, and how often one flood is repeated
  in it.

  A frame is in the air once a radio was given it, and from
  then on it may reach anybody who can hear that radio, at
  any time, any number of times or never.

  Key definitions include:
    * `Network.Step`
    * `IsCopyOf`
    * `queuedCopies`
    * `Router.Undisturbed`
-/

namespace MeshCore

------------------------------------------------------------
-- Networks
------------------------------------------------------------

/- The radio was given the frame. -/
def Router.OnAir (r : Router) (frame : Bytes) : Prop :=
  ∃ priority, .handed frame priority ∈ r.history

instance (r : Router) (frame : Bytes) :
    Decidable (r.OnAir frame) :=
  decidable_of_iff
    (∃ priority ∈ [Priority.high, .normal, .low],
      .handed frame priority ∈ r.history)
    ⟨fun ⟨priority, _, hMem⟩ => ⟨priority, hMem⟩,
      fun ⟨priority, hMem⟩ =>
        ⟨priority, by cases priority <;> simp, hMem⟩⟩

/- The nodes, each with a layer above and a router. -/
abbrev Network (ι δ : Type) :=
  ι → δ × Router

namespace Network

variable {ι δ : Type}

inductive Event (ι δ : Type) where
| deliver (src dst : ι) (frame : Bytes) (rx : RxMeta)
| tick (node : ι) (now : Millis)
| above (node : ι) (task : δ → SenderM δ)

namespace Event

/- Where the event happens. -/
def node : Event ι δ → ι
| deliver _ dst _ _ => dst
| tick node _ => node
| above node _ => node

/- The event as the node it happens at sees it. -/
def seen : Event ι δ → Router.Event δ
| deliver _ _ frame rx => .frame frame rx
| tick _ now => .tick now
| above _ task => .above task

/-
  What is delivered was in the air, at a node that can hear
  it, and no clock runs backwards.
-/
def Allowed
    (hears : ι → ι → Prop)
    (s : Network ι δ) :
    Event ι δ → Prop
| deliver src dst frame _ =>
    hears src dst ∧ (s src).2.OnAir frame
| tick node now => (s node).2.now ≤ now
| above _ _ => True

instance
    (hears : ι → ι → Prop)
    [DecidableRel hears]
    (s : Network ι δ)
    (e : Event ι δ) :
    Decidable (e.Allowed hears s) := by
  cases e <;> unfold Allowed <;> infer_instance

/- No clock runs backwards. -/
theorem Allowed.clock
    {hears : ι → ι → Prop}
    {s : Network ι δ} {e : Event ι δ}
    (hAllowed : e.Allowed hears s) :
    (s e.node).2.now ≤ (s e.node).2.clockOf e.seen := by
  cases e with
  | tick node now => exact hAllowed
  | deliver src dst frame rx => exact UInt64.le_refl _
  | above node task => exact UInt64.le_refl _

end Event

variable [DecidableEq ι] [CryptoCore]

/- One event at one node; the others stay as they are. -/
def next
    (D : ι → Delegate δ)
    (s : Network ι δ)
    (e : Event ι δ) :
    Network ι δ :=
  Function.update s e.node
    (Router.apply (D e.node) (s e.node) e.seen)

def Step
    (hears : ι → ι → Prop)
    (D : ι → Delegate δ)
    (s : Network ι δ)
    (e : Event ι δ)
    (s' : Network ι δ) :
    Prop :=
  e.Allowed hears s ∧ next D s e = s'

/- Every router is new. -/
def Fresh (s : Network ι δ) : Prop :=
  ∀ node, ∃ store entropy config,
    (s node).2 = Router.create store entropy config

end Network

------------------------------------------------------------
-- Copies
------------------------------------------------------------

/-
  The frame carries the packet of another one: the header
  and the payload are the same, but that a trace gathers
  readings behind its payload.
-/
def IsCopyOf (orig frame : Bytes) : Prop :=
  match parse orig, parse frame with
  | some p, some q =>
      q.header = p.header ∧
        if p.payloadType = .trace then
          p.payload <+: q.payload
        else q.payload = p.payload
  | _, _ => False

instance (orig frame : Bytes) :
    Decidable (IsCopyOf orig frame) := by
  unfold IsCopyOf
  split <;> infer_instance

/- How often the acts queue a copy to be sent on. -/
def queuedCopies (orig : Bytes) (acts : List Act) : Nat :=
  acts.countP fun
    | .queued frame => decide (IsCopyOf orig frame)
    | _ => false

/- How many other packets the acts remember. -/
def rememberedOthers
    (orig : Bytes)
    (acts : List Act) :
    Nat :=
  acts.countP fun a =>
    (Router.rememberOf a).any fun call =>
      ¬ IsCopyOf orig call.frame

/- No copy is remembered. -/
def Unheard (orig : Bytes) (acts : List Act) : Prop :=
  ∀ a ∈ acts, ∀ call,
    Router.rememberOf a = some call →
      ¬ IsCopyOf orig call.frame

/- The packet was sent from here before it was heard here. -/
def OriginatedHere (orig : Bytes) (acts : List Act) : Prop :=
  ∃ earlier time later,
    acts = earlier ++ .originated orig time :: later ∧
      Unheard orig earlier

theorem queuedCopies_append
    (orig : Bytes)
    (acts more : List Act) :
    queuedCopies orig (acts ++ more) =
      queuedCopies orig acts + queuedCopies orig more :=
  List.countP_append

theorem queuedCopies_of_delivery
    (orig : Bytes)
    {acts : List Act}
    (hActs : ∀ a ∈ acts, Router.IsDelivery a) :
    queuedCopies orig acts = 0 := by
  rw [queuedCopies, List.countP_eq_zero]
  intro a ha
  cases a with
  | queued frame => exact absurd (hActs _ ha) id
  | _ => simp

theorem isCopyOf_self
    {orig frame : Bytes}
    (hCopy : IsCopyOf orig frame) :
    IsCopyOf orig orig := by
  unfold IsCopyOf at hCopy ⊢
  split at hCopy
  next p q hp hq =>
    rw [hp]
    simp
  next => contradiction

theorem Unheard.of_append
    {orig : Bytes} {acts more : List Act}
    (hUnheard : Unheard orig (acts ++ more)) :
    Unheard orig acts ∧ Unheard orig more :=
  ⟨fun a ha => hUnheard a (List.mem_append_left _ ha),
    fun a ha => hUnheard a (List.mem_append_right _ ha)⟩

/- Where acts are added, one part has the origination. -/
theorem OriginatedHere.of_append
    {orig : Bytes} {acts more : List Act}
    (hHere : OriginatedHere orig (acts ++ more)) :
    OriginatedHere orig acts ∨
      Unheard orig acts ∧ OriginatedHere orig more := by
  rcases hHere with ⟨earlier, time, later, hSplit, hUnheard⟩
  rcases List.append_eq_append_iff.mp hSplit with
    ⟨between, rfl, hMore⟩ | ⟨between, rfl, hLater⟩
  · rcases hUnheard.of_append with ⟨hActs, hBetween⟩
    exact .inr ⟨hActs, between, time, later, hMore,
      hBetween⟩
  · cases between with
    | nil =>
        rw [List.append_nil]
        exact .inr ⟨hUnheard, [], time, later, hLater.symm,
          by simp [Unheard]⟩
    | cons a between =>
        rw [List.cons_append, List.cons.injEq] at hLater
        rw [← hLater.1]
        exact .inl ⟨earlier, time, between, rfl, hUnheard⟩

/- Whoever sent a packet remembers it. -/
theorem OriginatedHere.not_unheard
    {orig : Bytes} {acts : List Act}
    (hHere : OriginatedHere orig acts)
    (hCopy : IsCopyOf orig orig) :
    ¬ Unheard orig acts := by
  rcases hHere with ⟨earlier, time, later, rfl, -⟩
  intro hUnheard
  exact hUnheard (.originated orig time) (by simp) _ rfl
    hCopy

/- What is heard first was not sent from here first. -/
theorem not_originatedHere_of_received
    {orig frame : Bytes} {time : Millis} {rest : List Act}
    (hCopy : IsCopyOf orig frame) :
    ¬ OriginatedHere orig (.received frame time :: rest) := by
  rintro ⟨earlier, sent, later, hSplit, hUnheard⟩
  cases earlier with
  | nil => simp at hSplit
  | cons a earlier =>
      rw [List.cons_append, List.cons.injEq] at hSplit
      exact hUnheard a (by simp) _ (by rw [← hSplit.1]; rfl)
        hCopy

------------------------------------------------------------
-- What The Cache Still Holds
------------------------------------------------------------

namespace Router

variable [CryptoCore]

/- Copies share the hash, unless they gather readings. -/
theorem shortHashOf_of_isCopyOf
    {orig frame : Bytes}
    (hCopy : IsCopyOf orig frame)
    (hType :
      ∀ p, parse orig = some p → p.payloadType ≠ .trace) :
    shortHashOf frame = shortHashOf orig := by
  unfold IsCopyOf at hCopy
  split at hCopy
  next p q hp hq =>
    rw [if_neg (hType p hp)] at hCopy
    rcases hCopy with ⟨hHeader, hPayload⟩
    simp [shortHashOf, packetHash, hp, hq, hHeader,
      hPayload]
  next => contradiction

/-
  A hash entered since some moment is found, if the entries
  of it are all still fresh and fewer entries of other
  hashes than there are slots came after that moment.
-/
theorem alreadySeen_of_entered
    {r : Router}
    {old new : List Seen}
    (hSeen :
      r.seen =
        .ofWrites (slotCount r.config) {} (old ++ new))
    {frame : Bytes}
    (hEntered :
      ∃ entry ∈ new, entry.shortHash = shortHashOf frame)
    (hFew :
      new.countP
          (fun entry => entry.shortHash ≠ shortHashOf frame) <
        slotCount r.config)
    (hNew :
      ∀ entry ∈ new,
        entry.shortHash = shortHashOf frame →
          entry.stamp ≠ 0 ∧ entry.Fresh r.config r.now)
    (hOld :
      ∀ entry ∈
          (RingBuffer.ofWrites (slotCount r.config) {} old).slots,
        entry.Holds (shortHashOf frame) →
          entry.Fresh r.config r.now) :
    r.alreadySeen frame = true := by
  have hPos := slotCount_pos r.config
  rw [alreadySeen_iff hSeen]
  -- the last entry of the hash has not been overwritten
  have hSome :
      ∃ i, ∃ entry,
        RingBuffer.Recent (slotCount r.config) (old ++ new) i ∧
        (old ++ new)[i]? = some entry ∧
        entry.Holds (shortHashOf frame) := by
    rcases RingBuffer.exists_last hEntered with
      ⟨before, last, after, hSplit, hLast, hAfter⟩
    have hAfterFew :
        after.length < slotCount r.config := by
      refine Nat.lt_of_le_of_lt ?_ hFew
      rw [hSplit, List.countP_append, List.countP_cons]
      have hAll :
          after.countP
              (fun entry =>
                entry.shortHash ≠ shortHashOf frame) =
            after.length := by
        rw [List.countP_eq_length]
        simpa using hAfter
      omega
    refine ⟨(old ++ before).length, last, ?_, ?_, ?_⟩
    · rw [hSplit]
      constructor <;>
        simp only [List.length_append, List.length_cons]
          at hAfterFew ⊢ <;> omega
    · rw [hSplit, ← List.append_assoc,
        List.getElem?_append_right (Nat.le_refl _)]
      simp
    · refine ⟨(hNew last ?_ hLast).1, hLast⟩
      rw [hSplit]
      simp
  rcases RingBuffer.exists_lowest (slotCount r.config) hSome with
    ⟨i, ⟨entry, hRecent, hEntry, hHolds⟩, hLeast⟩
  refine ⟨i, entry, hRecent, hEntry, hHolds, ?_, ?_⟩
  · by_cases hBefore : i < old.length
    · apply hOld entry ?_ hHolds
      rcases hRecent with ⟨-, hRecent⟩
      rw [List.length_append] at hRecent
      have hSlot := RingBuffer.slot_of_recent hPos ({} : Seen) old
        hBefore (by omega)
      rw [List.getElem?_append_left hBefore,
        List.getElem?_eq_getElem hBefore,
        Option.some.injEq] at hEntry
      rw [hEntry] at hSlot
      exact List.mem_of_getElem? hSlot
    · apply (hNew entry ?_ hHolds.2).2
      rw [List.getElem?_append_right (by omega)] at hEntry
      exact List.mem_of_getElem? hEntry
  · intro k other hk hOther hOtherHolds
    exact hLeast k ⟨other, hk, hOther, hOtherHolds⟩

------------------------------------------------------------
-- One Node
------------------------------------------------------------

/-
  As long as the flood lives: the moment is within the
  lifetime of what was remembered since `r₀`, and fewer
  other packets were remembered since than there are slots.
-/
structure Undisturbed
    (orig : Bytes)
    (r₀ r : Router) :
    Prop where
  window :
    r.config.seenTtl = 0 ∨
      r.now - r₀.now < r.config.seenTtl
  others :
    rememberedOthers orig (r₀.actsSince r) <
      r.config.seenSlots

instance (orig : Bytes) (r₀ r : Router) :
    Decidable (Undisturbed orig r₀ r) :=
  decidable_of_iff (_ ∧ _)
    ⟨fun h => ⟨h.1, h.2⟩, fun h => ⟨h.1, h.2⟩⟩

/-
  No entry of the hash from before `r₀` is expired, and the
  clock is not at the one value that leaves no stamp.
-/
structure Unambiguous
    (orig : Bytes)
    (r₀ r : Router) :
    Prop where
  fresh :
    ∀ entry ∈ r₀.seen.slots,
      entry.Holds (shortHashOf orig) →
        entry.Fresh r.config r.now
  stamped : r.now + 1 ≠ 0

instance (orig : Bytes) (r₀ r : Router) :
    Decidable (Unambiguous orig r₀ r) :=
  decidable_of_iff
    ((∀ entry ∈ r₀.seen.slots,
      (entry.stamp ≠ 0 ∧
          entry.shortHash = shortHashOf orig) →
        r.config.seenTtl = 0 ∨
          (r.now + 1) - entry.stamp < r.config.seenTtl) ∧
      r.now + 1 ≠ 0)
    ⟨fun h => ⟨h.1, h.2⟩, fun h => ⟨h.1, h.2⟩⟩

/- What a node keeps to since `r₀`, for one packet. -/
structure Kept (orig : Bytes) (r₀ r : Router) : Prop where
  config : r.config = r₀.config
  history : r.history = r₀.history ++ r₀.actsSince r
  tracks : r.CacheTracks
  clock : r₀.now ≤ r.now
  times :
    ∀ a ∈ r₀.actsSince r, ∀ call,
      rememberOf a = some call →
        r₀.now ≤ call.time ∧ call.time ≤ r.now ∧
          call.Stamped
  once : queuedCopies orig (r₀.actsSince r) ≤ 1
  unheard :
    Unheard orig (r₀.actsSince r) →
      queuedCopies orig (r₀.actsSince r) = 0
  own :
    OriginatedHere orig (r₀.actsSince r) →
      queuedCopies orig (r₀.actsSince r) = 0

theorem kept_refl
    {r : Router}
    (orig : Bytes)
    (hTracks : r.CacheTracks) :
    Kept orig r r := by
  have hNone : r.actsSince r = [] := by simp [actsSince]
  refine ⟨rfl, by simp [hNone], hTracks, ?_, ?_, ?_, ?_, ?_⟩
  · exact UInt64.le_refl _
  all_goals simp [hNone, queuedCopies]

/- A copy that was remembered since `r₀` stays remembered. -/
theorem Kept.alreadySeen
    {orig : Bytes} {r₀ r : Router}
    (hKept : Kept orig r₀ r)
    (hTracks : r₀.CacheTracks)
    (hType :
      ∀ p, parse orig = some p → p.payloadType ≠ .trace)
    (hQuiet : Undisturbed orig r₀ r)
    (hClear : Unambiguous orig r₀ r)
    (hHeard : ¬ Unheard orig (r₀.actsSince r))
    {frame : Bytes}
    (hHash : shortHashOf frame = shortHashOf orig) :
    r.alreadySeen frame = true := by
  have hSeen := hKept.tracks
  rw [CacheTracks, hKept.history,
    List.filterMap_append] at hSeen
  refine alreadySeen_of_entered hSeen ?_ ?_ ?_ ?_
  · simp only [Unheard, not_forall, not_not] at hHeard
    rcases hHeard with ⟨a, ha, call, hCall, hCopy⟩
    refine ⟨call.entry, ?_, ?_⟩
    · rw [List.mem_filterMap]
      exact ⟨a, ha, by simp [entryOf, hCall]⟩
    · rw [hHash]
      exact shortHashOf_of_isCopyOf hCopy hType
  · -- whatever has another hash is another packet
    have hOthers := hQuiet.others
    have hSlots : r.config.seenSlots ≤ slotCount r.config := by
      unfold slotCount
      split <;> omega
    refine Nat.lt_of_le_of_lt ?_
      (Nat.lt_of_lt_of_le hOthers hSlots)
    rw [List.countP_filterMap, rememberedOthers]
    apply List.countP_mono_left
    intro a _ hOther
    cases hCall : rememberOf a with
    | none => simp [entryOf, hCall] at hOther
    | some call =>
        simp only [entryOf, hCall, Option.map_some,
          Option.getD_some, decide_eq_true_eq] at hOther
        simp only [Option.any_some, decide_eq_true_eq]
        intro hCopy
        rw [hHash] at hOther
        exact hOther (shortHashOf_of_isCopyOf hCopy hType)
  · intro entry hEntry hEntryHash
    rw [List.mem_filterMap] at hEntry
    rcases hEntry with ⟨a, ha, hOf⟩
    simp only [entryOf, Option.map_eq_some_iff] at hOf
    rcases hOf with ⟨call, hCall, rfl⟩
    rcases hKept.times a ha call hCall with
      ⟨hAfter, hBefore, hStamped⟩
    refine ⟨hStamped, ?_⟩
    rw [call.entry_fresh_iff]
    rcases hQuiet.window with hForever | hWindow
    · exact .inl hForever
    · right
      grind
  · intro entry hEntry hHolds
    rw [hKept.config, ← hTracks] at hEntry
    exact hClear.fresh entry hEntry (hHash ▸ hHolds)

/-
  What a step may add: acts that queue no copy, or the one
  copy of a frame that is heard here for the first time.
-/
theorem Kept.extend
    {orig : Bytes} {r₀ r r' : Router} {now : Millis}
    {acts : List Act}
    (hKept : Kept orig r₀ r)
    (hClock : r.now ≤ now)
    (hDoes : ({ r with now := now } : Router).Does acts r')
    (hStamped :
      ∀ a ∈ acts, ∀ call,
        rememberOf a = some call → now + 1 ≠ 0)
    (hCopies :
      queuedCopies orig acts = 0 ∨
        Unheard orig (r₀.actsSince r) ∧
          queuedCopies orig acts ≤ 1 ∧
          ∃ frame time rest,
            acts = .received frame time :: rest ∧
              IsCopyOf orig frame) :
    Kept orig r₀ r' := by
  have hHistory : r'.history =
      r₀.history ++ (r₀.actsSince r ++ acts) := by
    rw [← List.append_assoc, ← hKept.history]
    exact hDoes.history
  have hActs :
      r₀.actsSince r' = r₀.actsSince r ++ acts := by
    rw [actsSince, hHistory, List.drop_left]
  have hOnce := hKept.once
  have hNow : r.now ≤ r'.now := hDoes.now ▸ hClock
  refine
    { config := hDoes.config.trans hKept.config
      history := by rw [hActs, hHistory]
      tracks := hDoes.cacheTracks hKept.tracks
      clock := UInt64.le_trans hKept.clock hNow
      times := ?_
      once := ?_
      unheard := ?_
      own := ?_ }
  · intro a ha call hCall
    rw [hActs] at ha
    rcases List.mem_append.mp ha with ha | ha
    · rcases hKept.times a ha call hCall with
        ⟨hAfter, hBefore, hKeptStamp⟩
      exact ⟨hAfter, UInt64.le_trans hBefore hNow,
        hKeptStamp⟩
    · have hTime : call.time = now :=
        hDoes.times a ha call hCall
      have hEnd : r'.now = now := hDoes.now
      refine ⟨?_, ?_, ?_⟩
      · rw [hTime]
        exact UInt64.le_trans hKept.clock hClock
      · rw [hTime, hEnd]
        exact UInt64.le_refl _
      · rw [Remember.Stamped, hTime]
        exact hStamped a ha call hCall
  · rw [hActs, queuedCopies_append]
    rcases hCopies with hNone | ⟨hUnheard, hOne, -⟩
    · omega
    · have hOld := hKept.unheard hUnheard
      omega
  · intro hUnheard
    rw [hActs] at hUnheard
    rcases hUnheard.of_append with ⟨hOldUnheard, hNewUnheard⟩
    have hOld := hKept.unheard hOldUnheard
    rw [hActs, queuedCopies_append]
    rcases hCopies with hNone | ⟨-, -, frame, time, rest,
      rfl, hCopy⟩
    · omega
    · exact absurd hCopy
        (hNewUnheard _ List.mem_cons_self _ rfl)
  · intro hHere
    rw [hActs] at hHere
    rw [hActs, queuedCopies_append]
    rcases hCopies with hNone | ⟨hUnheard, -, frame, time,
      rest, rfl, hCopy⟩
    · rcases hHere.of_append with hOldHere | ⟨hOld, -⟩
      · have := hKept.own hOldHere
        omega
      · have := hKept.unheard hOld
        omega
    · rcases hHere.of_append with hOldHere | ⟨-, hNewHere⟩
      · exact absurd hUnheard
          (hOldHere.not_unheard (isCopyOf_self hCopy))
      · exact absurd hNewHere
          (not_originatedHere_of_received hCopy)

/- If what leaves is a copy, so is what came. -/
omit [CryptoCore] in
theorem isCopyOf_of_onward
    {orig frame out : Bytes} {p : Packet}
    {selfHash : UInt8} {snr : Int16}
    (hParse : parse frame = some p)
    (hOut : onwardFrame p selfHash snr = some out)
    (hType :
      ∀ p, parse orig = some p → p.payloadType ≠ .trace)
    (hCopy : IsCopyOf orig out) :
    IsCopyOf orig frame := by
  rcases onwardFrame_eq_some (parse_valid hParse) hOut with
    ⟨q, hLeaves, hSame, hReading⟩
  unfold IsCopyOf at hCopy ⊢
  rw [hLeaves] at hCopy
  rw [hParse]
  cases hOrig : parse orig with
  | none => simp [hOrig] at hCopy
  | some o =>
      have hOther := hType o hOrig
      simp only [hOrig, if_neg hOther] at hCopy ⊢
      rcases hCopy with ⟨hHeader, hPayload⟩
      have hKind : p.payloadType ≠ .trace := by
        rw [Packet.payloadType, ← hSame.header, hHeader]
        exact hOther
      rw [ReadingAdded, if_neg hKind] at hReading
      exact ⟨hSame.header ▸ hHeader, hReading ▸ hPayload⟩

variable {δ : Type} {D : Delegate δ}

/- The step lemma: every event at a node is kept to. -/
theorem Kept.apply
    {orig : Bytes} {r₀ : Router} {s : δ × Router}
    (hKept : Kept orig r₀ s.2)
    (hTracks : r₀.CacheTracks)
    (hType :
      ∀ p, parse orig = some p → p.payloadType ≠ .trace)
    (hQuiet : Undisturbed orig r₀ s.2)
    (hClear : Unambiguous orig r₀ s.2)
    (e : Event δ)
    (hClock : s.2.now ≤ s.2.clockOf e) :
    Kept orig r₀ (apply D s e).2 := by
  cases e with
  | tick now =>
      rcases tick_does (D := D) now s.1 s.2 with
        ⟨acts, hDoes, hRelease⟩
      refine hKept.extend hClock hDoes ?_ (.inl ?_)
      · intro a ha call hCall
        have := hRelease a ha
        cases a <;> simp_all [rememberOf, IsRelease]
      · apply queuedCopies_of_delivery
        intro a ha
        have := hRelease a ha
        cases a <;> simp_all [IsRelease, IsDelivery]
  | above task =>
      rcases run_does (task s.1) s.2 with
        ⟨acts, hDoes, hSend⟩
      refine hKept.extend hClock hDoes
        (fun _ _ _ _ => hClear.stamped) (.inl ?_)
      exact queuedCopies_of_delivery orig
        fun a ha => (hSend a ha).isDelivery
  | frame frame rx =>
      rcases onFrame_does (D := D) frame rx s.1 s.2 with
        ⟨acts, hDoes, hActs⟩
      refine hKept.extend hClock hDoes
        (fun _ _ _ _ => hClear.stamped) ?_
      rcases hActs with rfl | ⟨p, here, ahead, hParse, hNew,
        rfl, hDelivery, hAhead⟩
      · exact .inl rfl
      · have hHere := queuedCopies_of_delivery orig hDelivery
        have hCount :
            queuedCopies orig
                (.received frame s.2.now ::
                  (here ++ ahead)) =
              queuedCopies orig ahead := by
          rw [← List.singleton_append, queuedCopies_append,
            queuedCopies_append, hHere]
          simp [queuedCopies]
        rw [hCount]
        rcases hAhead with rfl | ⟨out, hOut, rfl⟩
        · exact .inl rfl
        · by_cases hCopy : IsCopyOf orig out
          · right
            have hFrame :=
              isCopyOf_of_onward hParse hOut hType hCopy
            have hHash :=
              shortHashOf_of_isCopyOf hFrame hType
            refine ⟨?_, by simp [queuedCopies, hCopy],
              frame, _, _, rfl, hFrame⟩
            -- had a copy been remembered, this one would
            -- have been dropped
            by_contra hHeard
            rw [hKept.alreadySeen hTracks hType hQuiet hClear
              hHeard hHash] at hNew
            contradiction
          · left
            simp [queuedCopies, hCopy]

end Router

------------------------------------------------------------
-- The Whole Network
------------------------------------------------------------

namespace Network

section Flood

variable {ι δ : Type} [DecidableEq ι] [CryptoCore]
variable {hears : ι → ι → Prop} {D : ι → Delegate δ}

/- In a network every cache is what its node remembers. -/
theorem cacheTracks_of_run
    {fresh s : Network ι δ}
    {ts : List (Transition (Network ι δ) (Event ι δ))}
    (hFresh : Fresh fresh)
    (hRun : Run (Step hears D) fresh ts s) :
    ∀ node, (s node).2.CacheTracks := by
  apply hRun.invariant
    (I := fun s => ∀ node, (s node).2.CacheTracks)
  · intro node
    rcases hFresh node with
      ⟨store, entropy, config, hCreate⟩
    rw [hCreate]
    exact Router.cacheTracks_create store entropy config
  · rintro s e s' hTracks ⟨-, rfl⟩ node
    by_cases hNode : node = e.node
    · subst hNode
      rw [next, Function.update_self]
      exact (hTracks e.node).apply e.seen
    · rw [next, Function.update_of_ne hNode]
      exact hTracks node

/-
  From any reachable network on: while the flood lives, and
  while no older entry of its hash is expired, every node
  queues at most one copy of a packet that is no trace, and
  the node it was sent from queues none.
-/
theorem flood_is_forwarded_once
    {fresh start s : Network ι δ}
    {past ts : List (Transition (Network ι δ) (Event ι δ))}
    {orig : Bytes}
    (hFresh : Fresh fresh)
    (hPast : Run (Step hears D) fresh past start)
    (hRun : Run (Step hears D) start ts s)
    (hQuiet :
      ∀ t ∈ ts, ∀ node,
        (start node).2.Undisturbed orig (t.before node).2)
    (hType :
      ∀ p, parse orig = some p → p.payloadType ≠ .trace)
    (hClear :
      ∀ t ∈ ts, ∀ node,
        (start node).2.Unambiguous orig (t.before node).2)
    (node : ι) :
    queuedCopies orig
        ((start node).2.actsSince (s node).2) ≤ 1 ∧
      (OriginatedHere orig
          ((start node).2.actsSince (s node).2) →
        queuedCopies orig
          ((start node).2.actsSince (s node).2) = 0) := by
  have hTracks := cacheTracks_of_run hFresh hPast
  have hKept :
      ∀ node, (start node).2.Kept orig (s node).2 := by
    apply hRun.invariant_of_forall
      (I := fun s =>
        ∀ node, (start node).2.Kept orig (s node).2)
      (C := fun t => ∀ node,
        (start node).2.Undisturbed orig (t.before node).2 ∧
          (start node).2.Unambiguous orig (t.before node).2)
    · exact fun node => Router.kept_refl orig (hTracks node)
    · exact fun t ht node =>
        ⟨hQuiet t ht node, hClear t ht node⟩
    · rintro s e s' hKept ⟨hAllowed, rfl⟩ hCond node
      by_cases hNode : node = e.node
      · subst hNode
        rw [next, Function.update_self]
        exact (hKept e.node).apply (hTracks e.node) hType
          (hCond e.node).1 (hCond e.node).2 e.seen
          hAllowed.clock
      · rw [next, Function.update_of_ne hNode]
        exact hKept node
  exact ⟨(hKept node).once, (hKept node).own⟩

end Flood

------------------------------------------------------------
-- Two Nodes
------------------------------------------------------------

section Example

open Sample

/- Two new nodes that hear each other. -/
def pair : Network Bool Unit :=
  fun node => ((), .ofByte (if node then 2 else 1))

def pairHears (a b : Bool) : Prop :=
  a ≠ b

instance : DecidableRel pairHears :=
  fun a b => inferInstanceAs (Decidable (a ≠ b))

/-
  One node floods a payload, the other hears it and repeats
  it, and the first hears the repetition.
-/
def floodThere
    (type : PayloadType)
    (payload : Bytes)
    (returned : Bytes) :
    List (Event Bool Unit) :=
  [.above false fun _ => sendFlood type payload,
    .deliver false true (Router.buildFrame type payload none)
      {},
    .tick true 1000,
    .deliver true false returned {}]

def tracePayload : Bytes :=
  [1, 2, 3, 4, 0, 0, 0, 0, 0]

/- The trace as the second node sends it on. -/
def traceReturned : Bytes :=
  (Router.onwardFrame
    { header := headerOf .trace .flood
      hashSize := 1
      hopCount := 0
      path := []
      payload := tracePayload }
    2 0).getD []

def traceThere : List (Event Bool Unit) :=
  floodThere .trace tracePayload traceReturned

/-
  A trace comes back with a reading more, is not recognised,
  and its own originator queues a copy of it.
-/
theorem trace_flood_returns_to_originator :
    let orig := Router.buildFrame .trace tracePayload none
    let ts := replay (next fun _ => .carrier) pair traceThere
    let s := traceThere.foldl (next fun _ => .carrier) pair
    Run (Step pairHears fun _ => .carrier) pair ts s ∧
      (∀ t ∈ ts, ∀ node,
        (pair node).2.Undisturbed orig (t.before node).2) ∧
      OriginatedHere orig
        ((pair false).2.actsSince (s false).2) ∧
      queuedCopies orig
          ((pair false).2.actsSince (s false).2) = 1 := by
  refine ⟨?_, by decide +kernel, ?_, by decide +kernel⟩
  · exact run_replay_of_guard _ _ _ (by decide +kernel)
  · exact ⟨[], 0,
      ((pair false).2.actsSince
        (traceThere.foldl (next fun _ => .carrier)
          pair false).2).tail,
      by decide +kernel, by simp [Unheard]⟩

/- Channel text that makes the same way is recognised. -/
def textThere : List (Event Bool Unit) :=
  floodThere .grpTxt tracePayload
    ((Router.onwardFrame
      { header := headerOf .grpTxt .flood
        hashSize := 1
        hopCount := 0
        path := []
        payload := tracePayload }
      2 0).getD [])

theorem text_flood_is_forwarded_once :
    let orig := Router.buildFrame .grpTxt tracePayload none
    let s := textThere.foldl (next fun _ => .carrier) pair
    queuedCopies orig
        ((pair true).2.actsSince (s true).2) ≤ 1 ∧
      (OriginatedHere orig
          ((pair true).2.actsSince (s true).2) →
        queuedCopies orig
          ((pair true).2.actsSince (s true).2) = 0) :=
  have hPast :
      Run (Step pairHears fun _ => .carrier) pair [] pair :=
    .start
  flood_is_forwarded_once
    (fun node => ⟨_, _, _, rfl⟩)
    hPast
    (run_replay_of_guard _ pair textThere
      (by decide +kernel))
    (by decide +kernel)
    (fun p hp => by
      have hKnown :
          parse
              (Router.buildFrame .grpTxt tracePayload none) =
            some
              { header := headerOf .grpTxt .flood
                hashSize := 1
                hopCount := 0
                path := []
                payload := tracePayload } := by
        decide +kernel
      rw [hKnown, Option.some.injEq] at hp
      subst hp
      decide)
    (by decide +kernel)
    true

end Example

end Network

end MeshCore
