import MeshCore.Routing.Network
import MeshCore.Routing.Outcomes

/-
  Whether a frame of our own is carried by us when it comes
  back. A frame that is sent enters the cache as it leaves.
  A frame that is sent again does not: how long its echo is
  recognised is counted from when it entered the cache.

  Key definitions include:
    * `Router.remembered`, `Router.AmongLast`
    * `Router.Leaves`
    * `Router.RetriesAtOnce`

  Key facts include:
    * `Router.alreadySeen_of_amongLast`
    * `Router.own_echoes_are_dropped`
-/

namespace MeshCore

namespace Router

section Echoes

variable [CryptoCore]

------------------------------------------------------------
-- The Last Frames Remembered
------------------------------------------------------------

/- The frames that entered the cache, in order. -/
def remembered (r : Router) : List Remember :=
  r.history.filterMap rememberOf

/- A frame of this packet is among the last `n`. -/
def AmongLast
    (n : Nat)
    (calls : List Remember)
    (frame : Bytes) :
    Prop :=
  ∃ before call after,
    calls = before ++ call :: after ∧
      packetHash call.frame = packetHash frame ∧
      after.length < n

theorem amongLast_iff
    (n : Nat)
    (calls : List Remember)
    (frame : Bytes) :
    AmongLast n calls frame ↔
      ∃ call ∈ calls.drop (calls.length - n),
        packetHash call.frame = packetHash frame := by
  constructor
  · rintro ⟨before, call, after, rfl, hHash, hFew⟩
    refine ⟨call, ?_, hHash⟩
    rw [List.drop_append_of_le_length (by
      simp only [List.length_append, List.length_cons]
      omega)]
    simp
  · rintro ⟨call, hCall, hHash⟩
    rcases List.append_of_mem hCall with
      ⟨before, after, hSplit⟩
    refine ⟨calls.take (calls.length - n) ++ before, call,
      after, ?_, hHash, ?_⟩
    · rw [List.append_assoc, ← hSplit, List.take_append_drop]
    · have hLength := congrArg List.length hSplit
      simp only [List.length_drop, List.length_append,
        List.length_cons] at hLength
      omega

instance
    (n : Nat)
    (calls : List Remember)
    (frame : Bytes) :
    Decidable (AmongLast n calls frame) :=
  decidable_of_iff _ (amongLast_iff n calls frame).symm

theorem AmongLast.mono
    {m n : Nat} {calls : List Remember} {frame : Bytes}
    (hLast : AmongLast m calls frame)
    (hLe : m ≤ n) :
    AmongLast n calls frame := by
  rcases hLast with
    ⟨before, call, after, hCalls, hHash, hFew⟩
  exact ⟨before, call, after, hCalls, hHash,
    Nat.lt_of_lt_of_le hFew hLe⟩

/- How many frames of other packets are remembered. -/
def othersIn (frame : Bytes) (calls : List Remember) : Nat :=
  calls.countP fun call =>
    packetHash call.frame ≠ packetHash frame

theorem entries_eq (r : Router) :
    r.history.filterMap entryOf =
      r.remembered.map Remember.entry := by
  rw [remembered, List.map_filterMap]
  rfl

/-
  A packet that was among the last `m` is still found, if
  fewer others than the slots leave came after it.
-/
theorem alreadySeen_of_amongLast
    {r : Router}
    (hTracks : r.CacheTracks)
    (hTtl : r.config.seenTtl = 0)
    (hStamped : ∀ call ∈ r.remembered, call.Stamped)
    {m : Nat} {calls more : List Remember} {frame : Bytes}
    (hRemembered : r.remembered = calls ++ more)
    (hLast : AmongLast m calls frame)
    (hFew : othersIn frame more + m ≤ slotCount r.config)
    {echo : Bytes}
    (hEcho : packetHash echo = packetHash frame) :
    r.alreadySeen echo = true := by
  have hShort : shortHashOf echo = shortHashOf frame := by
    rw [shortHashOf, shortHashOf, hEcho]
  rcases hLast with
    ⟨before, call, after, rfl, hHash, hAfter⟩
  have hCall : shortHashOf call.frame = shortHashOf frame := by
    rw [shortHashOf, shortHashOf, hHash]
  have hSeen :
      r.seen =
        .ofWrites (slotCount r.config) {}
          (before.map Remember.entry ++
            (call :: after ++ more).map Remember.entry) := by
    rw [hTracks, entries_eq, hRemembered, ← List.map_append,
      List.append_assoc]
  rw [hRemembered] at hStamped
  refine alreadySeen_of_entered hSeen ?_ ?_ ?_ ?_
  · refine ⟨call.entry, ?_, ?_⟩
    · exact List.mem_map.mpr ⟨call, by simp, rfl⟩
    · rw [hShort]
      exact hCall
  · -- another short hash is the hash of another packet
    have hMore :
        more.countP
            (fun other =>
              other.entry.shortHash ≠ shortHashOf echo) ≤
          othersIn frame more := by
      apply List.countP_mono_left
      intro other _ hOther
      simp only [decide_eq_true_eq] at hOther ⊢
      intro hSame
      apply hOther
      rw [hShort]
      exact congrArg (fun hash : Vector UInt8 _ =>
        readUint32 hash.toList 0) hSame
    have hNear :
        after.countP
            (fun other =>
              other.entry.shortHash ≠ shortHashOf echo) ≤
          after.length :=
      List.countP_le_length
    have hHere :
        ¬ call.entry.shortHash ≠ shortHashOf echo := by
      rw [hShort, not_not]
      exact hCall
    rw [List.countP_map, List.countP_append,
      List.countP_cons_of_neg (by simpa using hHere)]
    simp only [Function.comp_def] at hMore hNear ⊢
    omega
  · intro entry hEntry _
    rcases List.mem_map.mp hEntry with ⟨other, hOther, rfl⟩
    refine ⟨hStamped other ?_, .inl hTtl⟩
    rw [List.append_assoc]
    exact List.mem_append_right _ hOther
  · exact fun _ _ _ => .inl hTtl

------------------------------------------------------------
-- Frames Of Our Own
------------------------------------------------------------

variable {δ : Type}

/-
  A frame of our own is handed to the radio by the end of a
  run, when these frames had been remembered: it is sent, or
  it is sent again.
-/
inductive Leaves
    (ts : List (Transition (δ × Router) (Event δ)))
    (s : δ × Router) :
    List Remember → Bytes → Prop
| sent
    {pre post : List Act} {frame : Bytes} {time : Millis}
    {priority : Priority}
    (hHistory :
      s.2.history =
        pre ++
          Act.originated frame time ::
            Act.handed frame priority :: post) :
    Leaves ts s
      ((pre ++ [Act.originated frame time]).filterMap
        rememberOf)
      frame
| again
    {t : Transition (δ × Router) (Event δ)} {now : Millis}
    {entry : Pending}
    (hTransition : t ∈ ts)
    (hTick : t.event = .tick now)
    (hEntry : entry ∈ t.before.2.pending)
    (hAgain :
      entryDeed now t.before.2.config entry =
        some (.again entry.id entry.frame)) :
    Leaves ts s t.before.2.remembered entry.frame

/- Nothing was remembered since the frame was sent. -/
def NothingSince (r : Router) (frame : Bytes) : Prop :=
  ∃ before time after,
    r.history = before ++ .originated frame time :: after ∧
      after.filterMap rememberOf = []

/-
  What is sent again is sent again before anything else is
  remembered. The clock does not reach the one value that
  leaves no stamp.
-/
def RetriesAtOnce (r : Router) : Event δ → Prop
| .tick now =>
    now + 1 ≠ 0 ∧
      ∀ entry ∈ r.pending,
        entryDeed now r.config entry =
            some (.again entry.id entry.frame) →
          r.NothingSince entry.frame
| _ => True

theorem amongLast_of_sent
    (pre : List Act)
    (frame : Bytes)
    (time : Millis) :
    AmongLast 1
      ((pre ++ [Act.originated frame time]).filterMap
        rememberOf)
      frame := by
  refine ⟨pre.filterMap rememberOf,
    { time := time, frame := frame }, [], ?_, rfl,
    Nat.one_pos⟩
  rw [List.filterMap_append]
  rfl

theorem NothingSince.amongLast
    {r : Router} {frame : Bytes}
    (hNothing : r.NothingSince frame) :
    AmongLast 1 r.remembered frame := by
  rcases hNothing with
    ⟨before, time, after, hHistory, hAfter⟩
  have hSent := amongLast_of_sent before frame time
  rw [remembered, hHistory,
    List.append_cons before _ after, List.filterMap_append,
    hAfter, List.append_nil]
  exact hSent

------------------------------------------------------------
-- Runs
------------------------------------------------------------

variable {D : Delegate δ}

/- What a run leaves of the cache and the clock. -/
structure Remembers (config : RouterConfig) (r : Router) :
    Prop where
  config_eq : r.config = config
  tracks : r.CacheTracks
  clock : r.now + 1 ≠ 0
  stamped : ∀ call ∈ r.remembered, call.Stamped

theorem Remembers.apply
    {config : RouterConfig} {s : δ × Router} {e : Event δ}
    (hRemembers : Remembers config s.2)
    (hAtOnce : s.2.RetriesAtOnce e) :
    Remembers config (apply D s e).2 := by
  have hClock : s.2.clockOf e + 1 ≠ 0 := by
    cases e with
    | frame frame rx => exact hRemembers.clock
    | tick now => exact hAtOnce.1
    | above task => exact hRemembers.clock
  rcases apply_does (D := D) e s with ⟨acts, hDoes⟩
  refine
    { config_eq := hDoes.config.trans hRemembers.config_eq
      tracks := hRemembers.tracks.apply e
      clock := ?_
      stamped := ?_ }
  · rw [hDoes.now]
    exact hClock
  · intro call hCall
    rw [remembered, hDoes.history,
      List.filterMap_append] at hCall
    rcases List.mem_append.mp hCall with hOld | hNew
    · exact hRemembers.stamped call hOld
    · rcases List.mem_filterMap.mp hNew with ⟨a, ha, hIs⟩
      rw [Remember.Stamped, hDoes.times a ha call hIs]
      exact hClock

theorem remembers_create
    (store : Store)
    (entropy : Entropy)
    (config : RouterConfig) :
    Remembers config (create store entropy config) where
  config_eq := rfl
  tracks := cacheTracks_create store entropy config
  clock := by simp [create]
  stamped := by simp [remembered, create]

/- Nothing is taken back from a history. -/
theorem history_of_run
    {s₀ s : δ × Router}
    {ts : List (Transition (δ × Router) (Event δ))}
    (hRun : Run (fun s e s' => apply D s e = s') s₀ ts s) :
    s₀.2.history <+: s.2.history := by
  apply hRun.invariant
    (I := fun s => s₀.2.history <+: s.2.history)
  · exact List.prefix_rfl
  · intro s e s' hPrefix hStep
    rcases apply_does (D := D) e s with ⟨acts, hDoes⟩
    rw [← hStep, hDoes.history]
    exact hPrefix.trans (List.prefix_append _ _)

theorem Leaves.remembered
    {s₀ s : δ × Router}
    {ts : List (Transition (δ × Router) (Event δ))}
    (hRun : Run (fun s e s' => apply D s e = s') s₀ ts s)
    {calls : List Remember} {frame : Bytes}
    (hLeaves : Leaves ts s calls frame) :
    calls <+: s.2.remembered := by
  cases hLeaves with
  | @sent pre post frame time priority hHistory =>
      have hPrefix :
          pre ++ [Act.originated frame time] <+:
            s.2.history := by
        exact ⟨Act.handed frame priority :: post, by
          simp [hHistory]⟩
      exact hPrefix.filterMap rememberOf
  | @again t now entry hTransition _ _ _ =>
      rcases hRun.before_of_mem hTransition with
        ⟨pre, post, rfl, -⟩
      rcases hRun.split_cons with ⟨-, hStep, hRest⟩
      rcases apply_does (D := D) t.event t.before with
        ⟨acts, hDoes⟩
      have hHere :
          t.before.2.history <+: t.after.2.history := by
        rw [← hStep, hDoes.history]
        exact List.prefix_append _ _
      exact (hHere.trans (history_of_run hRest)).filterMap
        rememberOf

/-
  In every run in which nothing is sent again late: whenever
  a frame of our own leaves it is among the last frames that
  the cache has slots for, and its echo is dropped until as
  many others have been remembered since.
-/
theorem own_echoes_are_dropped
    {store : Store} {entropy : Entropy}
    {config : RouterConfig} {d : δ}
    {ts : List (Transition (δ × Router) (Event δ))}
    {s : δ × Router}
    (hRun :
      Run (fun s e s' => apply D s e = s')
        (d, create store entropy config) ts s)
    (hTtl : config.seenTtl = 0)
    (hAtOnce : ∀ t ∈ ts, t.before.2.RetriesAtOnce t.event)
    {calls : List Remember} {frame : Bytes}
    (hLeaves : Leaves ts s calls frame) :
    AmongLast (slotCount config) calls frame ∧
      ∃ more,
        s.2.remembered = calls ++ more ∧
          (othersIn frame more < slotCount config →
            ∀ echo rx,
              packetHash echo = packetHash frame →
                s.2.alreadySeen echo = true ∧
                  onFrame D echo rx s = s) := by
  have hRemembers : Remembers config s.2 := by
    apply hRun.invariant_of_forall
      (I := fun s => Remembers config s.2)
      (C := fun t => t.before.2.RetriesAtOnce t.event)
    · exact remembers_create store entropy config
    · exact hAtOnce
    · rintro s e s' hRemembers rfl hHere
      exact hRemembers.apply hHere
  have hLast : AmongLast 1 calls frame := by
    cases hLeaves with
    | sent hHistory => exact amongLast_of_sent _ frame _
    | again hTransition hTick hEntry hAgain =>
        have hHere := hAtOnce _ hTransition
        rw [hTick] at hHere
        exact (hHere.2 _ hEntry hAgain).amongLast
  rcases hLeaves.remembered hRun with ⟨more, hMore⟩
  refine ⟨hLast.mono (slotCount_pos config), more,
    hMore.symm, ?_⟩
  intro hFew echo rx hEcho
  have hSeen : s.2.alreadySeen echo = true := by
    apply alreadySeen_of_amongLast hRemembers.tracks
      (hRemembers.config_eq ▸ hTtl) hRemembers.stamped
      hMore.symm hLast ?_ hEcho
    rw [hRemembers.config_eq]
    exact hFew
  refine ⟨hSeen, ?_⟩
  unfold onFrame
  cases parse echo with
  | none => rfl
  | some p => exact if_pos hSeen

end Echoes

section Example

open Sample

/- A text to a peer that no route is known to. -/
def floodText : Event Unit :=
  .above fun d =>
    .call
      (.sendDirect (Vector.replicate _ 9) .txtMsg [1, 2, 3]
        true)
      fun _ => .done d

/- A cache of two slots that nothing in it grows old in. -/
def twoSlots : RouterConfig :=
  { seenSlots := 2, seenTtl := 0 }

def twoSlotNode : Unit × Router :=
  ((), ofByte 2 twoSlots)

/- The frame of the text. -/
def textFrame : Bytes :=
  ((apply .carrier twoSlotNode floodText).2.pending.head?.map
    Pending.frame).getD []

/- The text as it is sent on over a path. -/
def textOver (path : Bytes) : Bytes :=
  ((parse textFrame).bind fun p =>
    serialize
      { p with
        hopCount := UInt8.ofNat path.length
        path := path }
      maxPacketFrame).getD []

/- Once the text has been sent. -/
def textOut : Unit × Router :=
  apply .carrier twoSlotNode floodText

/- Two frames of others, before the text is sent again. -/
def busyChannel : List (Event Unit) :=
  [floodText,
    .frame (buildFrame .grpTxt [1, 2, 3] none) {},
    .frame (buildFrame .grpTxt [4, 5, 6] none) {}]

def busyNode : Unit × Router :=
  busyChannel.foldl (apply .carrier) twoSlotNode

/-
  The text is sent again, and is not among the last two
  frames. The copy that a neighbour sent on is taken for a
  frame of somebody else and queued.
-/
theorem echo_of_a_late_retry_is_carried :
    (∃ entry ∈ busyNode.2.pending,
      entry.frame = textFrame ∧
        entryDeed 12000 busyNode.2.config entry =
          some (.again entry.id entry.frame)) ∧
      ¬ AmongLast 2 busyNode.2.remembered textFrame ∧
      packetHash (textOver [5]) = packetHash textFrame ∧
      .queued (textOver [5, 2]) ∈
        actsSince (tick .carrier 12000 busyNode).2
          (onFrame .carrier (textOver [5]) {}
            (tick .carrier 12000 busyNode)).2 :=
  ⟨by decide +kernel, by decide +kernel, by decide +kernel,
    by decide +kernel⟩

/- On a quiet channel the retry comes at once. -/
theorem echo_of_a_prompt_retry_is_dropped :
    let es := [floodText, .tick 12000]
    let s := es.foldl (apply .carrier) twoSlotNode
    AmongLast 2 textOut.2.remembered textFrame ∧
      ∃ more,
        s.2.remembered = textOut.2.remembered ++ more ∧
          (othersIn textFrame more < 2 →
            ∀ echo rx,
              packetHash echo = packetHash textFrame →
                s.2.alreadySeen echo = true ∧
                  onFrame .carrier echo rx s = s) := by
  intro es s
  have hSent : textOut.2.NothingSince textFrame :=
    ⟨textOut.2.history.take 1, 0, textOut.2.history.drop 2,
      by decide +kernel, by rfl⟩
  have hFrames :
      ∀ entry ∈ textOut.2.pending,
        entry.frame = textFrame := by
    decide +kernel
  have hAtOnce :
      ∀ t ∈ replay (apply .carrier) twoSlotNode es,
        t.before.2.RetriesAtOnce t.event := by
    intro t ht
    rcases List.mem_cons.mp ht with rfl | ht
    · trivial
    · rw [List.mem_singleton.mp ht]
      refine ⟨by decide, fun entry hEntry _ => ?_⟩
      rw [hFrames entry hEntry]
      exact hSent
  have hEntry :
      ∃ entry ∈ textOut.2.pending,
        entry.frame = textFrame ∧
          entryDeed 12000 textOut.2.config entry =
            some (.again entry.id entry.frame) := by
    decide +kernel
  rcases hEntry with ⟨entry, hEntry, hFrame, hAgain⟩
  have hLeaves :
      Leaves (replay (apply .carrier) twoSlotNode es) s
        textOut.2.remembered textFrame := by
    rw [← hFrame]
    exact .again
      (t := ⟨textOut, .tick 12000,
        apply .carrier textOut (.tick 12000)⟩)
      (List.mem_cons_of_mem _ List.mem_cons_self) rfl hEntry
      hAgain
  exact own_echoes_are_dropped
    (run_replay (apply .carrier) twoSlotNode es) rfl hAtOnce
    hLeaves

end Example

end Router

end MeshCore
