import MeshCore.Routing.Router

/-
  What the duplicate cache remembers, and for how long.

  The cache is a ring of stamped hashes. What a query sees
  of it is told by the calls that filled it: those that have
  not been overwritten, and of these the match in the lowest
  slot.

  Key definitions include:
    * `Router.remembering`
    * `Router.RecentlyRemembered`
    * `Router.Unmasked`
-/

namespace MeshCore

namespace Seen

/- The entry still counts at `now`. -/
def Fresh
    (entry : Seen)
    (config : RouterConfig)
    (now : Millis) :
    Prop :=
  config.seenTtl = 0 ∨
    (now + 1) - entry.stamp < config.seenTtl

/- The entry holds the hash, in a slot that is in use. -/
def Holds (entry : Seen) (shortHash : UInt32) : Prop :=
  entry.stamp ≠ 0 ∧ entry.shortHash = shortHash

end Seen

namespace Router

section Window

variable [CryptoCore]

------------------------------------------------------------
-- Filling The Cache
------------------------------------------------------------

/- One call of `rememberSeen`, and when it was made. -/
structure Remember where
  time : Millis
  frame : Bytes

/- The slot such a call fills. -/
def Remember.entry (call : Remember) : Seen :=
  { shortHash := shortHashOf call.frame
    stamp := call.time + 1 }

/- The calls made one after another, each at its time. -/
def remembering
    (r : Router)
    (calls : List Remember) :
    Router :=
  calls.foldl
    (fun r call =>
      { r with now := call.time }.rememberSeen call.frame)
    r

theorem remembering_append_singleton
    (r : Router)
    (calls : List Remember)
    (call : Remember) :
    r.remembering (calls ++ [call]) =
      { r.remembering calls with
        now := call.time }.rememberSeen call.frame := by
  simp [remembering]

/- The cache of a new router holds exactly these calls. -/
theorem remembering_create
    (store : Store)
    (entropy : Entropy)
    (config : RouterConfig)
    (calls : List Remember) :
    ((create store entropy config).remembering
        calls).config = config ∧
      ((create store entropy config).remembering
          calls).seen =
        .ofWrites (slotCount config) {}
          (calls.map Remember.entry) := by
  induction calls using List.reverseRecOn with
  | nil => exact ⟨rfl, rfl⟩
  | append_singleton calls call ih =>
      rcases ih with ⟨hConfig, hSeen⟩
      rw [remembering_append_singleton]
      constructor
      · exact hConfig
      · rw [List.map_append, List.map_singleton,
          RingBuffer.ofWrites_append_singleton, ← hSeen]
        rfl

------------------------------------------------------------
-- Asking The Cache
------------------------------------------------------------

/-
  The scan decides on the match in the lowest slot, however
  old that match is.
-/
theorem alreadySeen_iff
    {r : Router}
    {ws : List Seen}
    (hSeen :
      r.seen = .ofWrites (slotCount r.config) {} ws)
    (frame : Bytes) :
    r.alreadySeen frame = true ↔
      ∃ i entry,
        RingBuffer.Recent (slotCount r.config) ws i ∧
        ws[i]? = some entry ∧
        entry.Holds (shortHashOf frame) ∧
        entry.Fresh r.config r.now ∧
        ∀ k other,
          RingBuffer.Recent (slotCount r.config) ws k →
          ws[k]? = some other →
          other.Holds (shortHashOf frame) →
          i % slotCount r.config ≤
            k % slotCount r.config := by
  have hPos := slotCount_pos r.config
  have hFresh :
      ∀ entry : Seen,
        (!decide (r.config.seenTtl ≠ 0 ∧
            r.config.seenTtl ≤
              (r.now + 1) - entry.stamp)) = true ↔
          entry.Fresh r.config r.now := by
    intro entry
    simp [Seen.Fresh, Decidable.or_iff_not_imp_left]
  unfold alreadySeen
  rw [hSeen]
  split
  next hFind =>
    rw [RingBuffer.find_eq_none_iff hPos _ _ (by simp)] at hFind
    constructor
    · intro hFalse
      contradiction
    · rintro ⟨i, entry, hRecent, hEntry, hHolds, -, -⟩
      have hMiss := hFind i entry hRecent hEntry
      rw [decide_eq_false_iff_not] at hMiss
      exact absurd hHolds hMiss
  next found hFind =>
    rw [RingBuffer.find_eq_some_iff hPos _ _ (by simp)] at hFind
    simp only [decide_eq_true_eq] at hFind
    rcases hFind with ⟨hFound, i, hRecent, hi, hLeast⟩
    constructor
    · intro hSeen
      refine ⟨i, found, hRecent, hi, hFound, ?_, ?_⟩
      · exact (hFresh found).mp (by simpa using hSeen)
      · intro k other hk hOther hHolds
        exact hLeast k other hk hOther hHolds
    · rintro ⟨j, entry, hj, hEntry, hHolds, hEntryFresh,
        hEntryLeast⟩
      -- two matches that are each the lowest are one match
      have hSlots := Nat.le_antisymm
        (hLeast j entry hj hEntry hHolds)
        (hEntryLeast i found hRecent hi hFound)
      have hSame : i = j := hRecent.eq_of_slot hj hSlots
      rw [hSame, hEntry, Option.some.injEq] at hi
      rw [← hi]
      simpa using (hFresh entry).mpr hEntryFresh

------------------------------------------------------------
-- The Window
------------------------------------------------------------

namespace Remember

def Matches (call : Remember) (frame : Bytes) : Prop :=
  shortHashOf call.frame = shortHashOf frame

/- The call is younger than the lifetime, if there is one. -/
def Fresh
    (call : Remember)
    (config : RouterConfig)
    (now : Millis) :
    Prop :=
  config.seenTtl = 0 ∨ now - call.time < config.seenTtl

/- One past the clock is not the mark of a free slot. -/
def Stamped (call : Remember) : Prop :=
  call.time + 1 ≠ 0

/- The offset of the stamps cancels out of the age. -/
theorem entry_fresh_iff
    (call : Remember)
    (config : RouterConfig)
    (now : Millis) :
    call.entry.Fresh config now ↔ call.Fresh config now := by
  have hAge :
      (now + 1) - (call.time + 1) = now - call.time := by
    grind
  simp only [Seen.Fresh, entry, Fresh, hAge]

end Remember

/-
  What the window is for: one of the last `seenSlots` calls
  was for this hash, and it is young enough.
-/
def RecentlyRemembered
    (config : RouterConfig)
    (calls : List Remember)
    (frame : Bytes)
    (now : Millis) :
    Prop :=
  ∃ i call,
    RingBuffer.Recent config.seenSlots calls i ∧
    calls[i]? = some call ∧
    call.Matches frame ∧
    call.Fresh config now

/-
  No expired match hides the fresh ones: if there are any,
  one of them stands in a slot below every expired match. A
  cache of no slots has one all the same, and there no fresh
  match may stand.
-/
def Unmasked
    (config : RouterConfig)
    (calls : List Remember)
    (frame : Bytes)
    (now : Millis) :
    Prop :=
  if config.seenSlots = 0 then
    ∀ call,
      calls.getLast? = some call →
      call.Stamped →
      call.Matches frame →
      ¬ call.Fresh config now
  else
    RecentlyRemembered config calls frame now →
      ∃ i call,
        RingBuffer.Recent config.seenSlots calls i ∧
        calls[i]? = some call ∧
        call.Stamped ∧
        call.Matches frame ∧
        call.Fresh config now ∧
        ∀ k other,
          RingBuffer.Recent config.seenSlots calls k →
          calls[k]? = some other →
          other.Stamped →
          other.Matches frame →
          ¬ other.Fresh config now →
          i % config.seenSlots < k % config.seenSlots

/- A call that a query for the frame can find. -/
def Findable
    (config : RouterConfig)
    (calls : List Remember)
    (frame : Bytes)
    (i : Nat)
    (call : Remember) :
    Prop :=
  RingBuffer.Recent (slotCount config) calls i ∧
    calls[i]? = some call ∧
    call.Stamped ∧
    call.Matches frame

/- The lowest findable call decides. -/
theorem alreadySeen_remembering_iff
    (store : Store)
    (entropy : Entropy)
    (config : RouterConfig)
    (calls : List Remember)
    (frame : Bytes)
    (now : Millis) :
    ({ (create store entropy config).remembering calls with
        now := now } : Router).alreadySeen frame = true ↔
      ∃ i call,
        Findable config calls frame i call ∧
        call.Fresh config now ∧
        ∀ k other,
          Findable config calls frame k other →
          i % slotCount config ≤ k % slotCount config := by
  rcases remembering_create store entropy config calls with
    ⟨hConfig, hSeen⟩
  generalize remembering (create store entropy config) calls =
    r at hConfig hSeen ⊢
  have hWrites :
      ({ r with now := now } : Router).seen =
        .ofWrites (slotCount r.config) {}
          (calls.map Remember.entry) := by
    rw [hConfig]
    exact hSeen
  rw [alreadySeen_iff hWrites]
  simp only [hConfig, RingBuffer.Recent, List.length_map,
    List.getElem?_map, Option.map_eq_some_iff]
  constructor
  · rintro ⟨i, -, hRecent, ⟨call, hCall, rfl⟩, hHolds,
      hFresh, hLeast⟩
    refine ⟨i, call, ⟨hRecent, hCall, hHolds⟩, ?_, ?_⟩
    · exact (call.entry_fresh_iff config now).mp hFresh
    · rintro k other ⟨hk, hOther, hOtherHolds⟩
      exact hLeast k other.entry hk ⟨other, hOther, rfl⟩
        hOtherHolds
  · rintro ⟨i, call, ⟨hRecent, hCall, hHolds⟩, hFresh,
      hLeast⟩
    refine ⟨i, call.entry, hRecent, ⟨call, hCall, rfl⟩,
      hHolds, ?_, ?_⟩
    · exact (call.entry_fresh_iff config now).mpr hFresh
    · rintro k - hk ⟨other, hOther, rfl⟩ hOtherHolds
      exact hLeast k other ⟨hk, hOther, hOtherHolds⟩

/- With a slot of its own, each findable call has an index. -/
theorem lowest_fresh_iff_of_slots
    {config : RouterConfig}
    (hSlots : config.seenSlots ≠ 0)
    (calls : List Remember)
    (frame : Bytes)
    (now : Millis) :
    (∃ i call,
      Findable config calls frame i call ∧
      call.Fresh config now ∧
      ∀ k other,
        Findable config calls frame k other →
        i % slotCount config ≤ k % slotCount config) ↔
      ∃ i call,
        RingBuffer.Recent config.seenSlots calls i ∧
        calls[i]? = some call ∧
        call.Stamped ∧
        call.Matches frame ∧
        call.Fresh config now ∧
        ∀ k other,
          RingBuffer.Recent config.seenSlots calls k →
          calls[k]? = some other →
          other.Stamped →
          other.Matches frame →
          ¬ other.Fresh config now →
          i % config.seenSlots < k % config.seenSlots := by
  have hCount : slotCount config = config.seenSlots := by
    simp [slotCount, hSlots]
  simp only [Findable, hCount]
  constructor
  · rintro ⟨i, call, ⟨hRecent, hAt, hStamped, hMatches⟩,
      hFresh, hLeast⟩
    refine ⟨i, call, hRecent, hAt, hStamped, hMatches,
      hFresh, ?_⟩
    intro k other hk hOther hOtherStamped hOtherMatches
      hStale
    rcases Nat.lt_or_eq_of_le
        (hLeast k other
          ⟨hk, hOther, hOtherStamped, hOtherMatches⟩) with
      hLt | hEq
    · exact hLt
    · -- in one slot the two are one call
      have hSame := hRecent.eq_of_slot hk hEq
      rw [hSame, hOther, Option.some.injEq] at hAt
      exact absurd (hAt ▸ hFresh) hStale
  · rintro ⟨i, call, hRecent, hAt, hStamped, hMatches,
      hFresh, hAbove⟩
    rcases RingBuffer.exists_lowest config.seenSlots
        (P := fun k => ∃ other,
          Findable config calls frame k other)
        ⟨i, call, hCount.symm ▸ hRecent, hAt, hStamped,
          hMatches⟩ with
      ⟨low, ⟨lowest, hLow⟩, hLeast⟩
    simp only [Findable, hCount] at hLow hLeast
    refine ⟨low, lowest, hLow, ?_, ?_⟩
    · by_contra hStale
      have hLt := hAbove low lowest hLow.1 hLow.2.1
        hLow.2.2.1 hLow.2.2.2 hStale
      have hLe := hLeast i
        ⟨call, hRecent, hAt, hStamped, hMatches⟩
      omega
    · intro k other hOther
      exact hLeast k ⟨other, hOther⟩

/- In the slot of an empty cache the last call decides. -/
theorem lowest_fresh_iff_of_no_slots
    {config : RouterConfig}
    (hSlots : config.seenSlots = 0)
    (calls : List Remember)
    (frame : Bytes)
    (now : Millis) :
    (∃ i call,
      Findable config calls frame i call ∧
      call.Fresh config now ∧
      ∀ k other,
        Findable config calls frame k other →
        i % slotCount config ≤ k % slotCount config) ↔
      ∃ call,
        calls.getLast? = some call ∧
        call.Stamped ∧
        call.Matches frame ∧
        call.Fresh config now := by
  have hCount : slotCount config = 1 := by
    simp [slotCount, hSlots]
  simp only [Findable, hCount, RingBuffer.recent_one_iff,
    List.getLast?_eq_getElem?, Nat.mod_one]
  constructor
  · rintro ⟨i, call, ⟨hLast, hAt, hStamped, hMatches⟩,
      hFresh, -⟩
    rw [← hLast, Nat.add_sub_cancel]
    exact ⟨call, hAt, hStamped, hMatches, hFresh⟩
  · rintro ⟨call, hAt, hStamped, hMatches, hFresh⟩
    have := (List.getElem?_eq_some_iff.mp hAt).1
    exact ⟨_, call, ⟨by omega, hAt, hStamped, hMatches⟩,
      hFresh, by simp⟩

/- The cache is the window exactly where nothing is hidden. -/
theorem alreadySeen_exact_iff_unmasked
    (store : Store)
    (entropy : Entropy)
    (config : RouterConfig)
    (calls : List Remember)
    (frame : Bytes)
    (now : Millis) :
    (({ (create store entropy config).remembering calls with
          now := now } : Router).alreadySeen frame = true ↔
        RecentlyRemembered config calls frame now) ↔
      Unmasked config calls frame now := by
  rw [alreadySeen_remembering_iff]
  unfold Unmasked
  split
  next hSlots =>
    have hEmpty :
        ¬ RecentlyRemembered config calls frame now := by
      rintro ⟨i, call, ⟨hi, hRecent⟩, -⟩
      omega
    rw [lowest_fresh_iff_of_no_slots hSlots]
    simp only [hEmpty, iff_false, not_exists, not_and]
  next hSlots =>
    rw [lowest_fresh_iff_of_slots hSlots]
    constructor
    · intro hExact hWindow
      exact hExact.mpr hWindow
    · intro hUnmasked
      refine ⟨?_, hUnmasked⟩
      rintro ⟨i, call, hRecent, hAt, -, hMatches, hFresh, -⟩
      exact ⟨i, call, hRecent, hAt, hMatches, hFresh⟩

end Window

section Example

open Sample

/-
  A frame is remembered, comes back once its entry has
  expired and is remembered again: the old entry, lower in
  the ring, hides the new one from the next echo.
-/
theorem alreadySeen_hidden_by_expired :
    let frame := buildFrame .grpTxt [1, 2, 3] none
    let calls : List Remember :=
      [{ time := 0, frame := frame },
        { time := 300000, frame := frame }]
    calls.Pairwise (·.time ≤ ·.time) ∧
      RecentlyRemembered {} calls frame 300001 ∧
      ({ (ofByte 1).remembering calls with
          now := 300001 } : Router).alreadySeen frame =
        false := by
  refine ⟨by decide, ?_, by decide +kernel⟩
  exact ⟨1, _, ⟨by decide, by decide⟩, rfl, rfl, by
    right
    decide⟩

end Example

end Router

end MeshCore
