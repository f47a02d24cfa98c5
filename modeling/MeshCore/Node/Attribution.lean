import MeshCore.Node.Heard
import MeshCore.Node.Waiting

/-
  Whose push an acknowledgement is taken for.

  The number that is acknowledged is made from the text and
  the room's own key: it is the same for every client that
  a post is pushed to. The router takes it for the first of
  its entries that waits for that number, whoever sent it.

  Key definitions include:
    * `Node.Answers`
    * `Node.TouchesOnly`
    * `Node.Rival`

  Key facts include:
    * `Node.tracks_of_ack`
    * `Node.ack_is_credited_iff`
-/

namespace MeshCore

namespace Node

variable {η : Type}

------------------------------------------------------------
-- Acknowledgements Of A Client
------------------------------------------------------------

/- All rows but those of this client are as they were. -/
def TouchesOnly (c : PublicKey) (t : Turn η) : Prop :=
  ∀ (row : Nat) (track : Track),
    t.before.1.tracks[row]? = some track →
      track.pk ≠ c →
        t.after.1.tracks[row]? = some track

/-
  Of the entries that wait for this number, the first in the
  router's table is one that another client's row waits for.
-/
def Rival
    (s : Node η)
    (c : PublicKey)
    (value : UInt32) :
    Prop :=
  ∃ entry ∈ s.2.pending.find? (·.expectedAck == value),
    ∃ track ∈ s.1.tracks.find? (Track.awaits entry.id),
      track.pk ≠ c

instance (s : Node η) (c : PublicKey) (value : UInt32) :
    Decidable (Rival s c value) := by
  unfold Rival
  infer_instance

section Steps

variable [CryptoCore]

/-
  The packet is what a client answers a push with: the
  number of a text that was pushed to it, and nothing else
  it could know a number for.
-/
structure Answers
    (s : Node η)
    (c : PublicKey)
    (p : Packet) :
    Prop where
  ack : p.payloadType = .ack
  pushed :
    ∃ sending ∈ s.2.sendings,
      sending.dest = c ∧
        sending.wantAck = true ∧
          p.payload =
            writeUint32
              (expectedAck sending.payload s.2.store.selfPk)

/- The row that a number is taken for, if any, is settled. -/
theorem tracks_of_ack
    {s : Node η} {frame : Bytes} {p : Packet}
    (hTakes : Takes s frame p)
    (hAck : p.payloadType = .ack)
    (rx : RxMeta)
    (wall : UInt32) :
    (apply s (.frame frame rx wall)).1.tracks =
      match s.2.completedBy p.payload with
      | none => s.1.tracks
      | some entry => (s.1.onAck entry.id).tracks := by
  have hHeard : hear s frame rx wall = s :=
    hear_of_other hTakes.1 (by rw [hAck]; decide) rx wall
  rw [apply, hHeard, onFrame_of_taken hTakes,
    Router.considerForwarding_told, delivered,
    Router.dispatch_eq]
  have hAsked :
      ∀ room : Room η,
        (Room.delegate.shouldForward room p).2.tracks =
          room.tracks := by
    intro room
    cases (room.shouldForward_changes p).tracks with
    | idle hTracks => exact hTracks
    | marked hMark => contradiction
    | entered hMark => contradiction
  have hTold :
      Router.upcall Room.delegate p
          (s.1, s.2.takeIn frame) =
        ((s.2.completedBy p.payload).map .acked,
          s.2.takeIn frame) := by
    simp only [Router.upcall, hAck]
    rfl
  rw [hAsked, hTold]
  cases s.2.completedBy p.payload with
  | none => rfl
  | some entry => rfl

/- A frame that is not taken touches no row. -/
theorem tracks_of_not_taken
    {s : Node η} {frame : Bytes}
    (hNot : ∀ p, ¬ Takes s frame p)
    (rx : RxMeta) :
    (Router.onFrame Room.delegate frame rx s).1.tracks =
      s.1.tracks := by
  rcases (onFrame_of_not_taken hNot rx).1 with
    hSame | hTaken
  · rw [hSame]
  · rw [hTaken]

/- Only the row that waits is touched, and it is. -/
theorem touchesOnly_onAck_iff
    {room : Room η} {id : SendId} {c : PublicKey} :
    (∀ (row : Nat) (track : Track),
        room.tracks[row]? = some track →
          track.pk ≠ c →
            (room.onAck id).tracks[row]? = some track) ↔
      ¬ ∃ track ∈ room.tracks.find? (Track.awaits id),
        track.pk ≠ c := by
  cases (room.onAck_changes id).tracks with
  | idle hTracks hNone hUnknown =>
      have hNobody :
          room.tracks.find? (Track.awaits id) = none := by
        have hNoRow := hUnknown id rfl
        rw [List.findIdx?_eq_none_iff] at hNoRow
        rw [List.find?_eq_none]
        intro track hTrack
        simp [hNoRow track hTrack]
      rw [hTracks, hNobody]
      exact iff_of_true (fun _ _ hTrack _ => hTrack)
        (by rintro ⟨_, hFound, -⟩; contradiction)
  | marked hMark => contradiction
  | entered hMark => contradiction
  | @acked _ row hRow hTracks =>
      rcases List.findIdx?_eq_some_iff_getElem.mp hRow with
        ⟨hInside, hAwaits, hBefore⟩
      have hHere :
          room.tracks[row]? = some room.tracks[row] :=
        List.getElem?_eq_getElem hInside
      have hFound :
          room.tracks.find? (Track.awaits id) =
            some room.tracks[row] := by
        rw [List.find?_eq_some_iff_getElem]
        refine ⟨hAwaits, row, hInside, rfl, ?_⟩
        intro j hj
        simpa using hBefore j hj
      generalize room.tracks[row] = waiting at *
      rw [hTracks, hFound]
      constructor
      · rintro hSame ⟨track, hTrack, hOther⟩
        cases hTrack
        have hAfter := hSame row waiting hHere hOther
        rw [List.getElem?_modify_eq, hHere] at hAfter
        have hSettled : waiting.acked = waiting :=
          Option.some.inj hAfter
        have hIdle : waiting.pending = false := by
          rw [← hSettled]
          rfl
        simp [Track.awaits, hIdle] at hAwaits
      · intro hOurs other track hTrack hOther
        have hElsewhere : row ≠ other := by
          rintro rfl
          rw [hHere] at hTrack
          cases hTrack
          exact hOurs ⟨waiting, rfl, hOther⟩
        rw [List.getElem?_modify_ne _ _ hElsewhere]
        exact hTrack

/-
  In every run: what a client answers a push with touches no
  other client's row, exactly if nobody else's push is first
  in the table of those that wait for the same number. A
  frame that the router passes over touches nobody's.
-/
theorem ack_is_credited_iff
    {start s : Node η} {ts : List (Turn η)}
    (hRun : Run Step start ts s)
    {t : Turn η}
    (ht : t ∈ ts)
    {frame : Bytes} {rx : RxMeta} {wall : UInt32}
    {p : Packet} {c : PublicKey}
    (hEvent : t.event = .frame frame rx wall)
    (hParse : parse frame = some p)
    (hAnswers : Answers t.before c p) :
    TouchesOnly c t ↔
      (Takes t.before frame p →
        ¬ Rival t.before c (readUint32 p.payload 0)) := by
  have hStep : apply t.before t.event = t.after :=
    hRun.step_of_mem ht
  rw [hEvent] at hStep
  unfold TouchesOnly
  rw [← hStep]
  by_cases hTakes : Takes t.before frame p
  · have hNumber :
        t.before.2.completedBy p.payload =
          t.before.2.pending.find?
            (·.expectedAck == readUint32 p.payload 0) := by
      rcases hAnswers.pushed with ⟨sending, -, -, -, hPayload⟩
      rw [Router.completedBy, if_neg]
      rw [hPayload, length_writeUint32]
      decide
    rw [tracks_of_ack hTakes hAnswers.ack rx wall, hNumber]
    rw [forall_prop_of_true hTakes]
    unfold Rival
    cases hFound :
        t.before.2.pending.find?
          (·.expectedAck == readUint32 p.payload 0) with
    | none =>
        exact iff_of_true (fun _ _ hTrack _ => hTrack)
          (by rintro ⟨_, hNone, -⟩; contradiction)
    | some entry =>
        simp only [Option.mem_some_iff, exists_eq_left']
        exact touchesOnly_onAck_iff
  · have hNot : ∀ q, ¬ Takes t.before frame q := by
      rintro q hOther
      obtain rfl : p = q :=
        Option.some.inj (hParse.symm.trans hOther.1)
      exact hTakes hOther
    have hHeard : hear t.before frame rx wall = t.before :=
      hear_of_other hParse (by rw [hAnswers.ack]; decide)
        rx wall
    rw [apply, hHeard, tracks_of_not_taken hNot]
    exact iff_of_true (fun _ _ hTrack _ => hTrack)
      fun hTake => absurd hTake hTakes

end Steps

section Example

open Sample

/- Two guests have the same post under way to them. -/
def bothPushed : Node Unit :=
  (turns 2).foldl apply (hall 2)

/- What is said to both of them, and what both answer. -/
def pushedText : Bytes :=
  [5, 0, 0, 0, 8] ++ ascii "?63636363: H"

def eitherAck : Packet :=
  Router.built .ack
    (writeUint32 (expectedAck pushedText (key 2))) none

def ackComes : Event Unit :=
  .frame (frameOf eitherAck) {} 0

theorem both_may_answer
    {i : UInt8}
    (hGuest : i = 0 ∨ i = 1) :
    Answers bothPushed (key i) eitherAck where
  ack := by decide
  pushed := by
    rcases hGuest with rfl | rfl <;> decide +kernel

/- The push to the first of them was the first to be kept. -/
theorem first_guest_is_credited :
    TouchesOnly (key 0)
      ⟨bothPushed, ackComes, apply bothPushed ackComes⟩ :=
  (ack_is_credited_iff
    (run_replay apply (hall 2) (turns 2 ++ [ackComes]))
    (mem_replay apply (hall 2) (turns 2) [] ackComes) rfl
    (by decide +kernel) (both_may_answer (.inl rfl))).mpr
    (by decide +kernel)

/- The second answers, and the first one's row is settled. -/
theorem second_guest_is_credited_to_the_first :
    ¬ ∀ {start s : Node Unit} {ts : List (Turn Unit)},
        Run Step start ts s →
          (∀ client ∈ start.1.clients,
            client.pending = false) →
            ∀ t ∈ ts, ∀ frame rx wall p c,
              t.event = .frame frame rx wall →
                parse frame = some p →
                  Answers t.before c p → TouchesOnly c t := by
  intro hAll
  have hOnly :=
    hAll
      (run_replay apply (hall 2) (turns 2 ++ [ackComes]))
      (by decide +kernel) _
      (mem_replay apply (hall 2) (turns 2) [] ackComes)
      (frameOf eitherAck) {} 0 eitherAck (key 1) rfl
      (by decide +kernel) (both_may_answer (.inr rfl))
  have hSame :
      (apply bothPushed ackComes).1.tracks[0]? =
        some (bothPushed.1.client 0).track :=
    hOnly 0 _ (by decide +kernel) (by decide +kernel)
  revert hSame
  decide +kernel

end Example

end Node

end MeshCore
