import MeshCore.Node.Heard
import MeshCore.Routing.Forwarding

/-
  Whether a message can be posted a second time.

  The room posts whatever it is told; that nothing is told
  it twice is left to the router, which knows frames and not
  messages, and those for a while only. A message is posted
  once exactly if that is enough each time it comes again.

  Key definitions include:
    * `Message`, `Message.of`
    * `Node.messageAt`
    * `Node.AddsPost`, `Node.Posts`
    * `Node.KeptOut`

  Key facts include:
    * `Node.addsPost_iff`
    * `Node.posted_once_iff`
-/

namespace MeshCore

------------------------------------------------------------
-- Messages
------------------------------------------------------------

/-
  What is to be posted once: a text that a key has stamped,
  whatever its attempt, or a captured frame of a channel.
-/
inductive Message where
| stamped (pk : PublicKey) (timestamp : UInt32) (text : Bytes)
| captured (frame : Bytes)
deriving DecidableEq

/- The message of an event that a frame brought. -/
def Message.of
    {η : Type}
    (frame : Bytes) :
    Room.Event η → Option Message
| .payload contact .txtMsg plain =>
    (decodeText plain).bind fun message =>
      if textTypeOf message.txtType = some .plain then
        some
          (.stamped contact.pk message.timestamp
            message.message)
      else none
| .group .grpTxt _ => some (.captured frame)
| _ => none

------------------------------------------------------------
-- Posts
------------------------------------------------------------

namespace Room

variable {η : Type}

/- A number is drawn for a new post, and for nothing else. -/
theorem BoardChange.draws_iff
    {room room' : Room η}
    {posted : Option (PublicKey × TextMsg)}
    (hBoard : BoardChange room room' posted) :
    room'.nextSeq = room.nextSeq + 1 ↔
      posted.isSome = true := by
  have hNext : room.nextSeq ≠ room.nextSeq + 1 := by
    simp
  cases hBoard with
  | posted hPosts hSeq =>
      exact ⟨fun _ => rfl, fun _ => hSeq⟩
  | same hPosts hSeq =>
      rw [hSeq]
      exact iff_of_false hNext Bool.false_ne_true
  | cleared hPosts hSeq =>
      rw [hSeq]
      exact iff_of_false hNext Bool.false_ne_true

end Room

namespace Node

variable {η : Type}

/- The step adds a post to the board. -/
def AddsPost (t : Turn η) : Prop :=
  t.after.1.nextSeq = t.before.1.nextSeq + 1

section Steps

variable [CryptoCore]

/- What a frame would tell the room, were it new here. -/
def tells
    (s : Node η)
    (frame : Bytes) :
    Option (Room.Event η) :=
  (Router.opened Room.delegate frame s).bind Room.eventOf

/- The message that comes in with an event. -/
def messageAt (s : Node η) : Event η → Option Message
| .frame frame rx wall =>
    (tells (hear s frame rx wall) frame).bind
      (Message.of frame)
| _ => none

/- The event brings this message, and it becomes a post. -/
def Posts (m : Message) (t : Turn η) : Prop :=
  messageAt t.before t.event = some m ∧ AddsPost t

instance (m : Message) (t : Turn η) :
    Decidable (Posts m t) := by
  unfold Posts AddsPost
  infer_instance

/-
  The router still knows the frame, or the room has reasons
  of its own not to post what is in it.
-/
def KeptOut (s : Node η) : Event η → Prop
| .frame frame rx wall =>
    ((tells (hear s frame rx wall) frame).bind
        s.1.postOf).isSome = true →
      s.2.alreadySeen frame = true
| _ => True

instance (s : Node η) (e : Event η) :
    Decidable (KeptOut s e) := by
  cases e <;> unfold KeptOut <;> infer_instance

/- What the room is told of is all that becomes a post. -/
theorem onFrame_draws_iff
    (frame : Bytes)
    (rx : RxMeta)
    (s : Node η) :
    (Router.onFrame Room.delegate frame rx s).1.nextSeq =
        s.1.nextSeq + 1 ↔
      ((tells s frame).bind s.1.postOf).isSome = true ∧
        s.2.alreadySeen frame = false := by
  have hQuiet :
      ∀ room' : Room η,
        room'.nextSeq = s.1.nextSeq →
          tells s frame = none →
            (room'.nextSeq = s.1.nextSeq + 1 ↔
              ((tells s frame).bind s.1.postOf).isSome =
                  true ∧
                s.2.alreadySeen frame = false) := by
    intro room' hSame hNothing
    rw [hSame, hNothing, Option.bind_none]
    refine iff_of_false (by simp) ?_
    rintro ⟨hPosted, -⟩
    contradiction
  rcases Router.onFrame_cases (D := Room.delegate) frame rx s
    with
    ⟨hSame, hParse | hSeen⟩ |
    ⟨hNew,
      ⟨hTaken, hNothing⟩ | ⟨p, r, -, -, hFrame⟩⟩
  · rw [hSame]
    refine hQuiet s.1 rfl ?_
    rw [tells, Router.opened, hParse]
    rfl
  · rw [hSame, hSeen]
    refine iff_of_false (by simp) ?_
    rintro ⟨-, hNot⟩
    contradiction
  · rw [hTaken]
    refine hQuiet s.1 rfl ?_
    rw [tells, hNothing]
    rfl
  · rw [hFrame, Router.considerForwarding_told]
    have hCarried :
        (Room.delegate.shouldForward
            (Router.told Room.delegate s.1
              (Router.opened Room.delegate frame s, r)).1
            p).2.nextSeq =
          (Router.told Room.delegate s.1
            (Router.opened Room.delegate frame s,
              r)).1.nextSeq := by
      have hBoard := (Room.shouldForward_changes
        (Router.told Room.delegate s.1
          (Router.opened Room.delegate frame s, r)).1 p).board
      cases hBoard with
      | same _ hSeq => exact hSeq
      | cleared _ hSeq => exact hSeq
    rw [hCarried, tells, and_iff_left hNew]
    apply Router.told_room
      (P := fun room' : Room η =>
        room'.nextSeq = s.1.nextSeq + 1 ↔
          (((Router.opened Room.delegate frame s).bind
            Room.eventOf).bind s.1.postOf).isSome = true)
    · intro hNothing
      rw [hNothing]
      exact iff_of_false (by simp) Bool.false_ne_true
    · intro e hTold
      rw [hTold, Option.bind_some]
      refine (s.1.perform_ensures e ?_).mono
        (fun _ _ => trivial)
        fun room' hChanges => hChanges.board.draws_iff
      -- routing never hands an upcall on as a tick
      rintro now rfl
      rcases Option.bind_eq_some_iff.mp hTold with
        ⟨u, -, hIs⟩
      cases u <;> simp [Room.eventOf] at hIs

/- A message that is not kept out becomes a post. -/
theorem posts_iff
    {m : Message} {t : Turn η}
    (hStep : Step t.before t.event t.after) :
    Posts m t ↔
      messageAt t.before t.event = some m ∧
        ¬ KeptOut t.before t.event := by
  unfold Posts AddsPost
  refine and_congr_right fun hMessage => ?_
  rw [← show apply t.before t.event = t.after from hStep]
  cases hEvent : t.event with
  | frame frame rx wall =>
      have hDraws :=
        onFrame_draws_iff frame rx
          (hear t.before frame rx wall)
      simp only [KeptOut, Classical.not_imp,
        Bool.not_eq_true]
      exact hDraws
  | _ =>
      rw [hEvent] at hMessage
      contradiction

/-
  No message is posted twice exactly if each is kept out
  whenever it comes again after it was posted.
-/
theorem posted_once_iff
    {start s : Node η} {ts : List (Turn η)}
    (hRun : Run Step start ts s)
    (m : Message) :
    (ts.Pairwise fun u t => ¬ (Posts m u ∧ Posts m t)) ↔
      ts.Pairwise fun u t =>
        Posts m u →
          messageAt t.before t.event = some m →
            KeptOut t.before t.event := by
  refine List.Pairwise.iff_of_mem fun {u t} _ ht => ?_
  rw [posts_iff (hRun.step_of_mem ht), not_and,
    imp_congr_right fun _ => not_and_not_right]

end Steps

section Example

open Sample

/- A room that guests may post in, and a router started. -/
def postingRoom : Node Unit :=
  (quietRoom, .ofByte 2)

def guestLogin : Event Unit :=
  .frame
    (frameOf
      (crowdPacket 0 .anonReq (2 :: (crowdKey 0).toList)
        (writeUint32 1 ++ writeUint32 0 ++ ascii "g")))
    {} 0

/- The same text each time, sent as one of four attempts. -/
def attempt (n : UInt8) : Event Unit :=
  .frame
    (frameOf
      (crowdEnvelope 0 .txtMsg ([1, 0, 0, 0, n] ++ ascii "H")))
    {} 0

def saidOnce : Message :=
  .stamped (crowdKey 0) 1 (ascii "H")

/- A frame that comes again soon is kept out. -/
theorem frame_heard_twice_is_posted_once :
    (replay apply postingRoom
        [guestLogin, attempt 0, attempt 0]).Pairwise
      fun u t => ¬ (Posts saidOnce u ∧ Posts saidOnce t) :=
  (posted_once_iff (run_replay apply postingRoom _)
    saidOnce).mpr (by decide +kernel)

/- The next attempt at it is another frame, and a new post. -/
theorem next_attempt_is_posted_again :
    ¬ ∀ {start s : Node Unit} {ts : List (Turn Unit)},
        Run Step start ts s →
          ∀ m,
            ts.Pairwise fun u t =>
              ¬ (Posts m u ∧ Posts m t) := by
  intro hAll
  have hOnce :=
    hAll
      (run_replay apply postingRoom
        [guestLogin, attempt 0, attempt 1])
      saidOnce
  revert hOnce
  decide +kernel

end Example

end Node

end MeshCore
