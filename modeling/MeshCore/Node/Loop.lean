import MeshCore.Identity.Receiver
import MeshCore.Room.Restart
import MeshCore.Routing.Upcall

/-
  A node as its main loop runs it: a room, and the router
  that delivers to it and sends for it. A frame is looked at
  as an advert first, and then routed; the turns of the loop
  set the clocks and the load, and let both go on.

  Key definitions include:
    * `Node`
    * `Node.Event`, `Node.apply`
    * `Node.Takes`, `Node.delivered`
    * `Room.eventOf`

  Key facts include:
    * `Router.told_room`
    * `Node.onFrame_of_taken`
-/

namespace MeshCore

abbrev Node (η : Type) :=
  Room η × Router

------------------------------------------------------------
-- Events
------------------------------------------------------------

namespace Node

variable {η : Type}

/- What the main loop does, and what it is interrupted by. -/
inductive Event (η : Type) where
| frame (frame : Bytes) (rx : RxMeta) (wall : UInt32)
| routing (now : Millis)
| serverTime (unixSeconds : UInt32)
| radioLoad (permille : UInt32)
| board (now : Millis)
| advert (payload : Bytes)
| host (host : η)

section Steps

variable [CryptoCore]

/- A frame is looked at as an advert before it is routed. -/
def hear
    (s : Node η)
    (frame : Bytes)
    (rx : RxMeta)
    (wall : UInt32) :
    Node η :=
  (s.1,
    { s.2 with
      store :=
        Receiver.rememberIfAdvert s.2.store
          { frame := frame, wall := wall, snr := rx.snr } })

def apply (s : Node η) : Event η → Node η
| .frame frame rx wall =>
    Router.onFrame Room.delegate frame rx
      (hear s frame rx wall)
| .routing now => Router.tick Room.delegate now s
| .serverTime unixSeconds =>
    (s.1.setServerTime unixSeconds, s.2)
| .radioLoad permille => (s.1.setRadioLoad permille, s.2)
| .board now => (s.1.tick now).run Router.sender s.2
| .advert payload => (s.1, s.2.sendFlood .advert payload)
| .host host => ({ s.1 with host := host }, s.2)

def Step (s : Node η) (e : Event η) (s' : Node η) : Prop :=
  apply s e = s'

/- One step of a run of a node. -/
abbrev Turn (η : Type) :=
  Transition (Node η) (Event η)

/- An advert does not change who we are. -/
@[simp] theorem selfHash_hear
    (s : Node η)
    (frame : Bytes)
    (rx : RxMeta)
    (wall : UInt32) :
    (hear s frame rx wall).2.store.selfHash =
      s.2.store.selfHash := by
  rcases Receiver.rememberIfAdvert_eq s.2.store
      { frame := frame, wall := wall, snr := rx.snr } with
    ⟨contacts, buckets, hEq⟩
  simp only [hear, hEq]
  rfl

/- The node once a packet is delivered to it. -/
def delivered
    (s : Node η)
    (frame : Bytes)
    (p : Packet) :
    Node η :=
  Router.dispatch Room.delegate p (s.1, s.2.takeIn frame)

/- A frame that is new here, and is not our own flood. -/
def Takes
    (s : Node η)
    (frame : Bytes)
    (p : Packet) :
    Prop :=
  parse frame = some p ∧
    s.2.alreadySeen frame = false ∧
    Router.isOwnEcho p s.2.store.selfHash = false

instance (s : Node η) (frame : Bytes) (p : Packet) :
    Decidable (Takes s frame p) := by
  unfold Takes
  infer_instance

/- A frame that is taken is delivered, and then considered. -/
theorem onFrame_of_taken
    {s : Node η} {frame : Bytes} {p : Packet}
    (hTakes : Takes s frame p)
    (rx : RxMeta) :
    Router.onFrame Room.delegate frame rx s =
      Router.considerForwarding Room.delegate p rx
        (delivered s frame p) := by
  rcases hTakes with ⟨hParse, hNew, hOther⟩
  have hEcho :
      Router.isOwnEcho p
        (s.2.takeIn frame).store.selfHash = false :=
    hOther
  simp [Router.onFrame, hParse, hNew, hEcho, delivered]

/-
  A frame that is not taken is remembered at most, and what
  it may hold is told to nobody.
-/
theorem onFrame_of_not_taken
    {s : Node η} {frame : Bytes}
    (hNot : ∀ p, ¬ Takes s frame p)
    (rx : RxMeta) :
    (Router.onFrame Room.delegate frame rx s = s ∨
        Router.onFrame Room.delegate frame rx s =
          (s.1, s.2.takeIn frame)) ∧
      (s.2.alreadySeen frame = true ∨
        Router.opened Room.delegate frame s = none) := by
  cases hParse : parse frame with
  | none =>
      exact ⟨.inl (by simp [Router.onFrame, hParse]),
        .inr (by simp [Router.opened, hParse])⟩
  | some p =>
      cases hSeen : s.2.alreadySeen frame with
      | true =>
          exact ⟨.inl (by
            simp [Router.onFrame, hParse, hSeen]), .inl rfl⟩
      | false =>
          have hEcho :
              Router.isOwnEcho p s.2.store.selfHash =
                true := by
            rw [← Bool.not_eq_false]
            intro hOther
            exact hNot p ⟨hParse, hSeen, hOther⟩
          have hTaken :
              Router.isOwnEcho p
                (s.2.takeIn frame).store.selfHash = true :=
            hEcho
          constructor
          · right
            simp [Router.onFrame, hParse, hSeen, hTaken]
          · right
            simp [Router.opened, hParse, hEcho]

end Steps

end Node

------------------------------------------------------------
-- What The Room Is Told
------------------------------------------------------------

/- What an upcall is to a room; it takes no traces. -/
def Room.eventOf {η : Type} : Upcall → Option (Room.Event η)
| .payload contact type plain =>
    some (.payload contact type plain)
| .anon peer plain => some (.anon peer plain)
| .group type payload => some (.group type payload)
| .trace _ _ => none
| .acked entry => some (.ack entry.id)

namespace Router

variable {η : Type} [CryptoCore]

/- What is ensured of an event holds of the room told it. -/
theorem told_room
    {room : Room η}
    {P : Room η → Prop}
    (u : Option Upcall)
    (r : Router)
    (hSame :
      (u.bind Room.eventOf : Option (Room.Event η)) = none →
        P room)
    (hEvent :
      ∀ e : Room.Event η,
        u.bind Room.eventOf = some e →
          (room.perform e).Ensures (fun _ => True) P) :
    P (told Room.delegate room (u, r)).1 := by
  have hRun :
      ∀ e : Room.Event η,
        u.bind Room.eventOf = some e →
          P ((room.perform e).run sender r).1 :=
    fun e he =>
      ((hEvent e he).exec (Program.run_exec sender _ r)).2
  cases u with
  | none => exact hSame rfl
  | some u =>
      cases u with
      | payload contact type plain =>
          have hHere := hRun _ rfl
          simp only [told, answer, acknowledge]
          split <;> exact hHere
      | anon peer plain => exact hRun _ rfl
      | group type payload => exact hRun _ rfl
      | trace trace path => exact hSame rfl
      | acked entry => exact hRun _ rfl

end Router

end MeshCore
