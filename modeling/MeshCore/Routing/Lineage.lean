import MeshCore.Routing.Framing
import MeshCore.Routing.Network

/-
  Where the flood frames of a network come from: every one
  of them was sent by some node and then repeated by one
  node after another, and its path is the list of those.

  Key definitions include:
    * `Network.OpenStep`
    * `Network.Lineage`
    * `Network.Simple`

  Key facts include:
    * `Network.Lineage.simple`
    * `Network.lineage_of_from`
    * `Network.flood_path_is_simple`
-/

namespace MeshCore

namespace Network

section Flood

variable {ι δ : Type} [DecidableEq ι] [CryptoCore]
variable {hears : ι → ι → Prop} {D : ι → Delegate δ}

------------------------------------------------------------
-- One Transition
------------------------------------------------------------

/- What a node did in a transition. -/
def actsOf
    (t : Transition (Network ι δ) (Event ι δ))
    (node : ι) :
    List Act :=
  (t.before node).2.actsSince (t.after node).2

/- A network that also hears what none of its nodes sent. -/
def OpenStep
    (D : ι → Delegate δ)
    (s : Network ι δ)
    (e : Event ι δ)
    (s' : Network ι δ) :
    Prop :=
  next D s e = s'

theorem Step.toOpen
    {s s' : Network ι δ} {e : Event ι δ}
    (hStep : Step hears D s e s') :
    OpenStep D s e s' :=
  hStep.2

/- The node of the event acts as a router; the rest wait. -/
theorem OpenStep.after_eq
    {s s' : Network ι δ} {e : Event ι δ}
    (hStep : OpenStep D s e s')
    (node : ι) :
    s' node =
      if node = e.node then
        Router.apply (D e.node) (s e.node) e.seen
      else s node := by
  rw [← show next D s e = s' from hStep, next]
  by_cases hNode : node = e.node
  · rw [if_pos hNode, hNode, Function.update_self]
  · rw [if_neg hNode, Function.update_of_ne hNode]

theorem Step.after_eq
    {s s' : Network ι δ} {e : Event ι δ}
    (hStep : Step hears D s e s')
    (node : ι) :
    s' node =
      if node = e.node then
        Router.apply (D e.node) (s e.node) e.seen
      else s node :=
  hStep.toOpen.after_eq node

theorem OpenStep.selfHash_eq
    {s s' : Network ι δ} {e : Event ι δ}
    (hStep : OpenStep D s e s')
    (node : ι) :
    (s' node).2.store.selfHash =
      (s node).2.store.selfHash := by
  rw [hStep.after_eq node]
  by_cases hNode : node = e.node
  · rw [if_pos hNode, hNode]
    rcases Router.apply_does (D := D e.node) e.seen
        (s e.node) with
      ⟨acts, hDoes⟩
    exact hDoes.selfHash
  · rw [if_neg hNode]

/- Who does something is who the event happens at. -/
theorem OpenStep.node_of_act
    {t : Transition (Network ι δ) (Event ι δ)}
    (hStep : OpenStep D t.before t.event t.after)
    {node : ι} {a : Act}
    (hAct : a ∈ actsOf t node) :
    node = t.event.node ∧
      t.after node =
        Router.apply (D node) (t.before node)
          t.event.seen := by
  have hAfter := hStep.after_eq node
  by_cases hNode : node = t.event.node
  · rw [if_pos hNode, ← hNode] at hAfter
    exact ⟨hNode, hAfter⟩
  · rw [if_neg hNode] at hAfter
    rw [actsOf, hAfter] at hAct
    simp [Router.actsSince] at hAct

theorem Step.node_of_act
    {t : Transition (Network ι δ) (Event ι δ)}
    (hStep : Step hears D t.before t.event t.after)
    {node : ι} {a : Act}
    (hAct : a ∈ actsOf t node) :
    node = t.event.node ∧
      t.after node =
        Router.apply (D node) (t.before node)
          t.event.seen :=
  hStep.toOpen.node_of_act hAct

/- A frame is only ever queued when one is delivered. -/
theorem OpenStep.deliver_of_queued
    {t : Transition (Network ι δ) (Event ι δ)}
    (hStep : OpenStep D t.before t.event t.after)
    {node : ι} {out : Bytes}
    (hQueued : .queued out ∈ actsOf t node) :
    ∃ src frame rx,
      t.event = .deliver src node frame rx ∧
      .queued out ∈
        (t.before node).2.actsSince
          (Router.onFrame (D node) frame rx
            (t.before node)).2 := by
  rcases hStep.node_of_act hQueued with ⟨hNode, hAfter⟩
  rw [actsOf, hAfter] at hQueued
  cases hEvent : t.event with
  | deliver src dst frame rx =>
      rw [hEvent] at hNode hQueued
      obtain rfl : node = dst := hNode
      exact ⟨src, frame, rx, rfl, hQueued⟩
  | tick other now =>
      rw [hEvent] at hQueued
      rcases Router.tick_does (D := D node) now
          (t.before node).1 (t.before node).2 with
        ⟨acts, hDoes, hRelease⟩
      have hActs :
          (t.before node).2.actsSince
              (Router.tick (D node) now
                (t.before node)).2 =
            acts :=
        hDoes.actsSince
      rw [Event.seen, Router.apply, hActs] at hQueued
      exact absurd (hRelease _ hQueued) id
  | above other task =>
      rw [hEvent] at hQueued
      rcases Router.run_does (task (t.before node).1)
          (t.before node).2 with
        ⟨acts, hDoes, hSend⟩
      rw [Event.seen, Router.apply,
        hDoes.actsSince] at hQueued
      exact absurd (hSend _ hQueued) id

/- And what a closed network hears was in its air. -/
theorem Step.deliver_of_queued
    {t : Transition (Network ι δ) (Event ι δ)}
    (hStep : Step hears D t.before t.event t.after)
    {node : ι} {out : Bytes}
    (hQueued : .queued out ∈ actsOf t node) :
    ∃ src frame rx,
      t.event = .deliver src node frame rx ∧
      (t.before src).2.OnAir frame ∧
      .queued out ∈
        (t.before node).2.actsSince
          (Router.onFrame (D node) frame rx
            (t.before node)).2 := by
  rcases hStep.toOpen.deliver_of_queued hQueued with
    ⟨src, frame, rx, hEvent, hHeard⟩
  have hAllowed := hStep.1
  rw [hEvent] at hAllowed
  exact ⟨src, frame, rx, hEvent, hAllowed.2, hHeard⟩

------------------------------------------------------------
-- Lineage
------------------------------------------------------------

/-
  `Lineage ts frame nodes` holds when in `ts` somebody sent
  a packet that `nodes` repeated, one after the other, each
  one on hearing the frame of the one before it, and `frame`
  is what the last of them made of it.
-/
inductive Lineage :
    List (Transition (Network ι δ) (Event ι δ)) →
    Bytes →
    List ι →
    Prop where
| originated
    {ts : List (Transition (Network ι δ) (Event ι δ))}
    {t : Transition (Network ι δ) (Event ι δ)}
    {node : ι}
    {frame : Bytes}
    (hSent :
      frame ∈
        (actsOf t node).filterMap Router.originatedOf) :
    Lineage (ts ++ [t]) frame []
| forwarded
    {ts : List (Transition (Network ι δ) (Event ι δ))}
    {t : Transition (Network ι δ) (Event ι δ)}
    {src dst : ι}
    {frame out : Bytes}
    {rx : RxMeta}
    {nodes : List ι}
    (hEvent : t.event = .deliver src dst frame rx)
    (hQueued : .queued out ∈ actsOf t dst)
    (hFrame : Lineage ts frame nodes) :
    Lineage (ts ++ [t]) out (nodes ++ [dst])
| later
    {ts : List (Transition (Network ι δ) (Event ι δ))}
    {t : Transition (Network ι δ) (Event ι δ)}
    {frame : Bytes}
    {nodes : List ι}
    (hFrame : Lineage ts frame nodes) :
    Lineage (ts ++ [t]) frame nodes

/- The hashes of nodes, in their order. -/
def hashesOf (s : Network ι δ) (nodes : List ι) : Bytes :=
  nodes.map fun node => (s node).2.store.selfHash

theorem OpenStep.hashesOf_eq
    {s s' : Network ι δ} {e : Event ι δ}
    (hStep : OpenStep D s e s')
    (nodes : List ι) :
    hashesOf s' nodes = hashesOf s nodes := by
  unfold hashesOf
  congr 1
  funext node
  exact hStep.selfHash_eq node

/- A path that says who repeated the packet, each once. -/
structure Simple
    (s : Network ι δ)
    (nodes : List ι)
    (p : Packet) :
    Prop where
  hashSize : p.hashSize.toNat = nodeHashSize
  path : p.path = hashesOf s nodes
  nodup : p.path.Nodup

theorem Step.simple
    {s s' : Network ι δ} {e : Event ι δ}
    {nodes : List ι} {p : Packet}
    (hStep : Step hears D s e s')
    (hSimple : Simple s nodes p) :
    Simple s' nodes p :=
  ⟨hSimple.hashSize,
    by rw [hStep.toOpen.hashesOf_eq]; exact hSimple.path,
    hSimple.nodup⟩

/- What is sent is the frame of an errand. -/
theorem Step.errand_of_originated
    {t : Transition (Network ι δ) (Event ι δ)}
    (hStep : Step hears D t.before t.event t.after)
    {node : ι} {frame : Bytes}
    (hSent :
      frame ∈
        (actsOf t node).filterMap Router.originatedOf) :
    ∃ errand : Errand, errand.frame = frame := by
  rcases List.mem_filterMap.mp hSent with ⟨a, ha, -⟩
  rw [actsOf, (hStep.node_of_act ha).2,
    Router.originated_apply] at hSent
  rcases List.mem_map.mp hSent with ⟨errand, -, hErrand⟩
  exact ⟨errand, hErrand⟩

/- Whatever a flood has come through is on its path. -/
theorem Lineage.simple
    {fresh s : Network ι δ}
    {ts : List (Transition (Network ι δ) (Event ι δ))}
    {frame : Bytes} {nodes : List ι} {p : Packet}
    (hLineage : Lineage ts frame nodes)
    (hRun : Run (Step hears D) fresh ts s)
    (hParse : parse frame = some p)
    (hFlood : p.routeType.isFlood = true) :
    Simple s nodes p := by
  induction hLineage generalizing s p with
  | @originated ts t node frame hSent =>
      rcases hRun.split_last with ⟨-, hStep, -⟩
      rcases hStep.errand_of_originated hSent with
        ⟨errand, rfl⟩
      rcases Router.flood_buildFrame hParse hFlood with
        ⟨hPath, hSize⟩
      exact ⟨hSize, hPath, by simp [hPath]⟩
  | @forwarded ts t src dst frame out rx nodes hEvent hQueued
      hFrame ih =>
      rcases hRun.split_last with ⟨hBefore, hStep, rfl⟩
      rcases hStep.deliver_of_queued hQueued with
        ⟨src', frame', rx', hEvent', -, hQueued'⟩
      rw [hEvent, Event.deliver.injEq] at hEvent'
      rcases hEvent' with ⟨rfl, -, rfl, rfl⟩
      rcases Router.exists_parse_of_queued hQueued' with
        ⟨q, hHeard⟩
      rcases (Router.forwarded_onFrame hHeard rx
          (t.before dst)).1 out hQueued' with
        ⟨p', hOut, hOnward, -⟩
      rw [hParse, Option.some.injEq] at hOut
      subst hOut
      have hSame : q.routeType = p.routeType := by
        simp [Packet.routeType, hOnward.header]
      have hOld := ih hBefore hHeard (hSame ▸ hFlood)
      have hPath := hOnward.path
      rw [hSame, if_pos hFlood] at hPath
      have hNew :=
        Router.not_ownEcho_of_queued hHeard hQueued'
      simp only [Router.isOwnEcho, hSame, hFlood,
        true_and, decide_eq_false_iff_not] at hNew
      refine hStep.simple
        { hashSize := ?_
          path := ?_
          nodup := ?_ }
      · rw [hOnward.hashSize]
        exact hOld.hashSize
      · rw [hPath, hOld.path, hashesOf, hashesOf,
          List.map_append]
        rfl
      · rw [hPath, List.nodup_append]
        refine ⟨hOld.nodup, by simp, ?_⟩
        intro hash hHash other hOther hEq
        rw [List.mem_singleton] at hOther
        rw [hEq, hOther] at hHash
        exact hNew hHash
  | @later ts t frame nodes hFrame ih =>
      rcases hRun.split_last with ⟨hBefore, hStep, rfl⟩
      exact hStep.simple (ih hBefore hParse hFlood)

------------------------------------------------------------
-- Every Frame Has One
------------------------------------------------------------

/- Every node knows where its frames come from. -/
theorem sourced_of_run
    {fresh s : Network ι δ}
    {ts : List (Transition (Network ι δ) (Event ι δ))}
    (hFresh : Fresh fresh)
    (hRun : Run (Step hears D) fresh ts s) :
    ∀ node, (s node).2.Sourced := by
  apply hRun.invariant
    (I := fun s => ∀ node, (s node).2.Sourced)
  · intro node
    rcases hFresh node with
      ⟨store, entropy, config, hCreate⟩
    rw [hCreate]
    exact Router.sourced_create store entropy config
  · intro s e s' hSourced hStep node
    rw [hStep.after_eq node]
    by_cases hNode : node = e.node
    · rw [if_pos hNode]
      exact (hSourced e.node).apply e.seen
    · rw [if_neg hNode]
      exact hSourced node

/- What is in the air was sent or sent on from there. -/
theorem from_of_onAir
    {fresh s : Network ι δ}
    {ts : List (Transition (Network ι δ) (Event ι δ))}
    (hFresh : Fresh fresh)
    (hRun : Run (Step hears D) fresh ts s)
    {node : ι} {frame : Bytes}
    (hAir : (s node).2.OnAir frame) :
    (s node).2.From frame := by
  rcases hAir with ⟨priority, hHanded⟩
  apply (sourced_of_run hFresh hRun node).handed
  rw [List.mem_filterMap]
  exact ⟨_, hHanded, rfl⟩

/- The history of a node grows by what it does. -/
theorem Step.history_eq
    {t : Transition (Network ι δ) (Event ι δ)}
    (hStep : Step hears D t.before t.event t.after)
    (node : ι) :
    (t.after node).2.history =
      (t.before node).2.history ++ actsOf t node := by
  have hAfter := hStep.after_eq node
  by_cases hNode : node = t.event.node
  · rw [if_pos hNode, ← hNode] at hAfter
    rcases Router.apply_does (D := D node) t.event.seen
        (t.before node) with
      ⟨acts, hDoes⟩
    have hHistory := hDoes.history
    rw [← hAfter] at hHistory
    rw [actsOf, Router.actsSince, hHistory, List.drop_left]
  · rw [if_neg hNode] at hAfter
    rw [actsOf, hAfter, Router.actsSince, List.drop_length,
      List.append_nil]

/- Whatever a node sent or sent on has a lineage. -/
theorem lineage_of_from
    {fresh s : Network ι δ}
    {ts : List (Transition (Network ι δ) (Event ι δ))}
    (hFresh : Fresh fresh)
    (hRun : Run (Step hears D) fresh ts s)
    {node : ι} {frame : Bytes}
    (hFrom : (s node).2.From frame) :
    ∃ nodes, Lineage ts frame nodes := by
  induction ts using List.reverseRecOn
    generalizing s node frame with
  | nil =>
      have hStart := hRun.eq_of_nil
      rcases hFresh node with
        ⟨store, entropy, config, hCreate⟩
      rw [hStart, Router.From, hCreate] at hFrom
      simp [Router.create] at hFrom
  | append_singleton ts t ih =>
      rcases hRun.split_last with ⟨hBefore, hStep, rfl⟩
      have hOld :
          (t.before node).2.From frame →
            ∃ nodes, Lineage (ts ++ [t]) frame nodes := by
        intro hFrom
        rcases ih hBefore hFrom with ⟨nodes, hLineage⟩
        exact ⟨nodes, hLineage.later⟩
      rw [Router.From, hStep.history_eq node,
        List.filterMap_append, List.mem_append,
        List.mem_append] at hFrom
      rcases hFrom with (hSent | hSent) | hQueued | hQueued
      · exact hOld (.inl hSent)
      · exact ⟨[], .originated hSent⟩
      · exact hOld (.inr hQueued)
      · rcases hStep.deliver_of_queued hQueued with
          ⟨src, heard, rx, hEvent, hAir, -⟩
        rcases ih hBefore
            (from_of_onAir hFresh hBefore hAir) with
          ⟨nodes, hLineage⟩
        exact ⟨nodes ++ [node],
          hLineage.forwarded hEvent hQueued⟩

/-
  In every run of every network, a flood in the air was sent
  by somebody, and its path is, in order, the hashes of the
  nodes that repeated it since: no two of them alike, and no
  more of them than a path may have hops.
-/
theorem flood_path_is_simple
    {fresh s : Network ι δ}
    {ts : List (Transition (Network ι δ) (Event ι δ))}
    (hFresh : Fresh fresh)
    (hRun : Run (Step hears D) fresh ts s)
    {node : ι} {frame : Bytes} {p : Packet}
    (hAir : (s node).2.OnAir frame)
    (hParse : parse frame = some p)
    (hFlood : p.routeType.isFlood = true) :
    (∃ nodes, Lineage ts frame nodes) ∧
      ∀ nodes, Lineage ts frame nodes →
        Simple s nodes p ∧ nodes.length ≤ maxHopCount := by
  constructor
  · exact lineage_of_from hFresh hRun
      (from_of_onAir hFresh hRun hAir)
  · intro nodes hLineage
    have hSimple := hLineage.simple hRun hParse hFlood
    have hValid := parse_valid hParse
    have hLength := hValid.path_length
    rw [Packet.pathSize, hSimple.hashSize, nodeHashSize,
      Nat.mul_one, hSimple.path, hashesOf,
      List.length_map] at hLength
    refine ⟨hSimple, ?_⟩
    rw [hLength]
    exact hValid.hopCount_le

end Flood

section Example

open Sample

/- Channel text as the second of two nodes repeats it. -/
def repeatedText : Packet :=
  { header := headerOf .grpTxt .flood
    hashSize := 1
    hopCount := 1
    path := [2]
    payload := tracePayload }

theorem repeated_text_is_simple :
    let carriers := fun _ : Bool => Delegate.carrier
    let ts := replay (next carriers) pair textThere
    let s := textThere.foldl (next carriers) pair
    ∃ frame nodes,
      parse frame = some repeatedText ∧
        Lineage ts frame nodes ∧
        Simple s nodes repeatedText ∧
        nodes.length ≤ maxHopCount := by
  have hRun :
      Run (Step pairHears fun _ => .carrier) pair
        (replay (next fun _ => .carrier) pair textThere)
        (textThere.foldl (next fun _ => .carrier) pair) :=
    run_replay_of_guard _ _ _ (by decide +kernel)
  have hParse :
      parse
          ((serialize repeatedText maxPacketFrame).getD
            []) =
        some repeatedText := by
    decide +kernel
  have hAir :
      (textThere.foldl (next fun _ => .carrier)
        pair true).2.OnAir
          ((serialize repeatedText maxPacketFrame).getD
            []) := by
    decide +kernel
  rcases flood_path_is_simple (fun node => ⟨_, _, _, rfl⟩)
      hRun hAir hParse rfl with
    ⟨⟨nodes, hLineage⟩, hAll⟩
  exact ⟨_, nodes, hParse, hLineage, hAll nodes hLineage⟩

end Example

end Network

end MeshCore
