import Mathlib.Data.Fintype.Basic
import MeshCore.Routing.Lineage

/-
  Nodes in a row, each of which hears its neighbours only:
  what the copies of one packet look like at each of them,
  whatever else is going on.

  A flood that starts at one end has at every node the
  hashes of the nodes before it and its own, and a direct
  packet that is to go the whole way has the hashes of the
  repeaters that are still to come.

  Key definitions include:
    * `Network.Chain`, `Network.Chain.reversed`
    * `Network.Chain.repeaters`
    * `Network.SentOnlyBy`

  Key facts include:
    * `Network.forall_of_run`
    * `Network.Chain.copy_of_from`
    * `Network.Chain.flood_path`
    * `Network.Chain.direct_path`
-/

namespace MeshCore

namespace Network

variable {ι δ : Type}
variable {hears : ι → ι → Prop} {D : ι → Delegate δ}

------------------------------------------------------------
-- What Every Node Keeps
------------------------------------------------------------

section Keeping

variable [DecidableEq ι] [CryptoCore]

/- What every event keeps at its node, every run keeps. -/
theorem forall_of_run
    {P : ι → δ × Router → Prop}
    {start s : Network ι δ}
    {ts : List (Transition (Network ι δ) (Event ι δ))}
    (hRun : Run (Step hears D) start ts s)
    (hStart : ∀ node, P node (start node))
    (hKeep :
      ∀ node e s, P node s →
        P node (Router.apply (D node) s e))
    (node : ι) :
    P node (s node) := by
  apply hRun.invariant
    (I := fun s => ∀ node, P node (s node)) hStart
  intro s e s' hHere hStep node
  rw [hStep.after_eq node]
  by_cases hNode : node = e.node
  · rw [if_pos hNode, hNode]
    exact hKeep e.node e.seen _ (hHere e.node)
  · rw [if_neg hNode]
    exact hHere node

/- A node keeps its keys. -/
theorem keys_of_run
    {start s : Network ι δ}
    {ts : List (Transition (Network ι δ) (Event ι δ))}
    (hRun : Run (Step hears D) start ts s)
    (node : ι) :
    (s node).2.store.selfPk =
        (start node).2.store.selfPk ∧
      (s node).2.store.selfSk =
        (start node).2.store.selfSk := by
  apply forall_of_run
    (P := fun node s =>
      s.2.store.selfPk = (start node).2.store.selfPk ∧
        s.2.store.selfSk = (start node).2.store.selfSk)
    hRun
  · exact fun node => ⟨rfl, rfl⟩
  · intro node e s hKeys
    rcases Router.apply_does (D := D node) e s with
      ⟨acts, hDoes⟩
    exact ⟨hDoes.selfPk.trans hKeys.1,
      hDoes.selfSk.trans hKeys.2⟩

theorem selfHash_of_run
    {start s : Network ι δ}
    {ts : List (Transition (Network ι δ) (Event ι δ))}
    (hRun : Run (Step hears D) start ts s)
    (node : ι) :
    (s node).2.store.selfHash =
      (start node).2.store.selfHash := by
  rw [Store.selfHash, (keys_of_run hRun node).1]
  rfl

end Keeping

------------------------------------------------------------
-- Chains
------------------------------------------------------------

/-
  All nodes in a row, with `n` of them between the two at
  the ends, and every one hears just those beside it.
-/
structure Chain (hears : ι → ι → Prop) (n : Nat) where
  node : Nat → ι
  onChain : ∀ a, ∃ i, i ≤ n + 1 ∧ node i = a
  hears_iff :
    ∀ i j, i ≤ n + 1 → j ≤ n + 1 →
      (hears (node i) (node j) ↔ i + 1 = j ∨ j + 1 = i)

namespace Chain

variable {n : Nat}

def near (c : Chain hears n) : ι :=
  c.node 0

def far (c : Chain hears n) : ι :=
  c.node (n + 1)

/- The same chain from its other end. -/
def reversed (c : Chain hears n) : Chain hears n where
  node i := c.node (n + 1 - i)
  onChain := by
    intro a
    rcases c.onChain a with ⟨i, hi, hNode⟩
    refine ⟨n + 1 - i, by omega, ?_⟩
    rw [Nat.sub_sub_self hi]
    exact hNode
  hears_iff := by
    intro i j hi hj
    rw [c.hears_iff _ _ (by omega) (by omega)]
    omega

/- The first nodes behind the near end. -/
def first (c : Chain hears n) (i : Nat) : List ι :=
  (List.range i).map fun k => c.node (k + 1)

def repeaters (c : Chain hears n) : List ι :=
  c.first n

theorem first_succ (c : Chain hears n) (i : Nat) :
    c.first (i + 1) = c.first i ++ [c.node (i + 1)] := by
  rw [first, List.range_succ, List.map_append]
  rfl

theorem reversed_far (c : Chain hears n) :
    c.reversed.far = c.near := by
  simp [far, near, reversed]

theorem reversed_repeaters (c : Chain hears n) :
    c.reversed.repeaters = c.repeaters.reverse := by
  apply List.ext_getElem
  · simp [repeaters, first]
  · intro k hLeft hRight
    simp only [repeaters, first, List.length_map,
      List.length_range] at hLeft
    simp only [repeaters, first, reversed,
      List.getElem_map, List.getElem_range,
      List.getElem_reverse, List.length_map,
      List.length_range]
    congr 1
    omega

/- The byte that a node goes by. -/
def hash
    (c : Chain hears n)
    (s : Network ι δ)
    (i : Nat) :
    UInt8 :=
  (s (c.node i)).2.store.selfHash

/- No two nodes go by one byte. -/
def Distinct (c : Chain hears n) (s : Network ι δ) : Prop :=
  ∀ i j, i ≤ n + 1 → j ≤ n + 1 →
    c.hash s i = c.hash s j → i = j

theorem Distinct.reversed
    {c : Chain hears n} {s : Network ι δ}
    (hDistinct : c.Distinct s) :
    c.reversed.Distinct s := by
  intro i j hi hj hHash
  have hEq :=
    hDistinct (n + 1 - i) (n + 1 - j) (by omega) (by omega)
      hHash
  omega

theorem Distinct.node_eq
    {c : Chain hears n} {s : Network ι δ}
    (hDistinct : c.Distinct s)
    {i j : Nat}
    (hi : i ≤ n + 1)
    (hj : j ≤ n + 1)
    (hNode : c.node i = c.node j) :
    i = j := by
  apply hDistinct i j hi hj
  rw [hash, hash, hNode]

/- The hashes of the first nodes, in their order. -/
def hashes
    (c : Chain hears n)
    (s : Network ι δ)
    (i : Nat) :
    Bytes :=
  hashesOf s (c.first i)

theorem hashes_eq
    (c : Chain hears n)
    (s : Network ι δ)
    (i : Nat) :
    c.hashes s i =
      (List.range i).map fun k => c.hash s (k + 1) := by
  rw [hashes, hashesOf, first, List.map_map]
  rfl

theorem length_hashes
    (c : Chain hears n)
    (s : Network ι δ)
    (i : Nat) :
    (c.hashes s i).length = i := by
  simp [hashes_eq]

theorem hashes_succ
    (c : Chain hears n)
    (s : Network ι δ)
    (i : Nat) :
    c.hashes s (i + 1) =
      c.hashes s i ++ [c.hash s (i + 1)] := by
  simp [hashes_eq, List.range_succ]

theorem mem_hashes
    (c : Chain hears n)
    (s : Network ι δ)
    {i j : Nat}
    (hj : j < i) :
    c.hash s (j + 1) ∈ c.hashes s i := by
  rw [hashes_eq]
  exact List.mem_map_of_mem (List.mem_range.mpr hj)

/- What is left of the way once `i` hops are gone. -/
theorem drop_hashes
    (c : Chain hears n)
    (s : Network ι δ)
    {i : Nat}
    (hi : i < n) :
    (c.hashes s n).drop i =
      c.hash s (i + 1) :: (c.hashes s n).drop (i + 1) := by
  rw [List.drop_eq_getElem_cons (by rwa [length_hashes])]
  congr 1
  simp [hashes_eq]

theorem hashesOf_reversed
    (c : Chain hears n)
    (s : Network ι δ) :
    hashesOf s c.reversed.repeaters =
      (hashesOf s c.repeaters).reverse := by
  rw [reversed_repeaters, hashesOf, hashesOf,
    List.map_reverse]

end Chain

------------------------------------------------------------
-- The Copies Of One Packet
------------------------------------------------------------

/- Nobody else sends the packet, and it sends no other copy. -/
def SentOnlyBy
    (ts : List (Transition (Network ι δ) (Event ι δ)))
    (sender : ι)
    (orig : Bytes) :
    Prop :=
  ∀ t ∈ ts, ∀ node,
    ∀ frame ∈
        (actsOf t node).filterMap Router.originatedOf,
      IsCopyOf orig frame → node = sender ∧ frame = orig

instance
    [Fintype ι]
    [DecidableEq ι]
    (ts : List (Transition (Network ι δ) (Event ι δ)))
    (sender : ι)
    (orig : Bytes) :
    Decidable (SentOnlyBy ts sender orig) := by
  unfold SentOnlyBy
  infer_instance

theorem SentOnlyBy.of_append
    {ts us : List (Transition (Network ι δ) (Event ι δ))}
    {sender : ι} {orig : Bytes}
    (hSole : SentOnlyBy (ts ++ us) sender orig) :
    SentOnlyBy ts sender orig ∧
      SentOnlyBy us sender orig :=
  ⟨fun t ht => hSole t (List.mem_append_left _ ht),
    fun t ht => hSole t (List.mem_append_right _ ht)⟩

/- The copies of a packet that is no trace are alike. -/
theorem copy_eq
    {orig frame : Bytes} {p₀ p : Packet}
    (hCopy : IsCopyOf orig frame)
    (hOrig : parse orig = some p₀)
    (hParse : parse frame = some p)
    (hType : p₀.payloadType ≠ .trace) :
    p.header = p₀.header ∧ p.payload = p₀.payload := by
  simp only [IsCopyOf, hOrig, hParse, if_neg hType] at hCopy
  exact hCopy

namespace Chain

variable {n : Nat} [DecidableEq ι] [CryptoCore]

/-
  The induction over where copies come from: what holds of
  the frame that was sent, and of what a node makes of the
  frame of a neighbour, holds of every copy at every node.
-/
theorem copy_of_from
    {c : Chain hears n}
    {Q :
      List (Transition (Network ι δ) (Event ι δ)) →
        Nat → Bytes → Packet → Prop}
    {fresh s : Network ι δ}
    {ts : List (Transition (Network ι δ) (Event ι δ))}
    {orig : Bytes} {p₀ : Packet}
    (hFresh : Fresh fresh)
    (hRun : Run (Step hears D) fresh ts s)
    (hDistinct : c.Distinct fresh)
    (hOrig : parse orig = some p₀)
    (hType : p₀.payloadType ≠ .trace)
    (hSole : SentOnlyBy ts c.near orig)
    (hSent :
      ∀ (ts : List (Transition (Network ι δ) (Event ι δ))) t,
        (∃ errand : Errand, errand.frame = orig) →
          orig ∈
              (actsOf t c.near).filterMap
                Router.originatedOf →
            Q (ts ++ [t]) 0 orig p₀)
    (hForward :
      ∀ (ts : List (Transition (Network ι δ) (Event ι δ))) t
        i j rx frame out p q,
        i ≤ n + 1 → j ≤ n + 1 → i + 1 = j ∨ j + 1 = i →
          t.event =
              .deliver (c.node i) (c.node j) frame rx →
          .queued out ∈ actsOf t (c.node j) →
          p.header = p₀.header →
          Router.isOwnEcho p (c.hash fresh j) = false →
          Router.Onward p (c.hash fresh j) q →
          Q ts i frame p →
            Q (ts ++ [t]) j out q)
    (hLater :
      ∀ (ts : List (Transition (Network ι δ) (Event ι δ))) t
        i frame p,
        Q ts i frame p → Q (ts ++ [t]) i frame p)
    {i : Nat} {frame : Bytes} {p : Packet}
    (hi : i ≤ n + 1)
    (hFrom : (s (c.node i)).2.From frame)
    (hParse : parse frame = some p)
    (hCopy : IsCopyOf orig frame) :
    Q ts i frame p := by
  induction ts using List.reverseRecOn
    generalizing s i frame p with
  | nil =>
      have hStart := hRun.eq_of_nil
      rcases hFresh (c.node i) with
        ⟨store, entropy, config, hCreate⟩
      rw [hStart, Router.From, hCreate] at hFrom
      simp [Router.create] at hFrom
  | append_singleton ts t ih =>
      rcases hRun.split_last with ⟨hBefore, hStep, rfl⟩
      rw [Router.From, hStep.history_eq (c.node i),
        List.filterMap_append, List.mem_append,
        List.mem_append] at hFrom
      rcases hFrom with (hOld | hNew) | hOld | hNew
      · exact hLater _ _ _ _ _
          (ih hBefore hSole.of_append.1 hi (.inl hOld)
            hParse hCopy)
      · rcases hSole t (by simp) _ frame hNew hCopy with
          ⟨hNode, rfl⟩
        obtain rfl : i = 0 :=
          hDistinct.node_eq hi (Nat.zero_le _) hNode
        rw [hOrig, Option.some.injEq] at hParse
        rw [← hParse]
        rw [hNode] at hNew
        exact hSent ts t (hStep.errand_of_originated hNew)
          hNew
      · exact hLater _ _ _ _ _
          (ih hBefore hSole.of_append.1 hi (.inr hOld)
            hParse hCopy)
      · rcases hStep.deliver_of_queued hNew with
          ⟨src, heard, rx, hEvent, hAir, hQueued⟩
        rcases c.onChain src with ⟨k, hk, rfl⟩
        have hHears := hStep.1
        rw [hEvent] at hHears
        rcases Router.exists_parse_of_queued hQueued with
          ⟨p', hHeard⟩
        rcases (Router.forwarded_onFrame hHeard rx
            (t.before (c.node i))).1 frame hQueued with
          ⟨q, hOut, hOnward, -⟩
        rw [hParse, Option.some.injEq] at hOut
        subst hOut
        have hSelf :
            (t.before (c.node i)).2.store.selfHash =
              c.hash fresh i :=
          selfHash_of_run hBefore (c.node i)
        have hEcho :=
          Router.not_ownEcho_of_queued hHeard hQueued
        have hHeardCopy :=
          Router.isCopyOf_of_onward hHeard
            (Router.onwardFrame_of_queued hHeard rx _
              hQueued)
            (fun p hp => by
              rw [hOrig, Option.some.injEq] at hp
              rwa [← hp])
            hCopy
        rw [hSelf] at hEcho hOnward
        apply hForward ts t k i rx heard frame p' p hk hi
          ((c.hears_iff k i hk hi).mp hHears.1) hEvent hNew
          (copy_eq hHeardCopy hOrig hHeard hType).1 hEcho
          hOnward
        exact ih hBefore hSole.of_append.1 hk
          (from_of_onAir hFresh hBefore hAir) hHeard
          hHeardCopy

/-
  A flood that only the near end sends has, at every node
  that sends it on, the nodes so far on its path. Only the
  near end may have something else to send on: a copy that
  came back to it, with the first hop on its path.
-/
theorem flood_path
    {c : Chain hears n}
    {fresh s : Network ι δ}
    {ts : List (Transition (Network ι δ) (Event ι δ))}
    {orig : Bytes} {p₀ : Packet}
    (hFresh : Fresh fresh)
    (hRun : Run (Step hears D) fresh ts s)
    (hDistinct : c.Distinct fresh)
    (hOrig : parse orig = some p₀)
    (hFlood : p₀.routeType.isFlood = true)
    (hType : p₀.payloadType ≠ .trace)
    (hSole : SentOnlyBy ts c.near orig)
    {i : Nat} {frame : Bytes} {p : Packet}
    (hi : i ≤ n + 1)
    (hFrom : (s (c.node i)).2.From frame)
    (hParse : parse frame = some p)
    (hCopy : IsCopyOf orig frame) :
    p.path = c.hashes fresh i ∨
      i = 0 ∧ c.hash fresh 1 ∈ p.path := by
  apply copy_of_from
    (Q := fun _ i _ p =>
      p.path = c.hashes fresh i ∨
        i = 0 ∧ c.hash fresh 1 ∈ p.path)
    hFresh hRun hDistinct hOrig hType hSole ?_ ?_ ?_ hi hFrom
    hParse hCopy
  · rintro ts t ⟨errand, rfl⟩ hSent
    exact .inl (Router.flood_buildFrame hOrig hFlood).1
  · intro ts t i j rx frame out p q hi hj hBeside _ _ hHeader
      hEcho hOnward hHere
    have hSame : p.routeType.isFlood = true := by
      rw [Packet.routeType, hHeader]
      exact hFlood
    have hGrown := hOnward.path
    rw [if_pos hSame] at hGrown
    simp only [Router.isOwnEcho, hSame, true_and,
      decide_eq_false_iff_not] at hEcho
    cases j with
    | zero =>
        -- the near end is not on the path and takes it back
        obtain rfl : i = 1 := by omega
        refine .inr ⟨rfl, ?_⟩
        rcases hHere with hHere | ⟨hZero, -⟩
        · rw [hGrown, hHere]
          exact List.mem_append_left _
            (c.mem_hashes fresh (by omega))
        · omega
    | succ j =>
        refine .inl ?_
        rcases hBeside with hNext | hBack
        · obtain rfl : i = j := by omega
          rcases hHere with hHere | ⟨rfl, hMem⟩
          · rw [hGrown, hHere, c.hashes_succ]
          · exact absurd hMem hEcho
        · -- whoever is ahead has us on its path
          rcases hHere with hHere | ⟨rfl, -⟩
          · rw [hHere] at hEcho
            exact absurd (c.mem_hashes fresh (by omega))
              hEcho
          · omega
  · exact fun ts t i frame p hHere => hHere

/-
  A direct packet that only the near end sends, and sends
  the whole way, has at every node the repeaters that are
  still to come on its path, and has come by those before.
-/
theorem direct_path
    {c : Chain hears n}
    {fresh s : Network ι δ}
    {ts : List (Transition (Network ι δ) (Event ι δ))}
    {orig : Bytes} {p₀ : Packet}
    (hFresh : Fresh fresh)
    (hRun : Run (Step hears D) fresh ts s)
    (hDistinct : c.Distinct fresh)
    (hOrig : parse orig = some p₀)
    (hDirect : p₀.routeType.isFlood = false)
    (hType : p₀.payloadType ≠ .trace)
    (hSize : p₀.hashSize = UInt8.ofNat nodeHashSize)
    (hPath : p₀.path = c.hashes fresh n)
    (hSole : SentOnlyBy ts c.near orig)
    {i : Nat} {frame : Bytes} {p : Packet}
    (hi : i ≤ n + 1)
    (hFrom : (s (c.node i)).2.From frame)
    (hParse : parse frame = some p)
    (hCopy : IsCopyOf orig frame) :
    i ≤ n ∧
      p.hashSize = UInt8.ofNat nodeHashSize ∧
      p.path = (c.hashes fresh n).drop i ∧
      Lineage ts frame (c.first i) := by
  apply copy_of_from
    (Q := fun ts i frame p =>
      i ≤ n ∧
        p.hashSize = UInt8.ofNat nodeHashSize ∧
        p.path = (c.hashes fresh n).drop i ∧
        Lineage ts frame (c.first i))
    hFresh hRun hDistinct hOrig hType hSole ?_ ?_ ?_ hi hFrom
    hParse hCopy
  · exact fun ts t _ hSent =>
      ⟨Nat.zero_le _, hSize, hPath, .originated hSent⟩
  · intro ts t i j rx frame out p q hi hj _ hEvent hQueued
      hHeader _ hOnward hHere
    rcases hHere with ⟨hLe, hOneByte, hHops, hLineage⟩
    have hSame : p.routeType.isFlood = false := by
      rw [Packet.routeType, hHeader]
      exact hDirect
    have hStripped := hOnward.path
    rw [if_neg (by simp [hSame]), hHops] at hStripped
    have hMore : i < n := by
      by_contra hEnd
      rw [List.drop_of_length_le (by
        rw [length_hashes]
        omega)] at hStripped
      contradiction
    rw [c.drop_hashes fresh hMore,
      List.cons.injEq] at hStripped
    -- only the next hop can drop itself from the path
    obtain rfl : i + 1 = j :=
      hDistinct _ _ (by omega) hj hStripped.1
    refine ⟨hMore, ?_, hStripped.2.symm, ?_⟩
    · rw [hOnward.hashSize]
      exact hOneByte
    · rw [c.first_succ]
      exact .forwarded hEvent hQueued hLineage
  · intro ts t i frame p hHere
    exact ⟨hHere.1, hHere.2.1, hHere.2.2.1, .later hHere.2.2.2⟩

end Chain

end Network

end MeshCore
