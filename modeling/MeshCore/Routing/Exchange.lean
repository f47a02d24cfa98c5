import MeshCore.Routing.Journey
import MeshCore.Routing.Peers

/-
  Flood once, then go direct: what a flooded message and the
  path that is returned for it leave behind at the two ends
  of a chain, and how a direct frame then gets from one end
  to the other.

  Key definitions include:
    * `Network.Holds`
    * `Network.Delivered`, `Network.Recognised`
    * `Network.Chain.Passes`, `Network.Chain.Ends`
    * `Network.Chain.Serves`

  Key facts include:
    * `Router.findRoute_apply_of_keeps`
    * `Network.Chain.path_of_delivered`
    * `Network.Chain.serves`
    * `Network.Chain.flood_then_direct`
-/

namespace MeshCore

------------------------------------------------------------
-- Routes That Last
------------------------------------------------------------

namespace Router

variable [CryptoCore]
variable {δ : Type} {D : Delegate δ}

/-
  The event teaches no other route than this one, and no
  send is given up in it.
-/
structure Keeps
    (D : Delegate δ)
    (route : Route)
    (s : δ × Router)
    (e : Event δ) :
    Prop where
  learns :
    ∀ heard ∈ installsAt D s e,
      heard.1 = route.dest ∧
        ∀ path ∈ heard.2, path = route.path
  givesUp :
    ∀ id, .failed id ∉ s.2.actsSince (apply D s e).2

/- Where nothing is given up, no route is forgotten. -/
theorem retryPending_routes
    (entries : List Pending)
    (d : δ)
    (r : Router) :
    ∃ acts,
      r.Does acts (retryPending D entries (d, r)).2.2 ∧
        ((retryPending D entries (d, r)).2.2.routes =
            r.routes ∨
          ∃ id, .failed id ∈ acts) := by
  apply retryPending_keeps
    (I := fun r' =>
      ∃ acts,
        r.Does acts r' ∧
          (r'.routes = r.routes ∨ ∃ id, .failed id ∈ acts))
  · rintro r' entry ⟨acts, hActs, -⟩
    exact ⟨_, hActs.trans (giveUp_does r' entry),
      .inr ⟨entry.id, by simp⟩⟩
  · rintro r' frame ⟨acts, hActs, hRoutes⟩
    refine ⟨_, hActs.trans (handToRadio_does r' _ _), ?_⟩
    rcases hRoutes with hSame | ⟨id, hFailed⟩
    · exact .inl hSame
    · exact .inr ⟨id, List.mem_append_left _ hFailed⟩
  · exact ⟨[], .refl r, .inl rfl⟩

theorem tick_routes_eq
    {now : Millis} {s : δ × Router}
    (hNone :
      ∀ id, .failed id ∉ s.2.actsSince (tick D now s).2) :
    (tick D now s).2.routes = s.2.routes := by
  rcases retryPending_routes (D := D)
      (drainQueue { s.2 with now := now }).pending s.1
      (drainQueue { s.2 with now := now }) with
    ⟨acts, hActs, hRoutes⟩
  have hDrained :
      (drainQueue { s.2 with now := now }).routes =
        s.2.routes := by
    rw [drainQueue_eq]
  rcases hRoutes with hSame | ⟨id, hFailed⟩
  · rw [← hDrained]
    exact hSame
  · refine absurd ?_ (hNone id)
    rw [tick_actsSince hActs]
    exact List.mem_append_right _ hFailed

omit [CryptoCore] in
/- Learning a route again leaves it as it is. -/
theorem findRoute_installAll_same
    {r : Router} {route : Route} {paths : List Bytes}
    (hKeyed : r.RoutesKeyed)
    (hFound : r.findRoute route.dest = some route)
    (hSame : ∀ path ∈ paths, path = route.path) :
    (r.installAll route.dest paths).findRoute route.dest =
      some route := by
  rcases List.eq_nil_or_concat paths with
    rfl | ⟨earlier, last, rfl⟩
  · exact hFound
  · have hLast : last = route.path :=
      hSame last (by simp)
    rw [List.concat_eq_append, findRoute_installAll hKeyed,
      hLast]

/- A route that an event keeps is there after it. -/
theorem findRoute_apply_of_keeps
    {s : δ × Router} {e : Event δ} {route : Route}
    (hKeyed : s.2.RoutesKeyed)
    (hFound : s.2.findRoute route.dest = some route)
    (hKeeps : Keeps D route s e) :
    (apply D s e).2.findRoute route.dest = some route := by
  cases e with
  | above task =>
      rw [apply, (run_routes _ s.2).findRoute_eq]
      exact hFound
  | tick now =>
      rw [apply, findRoute, tick_routes_eq hKeeps.givesUp]
      exact hFound
  | frame frame rx =>
      rw [apply, (onFrame_routes frame rx s).findRoute_eq]
      cases hHeard : installsAt D s (.frame frame rx) with
      | none => exact hFound
      | some heard =>
          rcases hKeeps.learns heard hHeard with
            ⟨hDest, hSame⟩
          rcases heard with ⟨peer, paths⟩
          obtain rfl : peer = route.dest := hDest
          exact findRoute_installAll_same hKeyed hFound hSame

end Router

------------------------------------------------------------
-- The Two Ends
------------------------------------------------------------

namespace Network

variable {ι δ : Type} [DecidableEq ι] [CryptoCore]

/-
  From now on the node holds the route, for as long as it
  is taught no other and gives no send up.
-/
def Holds
    (hears : ι → ι → Prop)
    (D : ι → Delegate δ)
    (s : Network ι δ)
    (node : ι)
    (route : Route) :
    Prop :=
  ∀ ts s',
    Run (Step hears D) s ts s' →
    (∀ t ∈ ts, t.event.node = node →
      Router.Keeps (D node) route (t.before node)
        t.event.seen) →
      (s' node).2.findRoute route.dest = some route

/- Two nodes derive one secret, and cache no other. -/
structure Share
    (s : Network ι δ)
    (a b : ι)
    (secret : SharedSecret) :
    Prop where
  there :
    CryptoCore.deriveShared (s a).2.store.selfSk
        (s b).2.store.selfPk =
      some secret
  back :
    CryptoCore.deriveShared (s b).2.store.selfSk
        (s a).2.store.selfPk =
      some secret
  thereCached : (s a).2.store.CachesSecrets
  backCached : (s b).2.store.CachesSecrets

omit [DecidableEq ι] in
theorem Share.symm
    {s : Network ι δ} {a b : ι} {secret : SharedSecret}
    (hShare : Share s a b secret) :
    Share s b a secret :=
  ⟨hShare.back, hShare.there, hShare.backCached,
    hShare.thereCached⟩

/- A node hands a message of a peer to the layer above. -/
structure Delivered
    (D : ι → Delegate δ)
    (t : Transition (Network ι δ) (Event ι δ))
    (dst : ι)
    (frame : Bytes)
    (peer : PublicKey)
    (type : PayloadType)
    (plain : Bytes) :
    Prop where
  event : ∃ src rx, t.event = .deliver src dst frame rx
  new : (t.before dst).2.alreadySeen frame = false
  told :
    ∃ contact,
      contact.pk = peer ∧
      Router.opened (D dst) frame (t.before dst) =
        some (.payload contact type plain)

/- The packet is known for the peer's wherever it comes. -/
def Recognised
    (D : ι → Delegate δ)
    (ts : List (Transition (Network ι δ) (Event ι δ)))
    (dst : ι)
    (peer : PublicKey)
    (orig : Bytes) :
    Prop :=
  ∀ t ∈ ts, ∀ src frame rx p,
    t.event = .deliver src dst frame rx →
    IsCopyOf orig frame →
    parse frame = some p →
      Router.Recognises (D dst) peer p.payload (t.before dst)

instance
    (D : ι → Delegate δ)
    (ts : List (Transition (Network ι δ) (Event ι δ)))
    (dst : ι)
    (peer : PublicKey)
    (orig : Bytes) :
    Decidable (Recognised D ts dst peer orig) :=
  decidable_of_iff
    (∀ t ∈ ts, ∀ place ∈ t.event.heard,
      place.2.1 = dst →
      IsCopyOf orig place.2.2 →
      ∀ p ∈ parse place.2.2,
        Router.Recognises (D dst) peer p.payload
          (t.before dst))
    ⟨by
      intro hAll t ht src frame rx p hEvent hCopy hParse
      exact hAll t ht _
        (Event.heard_eq_some.mpr ⟨rx, hEvent⟩) rfl hCopy p
        hParse,
    by
      rintro hAll t ht ⟨src, dst, frame⟩ hPlace rfl hCopy p
        hParse
      rcases Event.heard_eq_some.mp hPlace with
        ⟨rx, hEvent⟩
      exact hAll t ht src frame rx p hEvent hCopy hParse⟩

variable {hears : ι → ι → Prop} {D : ι → Delegate δ}

/- In a network every table has one route for each peer. -/
theorem routesKeyed_of_run
    {fresh s : Network ι δ}
    {ts : List (Transition (Network ι δ) (Event ι δ))}
    (hFresh : Fresh fresh)
    (hRun : Run (Step hears D) fresh ts s)
    (node : ι) :
    (s node).2.RoutesKeyed := by
  apply forall_of_run (P := fun _ s => s.2.RoutesKeyed) hRun
  · intro node
    rcases hFresh node with
      ⟨store, entropy, config, hCreate⟩
    rw [hCreate]
    exact List.nodup_nil
  · intro node e s hKeyed
    exact Router.apply_routesKeyed hKeyed e

/- An honest cache of secrets stays honest. -/
theorem secrets_of_run
    {start s : Network ι δ}
    {ts : List (Transition (Network ι δ) (Event ι δ))}
    {node : ι}
    (hRun : Run (Step hears D) start ts s)
    (hSecrets : (start node).2.store.CachesSecrets) :
    (s node).2.store.CachesSecrets := by
  apply forall_of_run
    (P := fun node s =>
      (start node).2.store.CachesSecrets →
        s.2.store.CachesSecrets)
    hRun
  · exact fun node hHere => hHere
  · intro node e s hKept hHere
    exact Router.secrets_apply (hKept hHere) e
  · exact hSecrets

/- Two nodes share what they shared in the beginning. -/
theorem Share.of_run
    {start s : Network ι δ}
    {ts : List (Transition (Network ι δ) (Event ι δ))}
    {a b : ι} {secret : SharedSecret}
    (hShare : Share start a b secret)
    (hRun : Run (Step hears D) start ts s) :
    Share s a b secret := by
  have hNear := keys_of_run hRun a
  have hFar := keys_of_run hRun b
  refine
    { there := ?_
      back := ?_
      thereCached := secrets_of_run hRun hShare.thereCached
      backCached := secrets_of_run hRun hShare.backCached }
  · rw [hNear.2, hFar.1]
    exact hShare.there
  · rw [hNear.1, hFar.2]
    exact hShare.back

/- A route that is found is held. -/
theorem holds_of_found
    {fresh s : Network ι δ}
    {ts : List (Transition (Network ι δ) (Event ι δ))}
    {node : ι} {route : Route}
    (hFresh : Fresh fresh)
    (hRun : Run (Step hears D) fresh ts s)
    (hFound :
      (s node).2.findRoute route.dest = some route) :
    Holds hears D s node route := by
  intro us s' hOn hKeeps
  have hKeyed := routesKeyed_of_run hFresh hRun node
  have hBoth :
      (s' node).2.RoutesKeyed ∧
        (s' node).2.findRoute route.dest = some route := by
    apply hOn.invariant_of_forall
      (I := fun s =>
        (s node).2.RoutesKeyed ∧
          (s node).2.findRoute route.dest = some route)
      (C := fun t : Transition (Network ι δ) (Event ι δ) =>
        t.event.node = node →
          Router.Keeps (D node) route (t.before node)
            t.event.seen)
    · exact ⟨hKeyed, hFound⟩
    · exact hKeeps
    · rintro s e s' ⟨hKeyed, hFound⟩ hStep hCond
      have hAfter := hStep.after_eq node
      by_cases hNode : node = e.node
      · rw [if_pos hNode, ← hNode] at hAfter
        rw [hAfter]
        exact ⟨Router.apply_routesKeyed hKeyed e.seen,
          Router.findRoute_apply_of_keeps hKeyed hFound
            (hCond hNode.symm)⟩
      · rw [if_neg hNode] at hAfter
        rw [hAfter]
        exact ⟨hKeyed, hFound⟩
  exact hBoth.2

namespace Chain

variable {n : Nat}

/- The way from the near end to the far end. -/
def route (c : Chain hears n) (s : Network ι δ) : Route :=
  { dest := (s c.far).2.store.selfPk
    path := hashesOf s c.repeaters }

/-
  A packet of the near end's that the medium carries, and
  that nobody else sends and nobody mistakes.
-/
structure Passes
    (c : Chain hears n)
    (past ts : List (Transition (Network ι δ) (Event ι δ)))
    (s : Network ι δ)
    (orig : Bytes) :
    Prop where
  sole : SentOnlyBy (past ++ ts) c.near orig
  carried : Carried hears ts s orig
  unmistaken : Unmistaken ts orig

/-
  The far end hears the packet, as one that is new, once
  every repeater, one after the other, has dropped itself
  from its path, and dispatches it.
-/
structure Ends
    (D : ι → Delegate δ)
    (c : Chain hears n)
    (past : List (Transition (Network ι δ) (Event ι δ)))
    (orig : Bytes)
    (t : Transition (Network ι δ) (Event ι δ))
    (frame : Bytes)
    (q : Packet) :
    Prop where
  event : ∃ rx,
    t.event = .deliver (c.node n) c.far frame rx ∧
      t.after c.far =
        Router.considerForwarding (D c.far) q rx
          (Router.dispatch (D c.far) q
            ((t.before c.far).1,
              (t.before c.far).2.takeIn frame))
  parsed : parse frame = some q
  copy : IsCopyOf orig frame
  lineage : Lineage past frame c.repeaters
  path : q.path = []
  new : (t.before c.far).2.alreadySeen frame = false

/-
  Every direct frame that the near end sends by the route,
  and that passes, is stripped hop by hop and ends at the
  far end, and what was sealed for the far end is handed to
  its layer above.
-/
def Serves
    (D : ι → Delegate δ)
    (c : Chain hears n)
    (fresh : Network ι δ)
    (past ts : List (Transition (Network ι δ) (Event ι δ)))
    (s : Network ι δ)
    (secret : SharedSecret) :
    Prop :=
  ∀ type wire,
    type ≠ .trace →
    (∃ t ∈ ts,
      Router.buildFrame type wire (some (c.route fresh)) ∈
        (actsOf t c.near).filterMap
          Router.originatedOf) →
    c.Passes past ts s
      (Router.buildFrame type wire (some (c.route fresh))) →
      c.Strips fresh past ts
        (Router.buildFrame type wire
          (some (c.route fresh))) ∧
      ∃ pre t post frame q,
        ts = pre ++ t :: post ∧
        c.Ends D (past ++ pre)
          (Router.buildFrame type wire
            (some (c.route fresh)))
          t frame q ∧
        ∀ plain,
          type.isAddressed = true →
          type ≠ .path →
          Router.envelopeFor
              (fresh c.near).2.store.selfHash secret
              (fresh c.far).2.store.selfPk plain =
            some wire →
          Recognised D ts c.far
              (fresh c.near).2.store.selfPk
              (Router.buildFrame type wire
                (some (c.route fresh))) →
            Delivered D t c.far frame
              (fresh c.near).2.store.selfPk type plain

variable {c : Chain hears n}
variable {fresh start s : Network ι δ}
variable
  {past pre ts : List (Transition (Network ι δ) (Event ι δ))}
variable {t : Transition (Network ι δ) (Event ι δ)}

------------------------------------------------------------
-- The Direct Frames
------------------------------------------------------------

/- A direct frame by the route goes the whole way. -/
theorem journey_of_passes
    {type : PayloadType} {wire : Bytes}
    (hWindow : Window D c fresh start s past ts)
    (hLe : n ≤ maxHopCount)
    (hType : type ≠ .trace)
    (hPasses :
      c.Passes past ts s
        (Router.buildFrame type wire
          (some (c.route fresh)))) :
    Journey D c fresh start s past ts
      (Router.buildFrame type wire (some (c.route fresh)))
      (Router.built type wire (some (c.route fresh))) :=
  { hWindow with
    parsed := by
      apply Router.parse_buildFrame
      intro known hKnown
      injection hKnown with hKnown
      rw [← hKnown]
      exact (c.length_hashes fresh n).trans_le hLe
    direct := routeTypeOf_headerOf type .direct
    type := by
      intro hTrace
      exact hType
        ((payloadTypeOf_headerOf type .direct).symm.trans
          hTrace)
    oneByte := rfl
    path := rfl
    sole := hPasses.sole
    carried := hPasses.carried
    unmistaken := hPasses.unmistaken }

/- Behind the last hop the far end dispatches it. -/
theorem Journey.ends
    {orig : Bytes} {p₀ : Packet}
    (hJourney : Journey D c fresh start s past ts orig p₀)
    (hSent :
      ∃ t ∈ ts,
        orig ∈
          (actsOf t c.near).filterMap
            Router.originatedOf) :
    ∃ pre t post frame q,
      ts = pre ++ t :: post ∧
        c.Ends D (past ++ pre) orig t frame q := by
  rcases hJourney.arrives hSent (Nat.le_refl n) with
    ⟨pre, t, post, frame, q, hSplit, hArrives⟩
  refine ⟨pre, t, post, frame, q, hSplit, ?_⟩
  have hRun := hJourney.run
  rw [hSplit] at hRun
  rcases hRun.split_cons with ⟨-, hStep, -⟩
  rcases hArrives.event with ⟨rx, hEvent⟩
  have hAfter := hStep.after_eq c.far
  have hHere : c.far = t.event.node := by
    rw [hEvent]
    rfl
  have hCopy := copy_eq hArrives.copy hJourney.parsed
    hArrives.parsed hJourney.type
  have hDirect : q.routeType = .direct := by
    rw [Packet.routeType, hCopy.1]
    exact hJourney.direct
  have hEcho :
      Router.isOwnEcho q
          ((t.before c.far).2.takeIn frame).store.selfHash =
        false := by
    simp [Router.isOwnEcho, hDirect, RouteType.isFlood]
  have hNew :
      (t.before c.far).2.alreadySeen frame = false :=
    hArrives.new
  refine
    { event := ⟨rx, hEvent, ?_⟩
      parsed := hArrives.parsed
      copy := hArrives.copy
      lineage := hArrives.lineage
      path := ?_
      new := hNew }
  · rw [hAfter, if_pos hHere, ← hHere, hEvent]
    simp only [Event.seen, Router.apply, Router.onFrame,
      hArrives.parsed]
    rw [if_neg (by simp [hNew]), if_neg (by simp [hEcho])]
  · rw [hArrives.path, List.drop_of_length_le]
    rw [c.length_hashes]

omit [DecidableEq ι] in
/- What arrives in the end is the packet that was sent. -/
theorem Ends.packet
    {type : PayloadType} {wire frame : Bytes}
    {route : Route} {q : Packet}
    (hEnds :
      c.Ends D pre
        (Router.buildFrame type wire (some route))
        t frame q)
    (hType : type ≠ .trace)
    (hHops : route.path.length ≤ maxHopCount)
    (hFits : wire.length ≤ maxPacketPayload) :
    q.payloadType = type ∧
      q.routeType = .direct ∧ q.payload = wire := by
  have hOrig :
      parse (Router.buildFrame type wire (some route)) =
        some (Router.built type wire (some route)) := by
    apply Router.parse_buildFrame
    intro known hKnown
    injection hKnown with hKnown
    rw [← hKnown]
    exact hHops
  have hOther :
      (Router.built type wire (some route)).payloadType ≠
        .trace := by
    intro hTrace
    exact hType
      ((payloadTypeOf_headerOf type .direct).symm.trans
        hTrace)
  rcases copy_eq hEnds.copy hOrig hEnds.parsed hOther with
    ⟨hHeader, hPayload⟩
  refine ⟨?_, ?_, ?_⟩
  · rw [Packet.payloadType, hHeader]
    exact payloadTypeOf_headerOf type .direct
  · rw [Packet.routeType, hHeader]
    exact routeTypeOf_headerOf type .direct
  · rw [hPayload]
    exact List.take_of_length_le hFits

/- What is sealed for the far end is delivered there. -/
theorem delivered_of_ends
    {type : PayloadType} {wire plain frame : Bytes}
    {secret : SharedSecret} {route : Route} {q : Packet}
    (hCipher : Deciphers)
    (hReached : Run (Step hears D) fresh ts t.before)
    (hShare : Share fresh c.near c.far secret)
    (hEnds :
      c.Ends D pre
        (Router.buildFrame type wire (some route))
        t frame q)
    (hHops : route.path.length ≤ maxHopCount)
    (hType : type.isAddressed = true)
    (hOther : type ≠ .path)
    (hSealed :
      Router.envelopeFor
          (fresh c.near).2.store.selfHash secret
          (fresh c.far).2.store.selfPk plain =
        some wire)
    (hPeer :
      Router.Recognises (D c.far)
        (fresh c.near).2.store.selfPk q.payload
        (t.before c.far)) :
    Delivered D t c.far frame
      (fresh c.near).2.store.selfPk type plain := by
  have hTrace : type ≠ .trace := by
    intro hTrace
    rw [hTrace] at hType
    contradiction
  rcases hEnds.packet hTrace hHops
      (Router.length_envelopeFor hSealed) with
    ⟨hSame, hDirect, hPayload⟩
  have hNow := hShare.of_run hReached
  have hFar := keys_of_run hReached c.far
  have hNear := keys_of_run hReached c.near
  have hTold :
      ∃ contact,
        contact.pk = (fresh c.near).2.store.selfPk ∧
        Router.opened (D c.far) frame (t.before c.far) =
          some (.payload contact q.payloadType plain) := by
    apply Router.opened_of_sealed hCipher hNow.backCached
    · rw [← hNear.1]
      exact hNow.back
    · exact hEnds.parsed
    · rw [hDirect]
      rfl
    · rw [hSame]
      exact hType
    · rw [hSame]
      exact hOther
    · rw [hPayload, ← hSealed, ← hFar.1]
      rfl
    · exact hPeer
  rcases hEnds.event with ⟨rx, hEvent, -⟩
  rw [hSame] at hTold
  exact ⟨⟨c.node n, rx, hEvent⟩, hEnds.new, hTold⟩

/- So the chain serves from one end to the other. -/
theorem serves
    {secret : SharedSecret}
    (hCipher : Deciphers)
    (hLe : n ≤ maxHopCount)
    (hWindow : Window D c fresh start s past ts)
    (hShare : Share fresh c.near c.far secret) :
    c.Serves D fresh past ts s secret := by
  intro type wire hType hSent hPasses
  have hJourney :=
    journey_of_passes hWindow hLe hType hPasses
  rcases hJourney.ends hSent with
    ⟨pre, t, post, frame, q, hSplit, hEnds⟩
  refine
    ⟨fun k hk => hJourney.arrives hSent hk,
      pre, t, post, frame, q, hSplit, hEnds, ?_⟩
  intro plain hAddressed hOther hSealed hKnown
  have hRun := hWindow.run
  rw [hSplit] at hRun
  rcases hRun.split_cons with ⟨hBefore, -, -⟩
  have hMem : t ∈ ts := by
    rw [hSplit]
    simp
  have hHops : (c.route fresh).path.length ≤ maxHopCount :=
    (c.length_hashes fresh n).trans_le hLe
  rcases hEnds.event with ⟨rx, hEvent, -⟩
  exact delivered_of_ends hCipher
    (hWindow.reached.trans hBefore) hShare hEnds hHops
    hAddressed hOther hSealed
    (hKnown t hMem _ frame rx q hEvent hEnds.copy
      hEnds.parsed)

/- A path that comes to the far end is installed there. -/
theorem findRoute_of_ends
    {wire frame path : Bytes} {secret : SharedSecret}
    {route : Route} {q : Packet}
    (hCipher : Deciphers)
    (hFresh : Fresh fresh)
    (hReached : Run (Step hears D) fresh ts t.before)
    (hStep : Step hears D t.before t.event t.after)
    (hShare : Share fresh c.near c.far secret)
    (hEnds :
      c.Ends D pre
        (Router.buildFrame .path wire (some route))
        t frame q)
    (hHops : route.path.length ≤ maxHopCount)
    (hReturned :
      Router.returnedWire
          (fresh c.near).2.store.selfHash secret
          (fresh c.far).2.store.selfPk path =
        some wire)
    (hPeer :
      Router.Recognises (D c.far)
        (fresh c.near).2.store.selfPk q.payload
        (t.before c.far)) :
    (t.after c.far).2.findRoute
        (fresh c.near).2.store.selfPk =
      some
        { dest := (fresh c.near).2.store.selfPk
          path := path } := by
  rw [Router.returnedWire, Option.bind_eq_some_iff]
    at hReturned
  rcases hReturned with ⟨plain, hEncoded, hSealed⟩
  rcases hEnds.packet (by simp) hHops
      (Router.length_envelopeFor hSealed) with
    ⟨hType, hDirect, hPayload⟩
  have hNow := hShare.of_run hReached
  have hFar := keys_of_run hReached c.far
  have hNear := keys_of_run hReached c.near
  have hHeard :
      Router.authenticated (D c.far) q
          ((t.before c.far).1,
            (t.before c.far).2.takeIn frame) =
        some ((fresh c.near).2.store.selfPk, plain) := by
    have hShared :
        CryptoCore.deriveShared
            (t.before c.far).2.store.selfSk
            (fresh c.near).2.store.selfPk =
          some secret := by
      rw [← hNear.1]
      exact hNow.back
    apply Router.authenticated_of_sealed hCipher
      (s := ((t.before c.far).1,
        (t.before c.far).2.takeIn frame))
      hNow.backCached hShared
    · rw [hType]
      rfl
    · rw [hPayload, ← hSealed, ← hFar.1]
      rfl
    · exact hPeer.takeIn frame
  rcases hEnds.event with ⟨rx, hEvent, -⟩
  have hAfter := hStep.after_eq c.far
  have hHere : c.far = t.event.node := by
    rw [hEvent]
    rfl
  rw [if_pos hHere, ← hHere, hEvent] at hAfter
  rw [hAfter]
  have hDecoded := decodePath_encodePath hEncoded
  apply Router.findRoute_of_returned hEnds.parsed hEnds.new
    (by rw [hDirect]; rfl) hType hHeard hDecoded
  exact routesKeyed_of_run hFresh hReached c.far

------------------------------------------------------------
-- The Flooded Message
------------------------------------------------------------

/-
  By the time the far end is told a flood of the near end's,
  all the repeaters are on its path, in their order.
-/
theorem path_of_delivered
    {message frame : Bytes} {p₀ p : Packet}
    {src : ι} {rx : RxMeta} {u : Upcall}
    (hFresh : Fresh fresh)
    (hRun : Run (Step hears D) fresh pre t.before)
    (hStep : Step hears D t.before t.event t.after)
    (hDistinct : c.Distinct fresh)
    (hMessage : parse message = some p₀)
    (hFlood : p₀.routeType.isFlood = true)
    (hType : p₀.payloadType ≠ .trace)
    (hSole : SentOnlyBy pre c.near message)
    (hEvent : t.event = .deliver src c.far frame rx)
    (hCopy : IsCopyOf message frame)
    (hParse : parse frame = some p)
    (hTold :
      Router.opened (D c.far) frame (t.before c.far) =
        some u) :
    p.path = hashesOf fresh c.repeaters := by
  rcases c.onChain src with ⟨i, hi, rfl⟩
  have hHears := hStep.1
  rw [hEvent] at hHears
  have hBeside :=
    (c.hears_iff i (n + 1) hi (Nat.le_refl _)).mp hHears.1
  obtain rfl : i = n := by omega
  rcases flood_path hFresh hRun hDistinct hMessage hFlood
      hType hSole hi (from_of_onAir hFresh hRun hHears.2)
      hParse hCopy with
    hPath | ⟨rfl, hMem⟩
  · exact hPath
  · -- with no repeater the first hop is the far end itself
    have hSelf :
        (t.before c.far).2.store.selfHash =
          c.hash fresh 1 :=
      selfHash_of_run hRun c.far
    have hSame : p.routeType.isFlood = true := by
      rw [Packet.routeType,
        (copy_eq hCopy hMessage hParse hType).1]
      exact hFlood
    have hEcho :
        Router.isOwnEcho p
            (t.before c.far).2.store.selfHash =
          true := by
      simp [Router.isOwnEcho, hSame, hSelf, hMem]
    simp only [Router.opened, hParse, Option.bind_some,
      if_pos hEcho] at hTold
    contradiction

omit [DecidableEq ι] [CryptoCore] in
theorem reversed_route
    (c : Chain hears n)
    (s : Network ι δ) :
    c.reversed.route s =
      { dest := (s c.near).2.store.selfPk
        path := (hashesOf s c.repeaters).reverse } := by
  rw [route, reversed_far, hashesOf_reversed]

/-
  The far end is told a flood: it holds the way back, and
  sends the path that the flood came by that way.
-/
theorem answer_of_delivered
    {message frame plain : Bytes} {p₀ : Packet}
    {type : PayloadType} {secret : SharedSecret}
    (hFresh : Fresh fresh)
    (hReached : Run (Step hears D) fresh pre t.before)
    (hStep : Step hears D t.before t.event t.after)
    (hDistinct : c.Distinct fresh)
    (hShare : Share fresh c.near c.far secret)
    (hMessage : parse message = some p₀)
    (hFlood : p₀.routeType = .flood)
    (hSole : SentOnlyBy pre c.near message)
    (hCopy : IsCopyOf message frame)
    (hDelivered :
      Delivered D t c.far frame
        (fresh c.near).2.store.selfPk type plain) :
    (t.after c.far).2.findRoute
          (fresh c.near).2.store.selfPk =
        some (c.reversed.route fresh) ∧
      ∃ wire,
        Router.returnedWire
            (fresh c.far).2.store.selfHash secret
            (fresh c.near).2.store.selfPk
            (hashesOf fresh c.repeaters) =
          some wire ∧
        Router.buildFrame .path wire
            (some (c.reversed.route fresh)) ∈
          (actsOf t c.far).filterMap
            Router.originatedOf := by
  rcases hDelivered with
    ⟨⟨src, rx, hEvent⟩, hNew, contact, hContact, hTold⟩
  cases hParse : parse frame with
  | none => simp [Router.opened, hParse] at hTold
  | some p =>
      have hType : p₀.payloadType ≠ .trace := by
        intro hTrace
        simp only [Router.opened, hParse,
          Option.bind_some] at hTold
        split_ifs at hTold
        have hAddressed :=
          (Router.identify_of_told hTold).1
        unfold IsCopyOf at hCopy
        simp only [hMessage, hParse] at hCopy
        rw [Packet.payloadType, hCopy.1] at hAddressed
        rw [Packet.payloadType] at hTrace
        rw [hTrace] at hAddressed
        contradiction
      have hSame : p.routeType = .flood := by
        rw [Packet.routeType,
          (copy_eq hCopy hMessage hParse hType).1]
        exact hFlood
      have hPath := path_of_delivered hFresh hReached hStep
        hDistinct hMessage (by rw [hFlood]; rfl) hType hSole
        hEvent hCopy hParse hTold
      have hKeyed := routesKeyed_of_run hFresh hReached c.far
      have hNow := hShare.of_run hReached
      have hFar := keys_of_run hReached c.far
      have hNear := keys_of_run hReached c.near
      have hHere : c.far = t.event.node := by
        rw [hEvent]
        rfl
      have hAfter := hStep.after_eq c.far
      rw [if_pos hHere, ← hHere, hEvent] at hAfter
      constructor
      · have hFound := Router.findRoute_of_told hParse hNew
          hTold hSame hKeyed rx
        rw [hContact, hPath] at hFound
        rw [hAfter, reversed_route]
        exact hFound
      · have hShared :
            CryptoCore.deriveShared
                (t.before c.far).2.store.selfSk
                contact.pk =
              some secret := by
          rw [hContact, ← hNear.1]
          exact hNow.back
        rcases Router.pathErrand_mem_frameErrands hParse
            hNew hTold hSame hKeyed hNow.backCached
            hShared with
          ⟨wire, hWire, hErrand⟩
        have hHash :
            (t.before c.far).2.store.selfHash =
              (fresh c.far).2.store.selfHash :=
          selfHash_of_run hReached c.far
        rw [hContact, hPath, hHash] at hWire
        rw [hContact, hPath] at hErrand
        refine ⟨wire, hWire, ?_⟩
        rw [actsOf, hAfter, Event.seen,
          Router.originated_apply, reversed_route]
        exact List.mem_map.mpr ⟨_, hErrand, rfl⟩

/-
  Flood once, then go direct, along any chain: the far end
  that is told a flood holds the way back and returns the
  path along the chain, the near end holds the way there as
  soon as it has the path, and from then on every direct
  frame is handed on from one end to the other.
-/
theorem flood_then_direct
    {message frame plain : Bytes} {p₀ : Packet}
    {type : PayloadType} {secret : SharedSecret}
    (hCipher : Deciphers)
    (hLe : n ≤ maxHopCount)
    (hWindow : Window D c fresh start s past ts)
    (hShare : Share fresh c.near c.far secret)
    (hMessage : parse message = some p₀)
    (hFlood : p₀.routeType = .flood)
    (hSole : SentOnlyBy (past ++ ts) c.near message)
    (hMem : t ∈ ts)
    (hCopy : IsCopyOf message frame)
    (hDelivered :
      Delivered D t c.far frame
        (fresh c.near).2.store.selfPk type plain)
    (hReturn :
      ∀ wire,
        Router.buildFrame .path wire
            (some (c.reversed.route fresh)) ∈
          (actsOf t c.far).filterMap
            Router.originatedOf →
        c.reversed.Passes past ts s
            (Router.buildFrame .path wire
              (some (c.reversed.route fresh))) ∧
          Recognised D ts c.near
            (fresh c.far).2.store.selfPk
            (Router.buildFrame .path wire
              (some (c.reversed.route fresh)))) :
    Holds hears D t.after c.far (c.reversed.route fresh) ∧
      (∃ wire pre u post heard q,
        ts = pre ++ u :: post ∧
        Router.returnedWire
            (fresh c.far).2.store.selfHash secret
            (fresh c.near).2.store.selfPk
            (hashesOf fresh c.repeaters) =
          some wire ∧
        c.reversed.Ends D (past ++ pre)
          (Router.buildFrame .path wire
            (some (c.reversed.route fresh)))
          u heard q ∧
        Holds hears D u.after c.near (c.route fresh)) ∧
      c.Serves D fresh past ts s secret ∧
      c.reversed.Serves D fresh past ts s secret := by
  have hBack :
      Share fresh c.reversed.near c.reversed.far secret := by
    rw [reversed_far]
    exact hShare.symm
  rcases List.mem_iff_append.mp hMem with
    ⟨before, after, hHere⟩
  have hRun := hWindow.run
  have hSoleHere := hSole
  rw [hHere] at hRun hSoleHere
  rcases hRun.split_cons with ⟨hBefore, hStep, -⟩
  have hReached := hWindow.reached.trans hBefore
  rw [← List.append_assoc] at hSoleHere
  rcases answer_of_delivered hWindow.isFresh hReached hStep
      hWindow.distinct hShare hMessage hFlood
      hSoleHere.of_append.1 hCopy hDelivered with
    ⟨hFound, wire, hWire, hSent⟩
  rcases hReturn wire hSent with ⟨hPasses, hKnown⟩
  refine ⟨?_, ?_, ?_, ?_⟩
  · apply holds_of_found hWindow.isFresh
      (hReached.step hStep)
    rw [reversed_route] at hFound ⊢
    exact hFound
  · have hJourney := journey_of_passes hWindow.reversed hLe
      (by simp) hPasses
    rcases hJourney.ends ⟨t, hMem, hSent⟩ with
      ⟨pre, u, post, heard, q, hSplit, hEnds⟩
    refine ⟨wire, pre, u, post, heard, q, hSplit, hWire,
      hEnds, ?_⟩
    have hThere := hWindow.run
    rw [hSplit] at hThere
    rcases hThere.split_cons with ⟨hUntil, hTaken, -⟩
    have hMemU : u ∈ ts := by
      rw [hSplit]
      simp
    have hThereReached := hWindow.reached.trans hUntil
    rcases hEnds.event with ⟨rx, hEvent, -⟩
    rw [reversed_far] at hEvent
    have hHops :
        (c.reversed.route fresh).path.length ≤
          maxHopCount :=
      (c.reversed.length_hashes fresh n).trans_le hLe
    have hReturned :
        Router.returnedWire
            (fresh c.reversed.near).2.store.selfHash secret
            (fresh c.reversed.far).2.store.selfPk
            (hashesOf fresh c.repeaters) =
          some wire := by
      rw [reversed_far]
      exact hWire
    have hInstalled :=
      findRoute_of_ends hCipher hWindow.isFresh
        hThereReached hTaken hBack hEnds hHops hReturned
        (by
          rw [reversed_far]
          exact hKnown u hMemU _ heard rx q hEvent
            hEnds.copy hEnds.parsed)
    rw [reversed_far] at hInstalled
    exact holds_of_found hWindow.isFresh
      (hThereReached.step hTaken) hInstalled
  · exact serves hCipher hLe hWindow hShare
  · exact serves hCipher hLe hWindow.reversed hBack

end Chain

end Network

------------------------------------------------------------
-- Three Nodes
------------------------------------------------------------

namespace Network

section Example

open Sample Chain

/- A store with one contact in it. -/
def storeKnowing (self peer : UInt8) : Store :=
  let contact := Contact.bare (Store.ofByte peer).selfPk
  { Store.ofByte self with
    contacts := [contact]
    buckets := Store.reindex [contact] }

/- Two new nodes that know each other, and one between. -/
def trio : Network (Fin 3) Unit :=
  fun node =>
    ((),
      .create
        (match node with
          | 0 => storeKnowing 1 3
          | 1 => .ofByte 2
          | 2 => storeKnowing 3 1)
        { byte := fun _ => 0 } {})

def trioHears (a b : Fin 3) : Prop :=
  a.val + 1 = b.val ∨ b.val + 1 = a.val

instance : DecidableRel trioHears :=
  fun a b =>
    inferInstanceAs
      (Decidable (a.val + 1 = b.val ∨ b.val + 1 = a.val))

def trioChain : Chain trioHears 1 where
  node i := Fin.ofNat 3 i
  onChain := by
    intro a
    exact ⟨a.val, by omega, by simp⟩
  hears_iff := by
    intro i j hi hj
    simp [trioHears, Fin.ofNat]
    omega

def trioSecret : SharedSecret :=
  Vector.replicate _ 2

/- A text as the first node seals it for the last. -/
def sealedText (text : Bytes) : Bytes :=
  (Router.envelopeFor 1 trioSecret (Store.ofByte 3).selfPk
    text).getD []

/- The path over the node between, as the last seals it. -/
def sealedPath : Bytes :=
  (Router.returnedWire 3 trioSecret (Store.ofByte 1).selfPk
    [2]).getD []

/- A direct frame with these hops still before it. -/
def frameOver
    (type : PayloadType)
    (wire path : Bytes) :
    Bytes :=
  Router.buildFrame type wire
    (some { dest := (Store.ofByte 0).selfPk, path := path })

/- A flooded text as the node between repeats it. -/
def repeatedOver (wire : Bytes) : Bytes :=
  (serialize
    { Router.built .txtMsg wire none with
      hopCount := 1, path := [2] }
    maxPacketFrame).getD []

/- The first node writes a text to the last. -/
def textTo (text : Bytes) : Event (Fin 3) Unit :=
  .above 0 fun _ =>
    (sendDirect (Store.ofByte 3).selfPk .txtMsg text
      false).bind fun _ => pure ()

/-
  The first node floods a text, and the last one, that is
  told it, returns the path.
-/
def firstContact : List (Event (Fin 3) Unit) :=
  [textTo [104],
    .deliver 0 1
      (Router.buildFrame .txtMsg (sealedText [104]) none) {},
    .tick 1 1000,
    .deliver 1 2 (repeatedOver (sealedText [104])) {},
    .deliver 2 1 (frameOver .path sealedPath [2]) {},
    .tick 1 2000,
    .deliver 1 2 (frameOver .path sealedPath []) {},
    .deliver 1 0 (frameOver .path sealedPath []) {}]

/-
  Two direct texts that are the same to the byte, once the
  first node has its route.
-/
def sameTextTwice : List (Event (Fin 3) Unit) :=
  firstContact ++
    [textTo [105],
      .deliver 0 1 (frameOver .txtMsg (sealedText [105]) [2])
        {},
      .tick 1 3000,
      .deliver 1 0 (frameOver .txtMsg (sealedText [105]) [])
        {},
      .deliver 1 2 (frameOver .txtMsg (sealedText [105]) [])
        {},
      textTo [105],
      .deliver 0 1 (frameOver .txtMsg (sealedText [105]) [2])
        {},
      .tick 1 4000]

/- What is allowed among the three is a run to look at. -/
theorem trio_window
    {es : List (Event (Fin 3) Unit)}
    (hAllowed :
      ∀ t ∈ replay (next fun _ => .carrier) trio es,
        t.event.Allowed trioHears t.before) :
    Window (fun _ => .carrier) trioChain trio trio
      (es.foldl (next fun _ => .carrier) trio) []
      (replay (next fun _ => .carrier) trio es) where
  isFresh := fun node => ⟨_, _, _, rfl⟩
  reached := .start
  run := run_replay_of_guard _ _ _ hAllowed
  distinct := by
    intro i j hi hj hHash
    have hAll :
        ∀ i j : Fin 3,
          trioChain.hash trio i = trioChain.hash trio j →
            i = j := by
      decide
    exact congrArg Fin.val
      (hAll ⟨i, by omega⟩ ⟨j, by omega⟩ hHash)
  forwards := fun node d p => rfl

theorem trio_shares :
    Share trio trioChain.near trioChain.far trioSecret where
  there := by decide +kernel
  back := by decide +kernel
  thereCached := by
    intro entry hEntry
    cases hEntry
  backCached := by
    intro entry hEntry
    cases hEntry

/-
  The text floods to the last node over the one between, the
  path comes back over it, and each of the two ends then has
  its route to the other.
-/
theorem trio_floods_then_goes_direct :
    let carriers := fun _ : Fin 3 => Delegate.carrier
    let ts := replay (next carriers) trio firstContact
    let s := firstContact.foldl (next carriers) trio
    (∃ t ∈ ts,
      Holds trioHears carriers t.after 2
        (trioChain.reversed.route trio)) ∧
      (∃ u ∈ ts,
        Holds trioHears carriers u.after 0
          (trioChain.route trio)) ∧
      trioChain.Serves carriers trio [] ts s trioSecret ∧
      trioChain.reversed.Serves carriers trio [] ts s
        trioSecret := by
  intro carriers ts s
  have hWindow :
      Window carriers trioChain trio trio s [] ts :=
    trio_window (by decide +kernel)
  let t := ts.get ⟨3, by decide +kernel⟩
  have hMessage :
      parse
          (Router.buildFrame .txtMsg (sealedText [104])
            none) =
        some (Router.built .txtMsg (sealedText [104])
          none) := by
    decide +kernel
  have hDelivered :
      Delivered carriers t trioChain.far
        (repeatedOver (sealedText [104]))
        (trio trioChain.near).2.store.selfPk .txtMsg
        [104] :=
    { event := ⟨1, {}, rfl⟩
      new := by decide +kernel
      told :=
        ⟨.bare (Store.ofByte 1).selfPk, rfl,
          by decide +kernel⟩ }
  have hReturned :
      (actsOf t trioChain.far).filterMap
          Router.originatedOf =
        [frameOver .path sealedPath [2]] := by
    decide +kernel
  rcases flood_then_direct (fun _ _ => rfl) (by decide)
      hWindow trio_shares hMessage (by decide)
      (by decide +kernel) (List.get_mem ts _)
      (by decide +kernel) hDelivered
      (by
        intro wire hSent
        rw [hReturned, List.mem_singleton] at hSent
        rw [hSent]
        exact ⟨⟨by decide +kernel, by decide +kernel,
          by decide +kernel⟩, by decide +kernel⟩) with
    ⟨hFar, ⟨wire, pre, u, post, heard, q, hSplit, -, -,
      hNear⟩, hThere, hBack⟩
  refine ⟨⟨_, List.get_mem ts _, hFar⟩, ⟨u, ?_, hNear⟩,
    hThere, hBack⟩
  rw [hSplit]
  simp

/-
  The second of the two texts is sent by the route and the
  medium carries it, but the node between has heard it, and
  the last node is told nothing more.
-/
theorem repeated_text_is_not_delivered :
    let carriers := fun _ : Fin 3 => Delegate.carrier
    let ts := replay (next carriers) trio sameTextTwice
    let s := sameTextTwice.foldl (next carriers) trio
    let near := trioChain.near
    let far := trioChain.far
    let orig :=
      Router.buildFrame .txtMsg (sealedText [105])
        (some (trioChain.route trio))
    Window carriers trioChain trio trio s [] ts ∧
      Share trio near far trioSecret ∧
      (∃ t ∈ ts,
        Delivered carriers t far
          (repeatedOver (sealedText [104]))
          (trio near).2.store.selfPk .txtMsg [104]) ∧
      trioChain.Passes [] ts s orig ∧
      Recognised carriers ts far
        (trio near).2.store.selfPk orig ∧
      ∃ pre t post,
        ts = pre ++ t :: post ∧
        (t.before near).2.findRoute
            (trio far).2.store.selfPk =
          some (trioChain.route trio) ∧
        orig ∈
          (actsOf t near).filterMap Router.originatedOf ∧
        (∃ u ∈ post, ∃ rx,
          u.event =
            .deliver near (trioChain.node 1) orig rx) ∧
        ∀ u ∈ t :: post, ∀ frame peer type plain,
          ¬ Delivered carriers u far frame peer type
            plain := by
  intro carriers ts s near far orig
  refine ⟨trio_window (by decide +kernel), trio_shares, ?_,
    ⟨by decide +kernel, by decide +kernel,
      by decide +kernel⟩,
    by decide +kernel, ?_⟩
  · refine ⟨ts.get ⟨3, by decide +kernel⟩,
      List.get_mem ts _, ⟨1, {}, rfl⟩, by decide +kernel,
      .bare (Store.ofByte 1).selfPk, rfl,
      by decide +kernel⟩
  · refine ⟨ts.take 13, ts.get ⟨13, by decide +kernel⟩,
      ts.drop 14, by simp, by decide +kernel,
      by decide +kernel, ?_, ?_⟩
    · have hHeard :
          ∃ u ∈ ts.drop 14,
            u.event.heard =
              some (near, trioChain.node 1, orig) := by
        decide +kernel
      rcases hHeard with ⟨u, hu, hPlace⟩
      exact ⟨u, hu, Event.heard_eq_some.mp hPlace⟩
    · rintro u hu frame peer type plain
        ⟨⟨src, rx, hEvent⟩, -, -⟩
      have hNobody :
          ∀ u ∈ ts.get ⟨13, by decide +kernel⟩ ::
              ts.drop 14,
            ∀ place ∈ u.event.heard, place.2.1 ≠ far := by
        decide +kernel
      exact hNobody u hu _
        (Event.heard_eq_some.mpr ⟨rx, hEvent⟩) rfl

end Example

end Network

end MeshCore
