import MeshCore.Routing.Lineage

/-
  What a trace says of the way it came: one reading for
  every node that carried it, behind the readings that were
  there before, in the order of the path.

  Key definitions include:
    * `Router.readingOf`
    * `Router.hearTrace`
    * `Network.Carriage`
    * `Network.Aligned`

  Key facts include:
    * `Router.toInt_readingOf`
    * `Router.onFrame_trace`
    * `Network.Carriage.carried`
    * `Network.trace_readings_follow_hops`
-/

namespace MeshCore

------------------------------------------------------------
-- Readings
------------------------------------------------------------

/- The byte a node leaves of how well it heard a trace. -/
def readingOf (snr : Int16) : UInt8 :=
  clampSnr (snr * 4)

theorem toInt_signedByte
    {x : Int16}
    (hLow : -128 ≤ x.toInt)
    (hHigh : x.toInt ≤ 127) :
    x.toUInt16.toUInt8.toInt8.toInt = x.toInt := by
  have hByte : x.toUInt16.toUInt8.toInt8 = x.toInt8 := by
    apply Int8.toBitVec_inj.1
    simp only [UInt8.toBitVec_toInt8,
      UInt16.toBitVec_toUInt8, Int16.toBitVec_toUInt16,
      Int16.toBitVec_toInt8]
    exact (BitVec.signExtend_eq_setWidth_of_le _
      (by decide)).symm
  rw [hByte, Int16.toInt_toInt8]
  exact Int.bmod_eq_of_le (by omega) (by omega)

theorem toInt_clampSnr (quarterDb : Int16) :
    (clampSnr quarterDb).toInt8.toInt =
      max (-128) (min 127 quarterDb.toInt) := by
  have hLow : (-128 : Int16).toInt = -128 := by decide
  have hHigh : (127 : Int16).toInt = 127 := by decide
  unfold clampSnr
  simp only [Int16.lt_iff_toInt_lt, hLow, hHigh]
  split
  · rw [toInt_signedByte] <;> omega
  · split
    · rw [toInt_signedByte] <;> omega
    · rw [toInt_signedByte] <;> omega

/- In quarters of a decibel, cut off at the scale's ends. -/
theorem toInt_readingOf
    {snr : Int16}
    (hLow : -8192 ≤ snr.toInt)
    (hHigh : snr.toInt ≤ 8191) :
    (readingOf snr).toInt8.toInt =
      max (-128) (min 127 (4 * snr.toInt)) := by
  have hFour : (4 : Int16).toInt = 4 := by decide
  -- four times such a value still fits sixteen bits
  have hQuarters : (snr * 4).toInt = 4 * snr.toInt := by
    rw [Int16.toInt_mul, hFour, Int.mul_comm]
    exact Int.bmod_eq_of_le (by omega) (by omega)
  rw [readingOf, toInt_clampSnr, hQuarters]

/- Readings behind a trace leave the rest of it alone. -/
theorem decodeTrace_append
    {payload : Bytes} {trace : Trace}
    (hDecoded : decodeTrace payload = some trace)
    (readings : Bytes) :
    decodeTrace (payload ++ readings) =
      some { trace with snr := trace.snr ++ readings } := by
  unfold decodeTrace at hDecoded ⊢
  split at hDecoded
  next => contradiction
  next hLong =>
    rw [Nat.not_lt] at hLong
    injection hDecoded with hEq
    have hByte :
        ∀ i < tracePrefixSize,
          (payload ++ readings).getD i 0 =
            payload.getD i 0 :=
      fun i hi => List.getD_append _ _ _ _ (by omega)
    have hWord :
        ∀ i, i + 4 ≤ tracePrefixSize →
          readUint32 (payload ++ readings) i =
            readUint32 payload i := by
      intro i hi
      unfold readUint32
      rw [hByte _ (by omega), hByte _ (by omega),
        hByte _ (by omega), hByte _ (by omega)]
    rw [if_neg (by rw [List.length_append]; omega), ← hEq,
      hWord 0 (by decide),
      hWord packetTimestampSize (by decide),
      hByte (packetTimestampSize * 2) (by decide),
      List.drop_append_of_le_length hLong]

------------------------------------------------------------
-- One Node
------------------------------------------------------------

namespace Router

/- What is carried of a trace has one reading, ours, more. -/
theorem transitCopy_reading
    {p q : Packet} {selfHash : UInt8} {snr : Int16}
    (hValid : p.Valid)
    (hTrace : p.payloadType = .trace)
    (hCopy : transitCopy p selfHash snr = some q) :
    tracePrefixSize ≤ p.payload.length ∧
      q.payload = p.payload ++ [readingOf snr] := by
  rcases exists_rerouted hValid hCopy with
    ⟨moved, hMoved, hReading⟩
  rw [if_pos hTrace] at hReading
  simp only [appendTraceHop] at hReading
  split_ifs at hReading with _ hShort hFull
  injection hReading with hEq
  rw [hMoved.payload] at hShort
  rw [← hEq, hMoved.payload]
  exact ⟨Nat.not_lt.mp hShort, rfl⟩

variable [CryptoCore]
variable {δ : Type} {D : Delegate δ}

/- The frame of a trace, and what can be read in it. -/
structure IsTrace
    (frame : Bytes)
    (p : Packet)
    (trace : Trace) :
    Prop where
  parsed : parse frame = some p
  type : p.payloadType = .trace
  decoded : decodeTrace p.payload = some trace

/-
  What a node does about the frame of a trace: the layer
  above sees it as it came, and it may travel on.
-/
def hearTrace
    (D : Delegate δ)
    (frame : Bytes)
    (p : Packet)
    (trace : Trace)
    (rx : RxMeta)
    (s : δ × Router) :
    δ × Router :=
  if s.2.alreadySeen frame then s
  else if isOwnEcho p s.2.store.selfHash then
    (s.1, s.2.takeIn frame)
  else
    considerForwarding D p rx
      ((D.onTrace s.1 trace p.path).run sender
        (s.2.takeIn frame))

theorem onFrame_trace
    {frame : Bytes} {p : Packet} {trace : Trace}
    (hTrace : IsTrace frame p trace)
    (rx : RxMeta)
    (s : δ × Router) :
    onFrame D frame rx s =
      hearTrace D frame p trace rx s := by
  have hSelf :
      (s.2.takeIn frame).store.selfHash =
        s.2.store.selfHash :=
    rfl
  simp only [onFrame, hTrace.parsed, hSelf, dispatch,
    hTrace.type, hTrace.decoded, hearTrace]

omit [CryptoCore] in
/- Whatever is carried on as a trace was heard as one. -/
theorem IsTrace.of_onwardFrame
    {frame out : Bytes} {p q : Packet} {trace : Trace}
    {selfHash : UInt8} {snr : Int16}
    (hTrace : IsTrace out q trace)
    (hParse : parse frame = some p)
    (hOut : onwardFrame p selfHash snr = some out) :
    ∃ heard, IsTrace frame p heard := by
  have hValid := parse_valid hParse
  rcases exists_transitCopy hValid hOut with
    ⟨q', hCopy, hWritten, hOnward⟩
  rw [hTrace.parsed, Option.some.injEq] at hWritten
  subst hWritten
  have hType : p.payloadType = .trace := by
    rw [← hTrace.type]
    simp [Packet.payloadType, hOnward.header]
  have hLong := (transitCopy_reading hValid hType hCopy).1
  exact ⟨_, hParse, hType, if_neg (Nat.not_lt.mpr hLong)⟩

end Router

------------------------------------------------------------
-- Carriage
------------------------------------------------------------

namespace Network

variable {ι δ : Type}

/- A node that carried a packet, and how it had heard it. -/
structure Hop (ι : Type) where
  node : ι
  rx : RxMeta

def Hop.reading (hop : Hop ι) : UInt8 :=
  readingOf hop.rx.snr

/-
  `Carriage ts orig frame hops` holds when in `ts` the frame
  `orig`, whoever sent it, was heard by the first of `hops`,
  what that one queued was heard by the second, and so on,
  and `frame` is what the last of them queued.
-/
inductive Carriage :
    List (Transition (Network ι δ) (Event ι δ)) →
    Bytes →
    Bytes →
    List (Hop ι) →
    Prop where
| sent
    {ts : List (Transition (Network ι δ) (Event ι δ))}
    {orig : Bytes} :
    Carriage ts orig orig []
| forwarded
    {ts : List (Transition (Network ι δ) (Event ι δ))}
    {t : Transition (Network ι δ) (Event ι δ)}
    {src dst : ι}
    {orig frame out : Bytes}
    {rx : RxMeta}
    {hops : List (Hop ι)}
    (hEvent : t.event = .deliver src dst frame rx)
    (hQueued : .queued out ∈ actsOf t dst)
    (hFrame : Carriage ts orig frame hops) :
    Carriage (ts ++ [t]) orig out
      (hops ++ [{ node := dst, rx := rx }])
| later
    {ts : List (Transition (Network ι δ) (Event ι δ))}
    {t : Transition (Network ι δ) (Event ι δ)}
    {orig frame : Bytes}
    {hops : List (Hop ι)}
    (hFrame : Carriage ts orig frame hops) :
    Carriage (ts ++ [t]) orig frame hops

/- The packet `p` as it is when `hops` have carried it. -/
structure CarriedBy
    (s : Network ι δ)
    (hops : List (Hop ι))
    (p q : Packet) :
    Prop where
  header : q.header = p.header
  path :
    if p.routeType.isFlood then
      q.path = p.path ++ hashesOf s (hops.map Hop.node)
    else p.path = hashesOf s (hops.map Hop.node) ++ q.path
  payload :
    p.payloadType = .trace →
      q.payload = p.payload ++ hops.map Hop.reading

/-
  The readings of a trace beside the path they are read
  with: as many of them as there are hops on it, and each is
  how well the node of that hop heard the trace, in quarters
  of a decibel and within a signed byte.
-/
structure Aligned
    (s : Network ι δ)
    (hops : List (Hop ι))
    (readings path : Bytes) :
    Prop where
  count : readings.length = path.length
  length : hops.length = path.length
  each :
    ∀ (i : Nat) (hop : Hop ι),
      hops[i]? = some hop →
        path[i]? = some (s hop.node).2.store.selfHash ∧
        ∃ reading : UInt8,
          readings[i]? = some reading ∧
          (-8192 ≤ hop.rx.snr.toInt →
            hop.rx.snr.toInt ≤ 8191 →
              reading.toInt8.toInt =
                max (-128) (min 127 (4 * hop.rx.snr.toInt)))

theorem aligned_readings
    (s : Network ι δ)
    (hops : List (Hop ι)) :
    Aligned s hops (hops.map Hop.reading)
      (hashesOf s (hops.map Hop.node)) where
  count := by simp [hashesOf]
  length := by simp [hashesOf]
  each := by
    intro i hop hHop
    refine ⟨by simp [hashesOf, hHop], hop.reading,
      by simp [hHop], ?_⟩
    exact toInt_readingOf

/- Whoever forwards a carried packet is its next hop. -/
theorem CarriedBy.forwarded
    {s : Network ι δ} {hops : List (Hop ι)} {node : ι}
    {p q : Packet} {out : Bytes} {rx : RxMeta}
    (hCarried : CarriedBy s hops p q)
    (hValid : q.Valid)
    (hOut :
      Router.onwardFrame q (s node).2.store.selfHash rx.snr =
        some out) :
    ∃ q',
      parse out = some q' ∧
      CarriedBy s (hops ++ [{ node := node, rx := rx }]) p
        q' := by
  rcases Router.exists_transitCopy hValid hOut with
    ⟨q', hCopy, hWritten, hOnward⟩
  have hRoute : q.routeType = p.routeType := by
    simp [Packet.routeType, hCarried.header]
  have hType : q.payloadType = p.payloadType := by
    simp [Packet.payloadType, hCarried.header]
  have hPath := hCarried.path
  have hMoved := hOnward.path
  rw [hRoute] at hMoved
  refine ⟨q', hWritten, ?_, ?_, ?_⟩
  · rw [hOnward.header, hCarried.header]
  · rw [List.map_append, hashesOf, List.map_append]
    split
    next hFlood =>
      rw [if_pos hFlood] at hPath hMoved
      rw [hMoved, hPath, List.append_assoc]
      rfl
    next hDirect =>
      rw [if_neg hDirect] at hPath hMoved
      rw [hPath, hMoved, List.append_assoc]
      rfl
  · intro hTrace
    rw [(Router.transitCopy_reading hValid
        (hType.trans hTrace) hCopy).2,
      hCarried.payload hTrace, List.append_assoc,
      List.map_append]
    rfl

/- A trace stays a trace, the new readings behind the old. -/
theorem CarriedBy.isTrace
    {s : Network ι δ} {hops : List (Hop ι)}
    {orig frame : Bytes} {p q : Packet} {sent : Trace}
    (hCarried : CarriedBy s hops p q)
    (hParse : parse frame = some q)
    (hSent : Router.IsTrace orig p sent) :
    Router.IsTrace frame q
      { sent with
        snr := sent.snr ++ hops.map Hop.reading } where
  parsed := hParse
  type := by
    rw [← hSent.type]
    simp [Packet.payloadType, hCarried.header]
  decoded := by
    rw [hCarried.payload hSent.type]
    exact decodeTrace_append hSent.decoded _

section Runs

variable [DecidableEq ι] [CryptoCore]
variable {hears : ι → ι → Prop} {D : ι → Delegate δ}
variable {start s : Network ι δ}
variable {ts : List (Transition (Network ι δ) (Event ι δ))}

/- Nobody's hash changes, so carried packets stay carried. -/
theorem OpenStep.carriedBy
    {s s' : Network ι δ} {e : Event ι δ}
    {hops : List (Hop ι)} {p q : Packet}
    (hStep : OpenStep D s e s')
    (hCarried : CarriedBy s hops p q) :
    CarriedBy s' hops p q :=
  ⟨hCarried.header,
    by rw [hStep.hashesOf_eq]; exact hCarried.path,
    hCarried.payload⟩

/- What is forwarded is the packet with one hop more. -/
theorem Carriage.carried
    {orig frame : Bytes} {hops : List (Hop ι)} {p : Packet}
    (hCarriage : Carriage ts orig frame hops)
    (hRun : Run (OpenStep D) start ts s)
    (hParse : parse orig = some p) :
    ∃ q, parse frame = some q ∧ CarriedBy s hops p q := by
  induction hCarriage generalizing s with
  | @sent ts orig =>
      refine ⟨p, hParse, rfl, ?_, ?_⟩
      · split <;> simp [hashesOf]
      · simp
  | @forwarded ts t src dst orig frame out rx hops hEvent
      hQueued hFrame ih =>
      rcases hRun.split_last with ⟨hBefore, hStep, rfl⟩
      rcases hStep.deliver_of_queued hQueued with
        ⟨src', frame', rx', hEvent', hQueued'⟩
      rw [hEvent, Event.deliver.injEq] at hEvent'
      rcases hEvent' with ⟨rfl, -, rfl, rfl⟩
      rcases ih hBefore hParse with ⟨q, hHeard, hCarried⟩
      rcases hCarried.forwarded (parse_valid hHeard)
          (Router.onwardFrame_of_queued hHeard rx
            (t.before dst) hQueued') with
        ⟨q', hOut, hNext⟩
      exact ⟨q', hOut, hStep.carriedBy hNext⟩
  | @later ts t orig frame hops hFrame ih =>
      rcases hRun.split_last with ⟨hBefore, hStep, rfl⟩
      rcases ih hBefore hParse with ⟨q, hHeard, hCarried⟩
      exact ⟨q, hHeard, hStep.carriedBy hCarried⟩

------------------------------------------------------------
-- Where Traces Come From
------------------------------------------------------------

/- Some node sent the frame as its own. -/
def SentIn
    (ts : List (Transition (Network ι δ) (Event ι δ)))
    (orig : Bytes) :
    Prop :=
  ∃ t ∈ ts, ∃ node,
    orig ∈ (actsOf t node).filterMap Router.originatedOf

omit [DecidableEq ι] [CryptoCore] in
theorem SentIn.later
    {orig : Bytes}
    (hSent : SentIn ts orig)
    (t : Transition (Network ι δ) (Event ι δ)) :
    SentIn (ts ++ [t]) orig := by
  rcases hSent with ⟨u, hu, hNode⟩
  exact ⟨u, List.mem_append_left _ hu, hNode⟩

omit [DecidableEq ι] [CryptoCore] in
/- What has a lineage was carried from where it was sent. -/
theorem Lineage.carriage
    {frame : Bytes} {nodes : List ι}
    (hLineage : Lineage ts frame nodes) :
    ∃ orig hops,
      SentIn ts orig ∧ Carriage ts orig frame hops := by
  induction hLineage with
  | @originated ts t node frame hSent =>
      exact ⟨frame, [], ⟨t, by simp, node, hSent⟩, .sent⟩
  | @forwarded ts t src dst frame out rx nodes hEvent hQueued
      hFrame ih =>
      rcases ih with ⟨orig, hops, hSent, hCarriage⟩
      exact ⟨orig, _, hSent.later t,
        hCarriage.forwarded hEvent hQueued⟩
  | @later ts t frame nodes hFrame ih =>
      rcases ih with ⟨orig, hops, hSent, hCarriage⟩
      exact ⟨orig, hops, hSent.later t, hCarriage.later⟩

/- What was carried as a trace was sent as one. -/
theorem Carriage.exists_isTrace
    {orig frame : Bytes} {hops : List (Hop ι)}
    {q : Packet} {trace : Trace}
    (hCarriage : Carriage ts orig frame hops)
    (hRun : Run (OpenStep D) start ts s)
    (hTrace : Router.IsTrace frame q trace) :
    ∃ p sent, Router.IsTrace orig p sent := by
  induction hCarriage generalizing s q trace with
  | sent => exact ⟨q, trace, hTrace⟩
  | @forwarded ts t src dst orig frame out rx hops hEvent
      hQueued hFrame ih =>
      rcases hRun.split_last with ⟨hBefore, hStep, rfl⟩
      rcases hStep.deliver_of_queued hQueued with
        ⟨src', frame', rx', hEvent', hQueued'⟩
      rw [hEvent, Event.deliver.injEq] at hEvent'
      rcases hEvent' with ⟨rfl, -, rfl, rfl⟩
      rcases Router.exists_parse_of_queued hQueued' with
        ⟨p, hParse⟩
      rcases hTrace.of_onwardFrame hParse
          (Router.onwardFrame_of_queued hParse rx
            (t.before dst) hQueued') with
        ⟨heard, hHeard⟩
      exact ih hBefore hHeard
  | @later ts t orig frame hops hFrame ih =>
      rcases hRun.split_last with ⟨hBefore, hStep, rfl⟩
      exact ih hBefore hTrace

/- In a closed network, floods start with an empty path. -/
theorem exists_carriage_of_flood
    (hFresh : Fresh start)
    (hRun : Run (Step hears D) start ts s)
    {node : ι} {frame : Bytes} {q : Packet} {trace : Trace}
    (hAir : (s node).2.OnAir frame)
    (hTrace : Router.IsTrace frame q trace)
    (hFlood : q.routeType.isFlood = true) :
    ∃ orig p sent hops,
      SentIn ts orig ∧
      Router.IsTrace orig p sent ∧
      p.routeType.isFlood = true ∧
      p.path = [] ∧
      Carriage ts orig frame hops := by
  have hOpen : Run (OpenStep D) start ts s :=
    hRun.mono fun _ _ _ => Step.toOpen
  rcases lineage_of_from hFresh hRun
      (from_of_onAir hFresh hRun hAir) with
    ⟨nodes, hLineage⟩
  rcases hLineage.carriage with
    ⟨orig, hops, hSent, hCarriage⟩
  rcases hCarriage.exists_isTrace hOpen hTrace with
    ⟨p, sent, hOrig⟩
  rcases hCarriage.carried hOpen hOrig.parsed with
    ⟨q', hFrame, hCarried⟩
  rw [hTrace.parsed, Option.some.injEq] at hFrame
  subst hFrame
  have hSame : q.routeType = p.routeType := by
    simp [Packet.routeType, hCarried.header]
  rw [hSame] at hFlood
  refine ⟨orig, p, sent, hops, hSent, hOrig, hFlood, ?_,
    hCarriage⟩
  rcases hSent with ⟨t, ht, sender, hMem⟩
  rcases (hRun.step_of_mem ht).errand_of_originated hMem with
    ⟨errand, rfl⟩
  exact (Router.flood_buildFrame hOrig.parsed hFlood).1

------------------------------------------------------------
-- Alignment
------------------------------------------------------------

/-
  In every run of every network, whatever else is sent to it
  from outside, a trace that hops have carried is the trace
  that was sent with their readings behind it, and whoever
  hears it next shows it to the layer above like that. Had
  it none, the readings are those of the path of a flood,
  or of the part of its route that a direct one has behind
  it. In a closed network every flood in the air came so
  from a node that sent it with an empty path.
-/
theorem trace_readings_follow_hops
    (hRun : Run (OpenStep D) start ts s) :
    (∀ orig frame p sent hops,
      Carriage ts orig frame hops →
      Router.IsTrace orig p sent →
        ∃ q trace,
          Router.IsTrace frame q trace ∧
          trace =
            { sent with
              snr := sent.snr ++ hops.map Hop.reading } ∧
          (∀ node rx,
            Router.onFrame (D node) frame rx (s node) =
              Router.hearTrace (D node) frame q trace rx
                (s node)) ∧
          (sent.snr = [] →
            (p.routeType.isFlood = true →
              p.path = [] →
                Aligned s hops trace.snr q.path) ∧
            (p.routeType.isFlood = false →
              Aligned s hops trace.snr
                  (p.path.take hops.length) ∧
                q.path = p.path.drop hops.length))) ∧
      ∀ hears,
        Fresh start →
        Run (Step hears D) start ts s →
          ∀ node frame q trace,
            (s node).2.OnAir frame →
            Router.IsTrace frame q trace →
            q.routeType.isFlood = true →
              ∃ orig p sent hops,
                SentIn ts orig ∧
                Router.IsTrace orig p sent ∧
                p.routeType.isFlood = true ∧
                p.path = [] ∧
                Carriage ts orig frame hops := by
  constructor
  · intro orig frame p sent hops hCarriage hSent
    rcases hCarriage.carried hRun hSent.parsed with
      ⟨q, hParse, hCarried⟩
    have hTrace := hCarried.isTrace hParse hSent
    refine ⟨q, _, hTrace, rfl, ?_, ?_⟩
    · exact fun node rx =>
        Router.onFrame_trace hTrace rx (s node)
    · intro hNone
      have hAligned := aligned_readings s hops
      have hPath := hCarried.path
      rw [hNone, List.nil_append]
      constructor
      · intro hFlood hEmpty
        rw [if_pos hFlood, hEmpty, List.nil_append] at hPath
        rw [hPath]
        exact hAligned
      · intro hDirect
        rw [if_neg (by simp [hDirect])] at hPath
        have hLength :
            hops.length =
              (hashesOf s (hops.map Hop.node)).length := by
          simp [hashesOf]
        rw [hPath, hLength, List.take_left, List.drop_left]
        exact ⟨hAligned, rfl⟩
  · intro hears hFresh hClosed node frame q trace hAir hTrace
    exact exists_carriage_of_flood hFresh hClosed hAir
      hTrace

end Runs

section Example

open Sample

def tracePacket
    (type : RouteType)
    (path readings : Bytes) :
    Packet :=
  { header := headerOf .trace type
    hashSize := 1
    hopCount := UInt8.ofNat path.length
    path := path
    payload := tracePayload ++ readings }

def traceFrame
    (type : RouteType)
    (path readings : Bytes) :
    Bytes :=
  (serialize (tracePacket type path readings)
    maxPacketFrame).getD []

/- What is read in it by whoever hears it first. -/
def unreadTrace : Trace :=
  { tag := 0x04030201, authCode := 0, flags := 0, snr := [] }

/- The second node, which hears everything at six decibels. -/
def atSixDb : Hop Bool :=
  { node := true, rx := { snr := 6 } }

/- One node floods a trace, and the other hears it. -/
def floodedTrace : List (Event Bool Unit) :=
  [.above false fun _ => sendFlood .trace tracePayload,
    .deliver false true (traceFrame .flood [] []) atSixDb.rx]

/- From outside, a trace whose route is one node long. -/
def directTrace : List (Event Bool Unit) :=
  [.deliver false true (traceFrame .direct [2] []) atSixDb.rx]

theorem floodedTrace_carriage :
    Carriage
      (replay (next fun _ => .carrier) pair floodedTrace)
      (traceFrame .flood [] []) (traceFrame .flood [2] [24])
      [atSixDb] := by
  have hHeard :
      Carriage
        (replay (next fun _ => .carrier) pair
            (floodedTrace.take 1) ++
          replay (next fun _ => .carrier)
            ((floodedTrace.take 1).foldl
              (next fun _ => .carrier) pair)
            (floodedTrace.drop 1))
        (traceFrame .flood [] []) (traceFrame .flood [2] [24])
        ([] ++ [atSixDb]) :=
    .forwarded rfl (by decide) .sent
  exact hHeard

theorem directTrace_carriage :
    Carriage
      (replay (next fun _ => .carrier) pair directTrace)
      (traceFrame .direct [2] []) (traceFrame .direct [] [24])
      [atSixDb] := by
  have hHeard :
      Carriage
        ([] ++
          replay (next fun _ => .carrier) pair directTrace)
        (traceFrame .direct [2] [])
        (traceFrame .direct [] [24]) ([] ++ [atSixDb]) :=
    .forwarded rfl (by decide) .sent
  exact hHeard

/- The one hop of either trace leaves the one reading. -/
theorem trace_is_read_by_one_hop :
    (∃ q trace,
      Router.IsTrace (traceFrame .flood [2] [24]) q trace ∧
      Aligned
        (floodedTrace.foldl (next fun _ => .carrier) pair)
        [atSixDb] trace.snr q.path) ∧
    (∃ q trace,
      Router.IsTrace (traceFrame .direct [] [24]) q trace ∧
      Aligned
        (directTrace.foldl (next fun _ => .carrier) pair)
        [atSixDb] trace.snr [2]) ∧
    ∃ orig p sent hops,
      SentIn
        (replay (next fun _ => .carrier) pair floodedTrace)
        orig ∧
      Router.IsTrace orig p sent ∧
      p.routeType.isFlood = true ∧
      p.path = [] ∧
      Carriage
        (replay (next fun _ => .carrier) pair floodedTrace)
        orig (traceFrame .flood [] []) hops := by
  have hFlooded :
      Router.IsTrace (traceFrame .flood [] [])
        (tracePacket .flood [] []) unreadTrace :=
    ⟨by decide, by decide, by decide +kernel⟩
  have hDirect :
      Router.IsTrace (traceFrame .direct [2] [])
        (tracePacket .direct [2] []) unreadTrace :=
    ⟨by decide, by decide, by decide +kernel⟩
  refine ⟨?_, ?_, ?_⟩
  · rcases (trace_readings_follow_hops
        (run_replay (next fun _ => .carrier) pair
          floodedTrace)).1 _ _ _ _ _ floodedTrace_carriage
        hFlooded with
      ⟨q, trace, hTrace, -, -, hAligned⟩
    exact ⟨q, trace, hTrace, (hAligned rfl).1 rfl rfl⟩
  · rcases (trace_readings_follow_hops
        (run_replay (next fun _ => .carrier) pair
          directTrace)).1 _ _ _ _ _ directTrace_carriage
        hDirect with
      ⟨q, trace, hTrace, -, -, hAligned⟩
    exact ⟨q, trace, hTrace, ((hAligned rfl).2 rfl).1⟩
  · exact (trace_readings_follow_hops
        (run_replay (next fun _ => .carrier) pair
          floodedTrace)).2 pairHears
      (fun node => ⟨_, _, _, rfl⟩)
      (run_replay_of_guard _ pair floodedTrace
        (by decide))
      false _ _ _ (by decide) hFlooded rfl

end Example

end Network

end MeshCore
