import MeshCore.Routing.Forwarding

/-
  What transit leaves alone. A packet that travels on has
  our hash at the end of its path or off its head, a trace
  has a reading more, and nothing else of it is touched, so
  its duplicate key is that of the packet that came.

  Key definitions include:
    * `Router.Rerouted`
    * `Router.Onward`

  Key facts include:
    * `Packet.valid_of_oneByte`
    * `Router.transitCopy_onward`
    * `Router.onwardFrame_onward`
    * `Router.forwarded_onFrame`
-/

namespace MeshCore

------------------------------------------------------------
-- Room On The Frame
------------------------------------------------------------

/-
  With hashes of one byte the longest path and the longest
  payload fit one frame together, transport codes included.
-/
theorem Packet.valid_of_oneByte
    {p : Packet}
    (hSize : p.hashSize.toNat = nodeHashSize)
    (hHops : p.hopCount.toNat ≤ maxHopCount)
    (hPath : p.path.length = p.hopCount.toNat)
    (hPayload : p.payload.length ≤ maxPacketPayload)
    (hCodes :
      p.hasTransportCodes = false →
        p.transportCode1 = 0 ∧ p.transportCode2 = 0) :
    p.Valid := by
  have hPathSize : p.pathSize = p.hopCount.toNat := by
    rw [Packet.pathSize, hSize]
    exact Nat.mul_one _
  have hCodesSize :
      p.codesSize ≤ packetTransportCodesSize := by
    unfold Packet.codesSize
    split <;> omega
  unfold maxHopCount at hHops
  unfold maxPacketPayload at hPayload
  unfold packetTransportCodesSize at hCodesSize
  exact
    { hashSize_pos := by rw [hSize]; decide
      hashSize_le := by rw [hSize]; decide
      hopCount_le := by unfold maxHopCount; omega
      path_length := by omega
      pathSize_le := by unfold maxPathSize; omega
      payload_le := by unfold maxPacketPayload; omega
      total_le := by
        unfold fixedPrefixSize packetHeaderSize
          packetPathLengthSize maxPacketFrame
        omega
      codes_zero := hCodes }

namespace Router

------------------------------------------------------------
-- The Copy
------------------------------------------------------------

/-
  The packet `p` once the node `selfHash` has written itself
  into its path or dropped itself from it.
-/
structure Rerouted
    (p : Packet)
    (selfHash : UInt8)
    (q : Packet) :
    Prop where
  header : q.header = p.header
  code1 : q.transportCode1 = p.transportCode1
  code2 : q.transportCode2 = p.transportCode2
  hashSize : q.hashSize = p.hashSize
  payload : q.payload = p.payload
  path :
    if p.routeType.isFlood then
      q.path = p.path ++ [selfHash]
    else p.path = selfHash :: q.path
  oneByte : q.hashSize.toNat = nodeHashSize
  hops : q.hopCount.toNat ≤ maxHopCount
  path_length : q.path.length = q.hopCount.toNat

/- The packet `p` as the node `selfHash` sends it on. -/
structure Onward
    (p : Packet)
    (selfHash : UInt8)
    (q : Packet) :
    Prop where
  header : q.header = p.header
  code1 : q.transportCode1 = p.transportCode1
  code2 : q.transportCode2 = p.transportCode2
  hashSize : q.hashSize = p.hashSize
  path :
    if p.routeType.isFlood then
      q.path = p.path ++ [selfHash]
    else p.path = selfHash :: q.path
  payload : ReadingAdded p q.payload

/- Whoever writes itself into a path has room to. -/
theorem appendSelf_rerouted
    {p q : Packet} {selfHash : UInt8}
    (hValid : p.Valid)
    (hFlood : p.routeType.isFlood = true)
    (hAppend : appendSelf p selfHash = some q) :
    Rerouted p selfHash q := by
  simp only [appendSelf] at hAppend
  split_ifs at hAppend with hSize hHops hRoom
  have hOne : p.hashSize.toNat = nodeHashSize :=
    not_not.mp hSize
  injection hAppend with hEq
  subst hEq
  have hCount :
      (p.hopCount + 1).toNat = p.hopCount.toNat + 1 := by
    rw [UInt8.toNat_add]
    simp only [maxHopCount] at hHops
    change (p.hopCount.toNat + 1) % 256 = _
    omega
  have hLength := hValid.path_length
  rw [Packet.pathSize, hOne, nodeHashSize,
    Nat.mul_one] at hLength
  exact
    { header := rfl
      code1 := rfl
      code2 := rfl
      hashSize := rfl
      payload := rfl
      path := by rw [if_pos hFlood]
      oneByte := hOne
      hops := by
        rw [hCount]
        omega
      path_length := by
        rw [hCount, List.length_append, hLength,
          List.length_singleton] }

/- Whoever drops itself from a path leaves the rest. -/
theorem stripSelf_rerouted
    {p q : Packet} {selfHash : UInt8}
    (hValid : p.Valid)
    (hDirect : p.routeType.isFlood = false)
    (hStrip : stripSelf p selfHash = some q) :
    Rerouted p selfHash q := by
  rcases stripSelf_eq_some hValid hStrip with
    ⟨hSame, hPayload, hSize, hHops, -⟩
  have hLength := hSame.path_length
  have hHopsLe := hValid.hopCount_le
  simp only [stripSelf] at hStrip
  split_ifs at hStrip with hOne hNone hHead
  rw [not_not] at hOne hHead
  rw [Packet.pathSize, hSize, hOne, nodeHashSize,
    Nat.mul_one] at hLength
  injection hStrip with hEq
  exact
    { header := hSame.header
      code1 := hSame.code1
      code2 := hSame.code2
      hashSize := hSize
      payload := hPayload
      path := by
        rw [if_neg (by simp [hDirect]), ← hEq]
        exact List.eq_cons_of_mem_head? hHead
      oneByte := hSize ▸ hOne
      hops := by omega
      path_length := hLength }

/- It fits a frame, with any payload that fits a packet. -/
theorem Rerouted.valid
    {p q : Packet} {selfHash : UInt8}
    (hMoved : Rerouted p selfHash q)
    (hValid : p.Valid)
    {payload : Bytes}
    (hPayload : payload.length ≤ maxPacketPayload) :
    ({ q with payload := payload } : Packet).Valid := by
  have hCodes :
      ({ q with payload := payload } :
          Packet).hasTransportCodes =
        p.hasTransportCodes := by
    simp [Packet.hasTransportCodes, Packet.routeType,
      hMoved.header]
  refine Packet.valid_of_oneByte hMoved.oneByte hMoved.hops
    hMoved.path_length hPayload ?_
  intro hNone
  rw [hCodes] at hNone
  rw [hMoved.code1, hMoved.code2]
  exact hValid.codes_zero hNone

/- Transit moves the path on, and then sees to a reading. -/
theorem exists_rerouted
    {p q : Packet} {selfHash : UInt8} {snr : Int16}
    (hValid : p.Valid)
    (hCopy : transitCopy p selfHash snr = some q) :
    ∃ moved,
      Rerouted p selfHash moved ∧
      (if p.payloadType = .trace then
        appendTraceHop moved (snr * 4)
      else some moved) = some q := by
  simp only [transitCopy, Option.bind_eq_some_iff] at hCopy
  rcases hCopy with ⟨moved, hMoved, hReading⟩
  have hMoved : Rerouted p selfHash moved := by
    by_cases hFlood : p.routeType.isFlood = true
    · rw [if_pos hFlood] at hMoved
      exact appendSelf_rerouted hValid hFlood hMoved
    · rw [if_neg hFlood] at hMoved
      rw [Bool.not_eq_true] at hFlood
      exact stripSelf_rerouted hValid hFlood hMoved
  have hType : moved.payloadType = p.payloadType := by
    simp [Packet.payloadType, hMoved.header]
  rw [hType] at hReading
  exact ⟨moved, hMoved, hReading⟩

/-
  The copy that transit makes is the packet with its path
  moved on, and it always fits a frame.
-/
theorem transitCopy_onward
    {p q : Packet} {selfHash : UInt8} {snr : Int16}
    (hValid : p.Valid)
    (hCopy : transitCopy p selfHash snr = some q) :
    Onward p selfHash q ∧ q.Valid := by
  rcases exists_rerouted hValid hCopy with
    ⟨moved, hMoved, hReading⟩
  have hOnward :
      ∀ payload, ReadingAdded p payload →
        Onward p selfHash { moved with payload := payload } :=
    fun payload hAdded =>
      ⟨hMoved.header, hMoved.code1, hMoved.code2,
        hMoved.hashSize, hMoved.path, hAdded⟩
  by_cases hTrace : p.payloadType = .trace
  · rw [if_pos hTrace] at hReading
    simp only [appendTraceHop] at hReading
    split_ifs at hReading with _ hShort hFull
    injection hReading with hEq
    rw [← hEq]
    constructor
    · apply hOnward
      rw [ReadingAdded, if_pos hTrace, hMoved.payload]
      exact ⟨_, rfl⟩
    · apply hMoved.valid hValid
      rw [List.length_append, List.length_singleton]
      omega
  · rw [if_neg hTrace] at hReading
    injection hReading with hEq
    rw [← hEq]
    constructor
    · apply hOnward
      rw [ReadingAdded, if_neg hTrace, hMoved.payload]
    · apply hMoved.valid hValid
      rw [hMoved.payload]
      exact hValid.payload_le

/- What is sent on is read back as the copy it is. -/
theorem exists_transitCopy
    {p : Packet} {selfHash : UInt8} {snr : Int16}
    {out : Bytes}
    (hValid : p.Valid)
    (hOut : onwardFrame p selfHash snr = some out) :
    ∃ q,
      transitCopy p selfHash snr = some q ∧
      parse out = some q ∧
      Onward p selfHash q := by
  rw [onwardFrame, Option.bind_eq_some_iff] at hOut
  rcases hOut with ⟨q, hCopy, hWritten⟩
  rcases transitCopy_onward hValid hCopy with
    ⟨hOnward, hFits⟩
  exact ⟨q, hCopy, parse_serialize hFits hWritten, hOnward⟩

theorem onwardFrame_onward
    {p : Packet} {selfHash : UInt8} {snr : Int16}
    {out : Bytes}
    (hValid : p.Valid)
    (hOut : onwardFrame p selfHash snr = some out) :
    ∃ q, parse out = some q ∧ Onward p selfHash q := by
  rcases exists_transitCopy hValid hOut with
    ⟨q, -, hParse, hOnward⟩
  exact ⟨q, hParse, hOnward⟩

------------------------------------------------------------
-- The Frame
------------------------------------------------------------

section Frames

variable [CryptoCore]

/- A packet that is no trace keeps its duplicate key. -/
theorem Onward.packetHash_eq
    {p q : Packet} {selfHash : UInt8} {frame out : Bytes}
    (hOnward : Onward p selfHash q)
    (hFrame : parse frame = some p)
    (hOut : parse out = some q)
    (hOther : p.payloadType ≠ .trace) :
    packetHash out = packetHash frame := by
  have hPayload := hOnward.payload
  rw [ReadingAdded, if_neg hOther] at hPayload
  simp only [packetHash, hFrame, hOut, hOnward.header,
    hPayload]

variable {δ : Type} {D : Delegate δ}

/- A frame is queued by the frame that it carries on. -/
theorem onwardFrame_of_queued
    {frame out : Bytes} {p : Packet}
    (hParse : parse frame = some p)
    (rx : RxMeta)
    (s : δ × Router)
    (hQueued :
      .queued out ∈
        s.2.actsSince (onFrame D frame rx s).2) :
    onwardFrame p s.2.store.selfHash rx.snr = some out := by
  rcases onFrame_does (D := D) frame rx s.1 s.2 with
    ⟨acts, hDoes, hActs⟩
  rw [hDoes.actsSince] at hQueued
  rcases hActs with rfl | ⟨q, here, ahead, hParsed, -, rfl,
    hDelivery, hAhead⟩
  · simp at hQueued
  · rw [hParse, Option.some.injEq] at hParsed
    subst hParsed
    simp only [List.mem_cons, reduceCtorEq, false_or,
      List.mem_append] at hQueued
    rcases hQueued with hHere | hHere
    · exact absurd (hDelivery _ hHere) id
    · rcases hAhead with rfl | ⟨onward, hOnward, rfl⟩
      · simp at hHere
      · rw [List.mem_singleton, Act.queued.injEq] at hHere
        rw [hHere]
        exact hOnward

/- What is not a packet is not forwarded. -/
theorem exists_parse_of_queued
    {frame out : Bytes} {rx : RxMeta} {s : δ × Router}
    (hQueued :
      .queued out ∈
        s.2.actsSince (onFrame D frame rx s).2) :
    ∃ p, parse frame = some p := by
  cases hParse : parse frame with
  | none =>
      have hSame : onFrame D frame rx s = s := by
        simp only [onFrame, hParse]
      rw [hSame] at hQueued
      simp [actsSince] at hQueued
  | some p => exact ⟨p, rfl⟩

/-
  Whatever frame the parser accepts and a router forwards,
  the frame it queues is the same packet with its path moved
  on, and a copy that could be made can be written.
-/
theorem forwarded_onFrame
    {frame : Bytes} {p : Packet}
    (hParse : parse frame = some p)
    (rx : RxMeta)
    (s : δ × Router) :
    (∀ out,
      .queued out ∈
          s.2.actsSince (onFrame D frame rx s).2 →
        ∃ q,
          parse out = some q ∧
          Onward p s.2.store.selfHash q ∧
          (p.payloadType ≠ .trace →
            packetHash out = packetHash frame)) ∧
      ∀ copy,
        transitCopy p s.2.store.selfHash rx.snr =
            some copy →
          ∃ out, serialize copy maxPacketFrame = some out := by
  have hValid := parse_valid hParse
  constructor
  · intro out hQueued
    rcases onwardFrame_onward hValid
        (onwardFrame_of_queued hParse rx s hQueued) with
      ⟨q, hOut, hOnward⟩
    exact ⟨q, hOut, hOnward,
      hOnward.packetHash_eq hParse hOut⟩
  · intro copy hCopy
    exact ⟨_, serialize_of_valid
      (transitCopy_onward hValid hCopy).2⟩

end Frames

section Example

open Sample

/- The second hop of three hands a packet to the third. -/
theorem direct_packet_is_forwarded :
    let frame := sampleDirectFrame [2, 3]
    let s : Unit × Router := ((), ofByte 2)
    let s' := onFrame .carrier frame {} s
    ∃ out,
      .queued out ∈ s.2.actsSince s'.2 ∧
        ∃ q,
          parse out = some q ∧
          Onward (sampleDirect [2, 3]) s.2.store.selfHash
            q ∧
          ((sampleDirect [2, 3]).payloadType ≠ .trace →
            packetHash out = packetHash frame) := by
  have hQueued :
      .queued (sampleDirectFrame [3]) ∈
        (ofByte 2).actsSince
          (onFrame .carrier (sampleDirectFrame [2, 3]) {}
            ((), ofByte 2)).2 := by
    decide +kernel
  have hParse :
      parse (sampleDirectFrame [2, 3]) =
        some (sampleDirect [2, 3]) := by
    decide +kernel
  exact ⟨_, hQueued,
    (forwarded_onFrame hParse {} ((), ofByte 2)).1 _
      hQueued⟩

end Example

end Router

end MeshCore
