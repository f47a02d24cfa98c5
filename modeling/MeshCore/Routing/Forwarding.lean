import MeshCore.Library.Run
import MeshCore.Routing.History

/-
  Whether a direct packet is carried when it is our turn.

  What decides is not who has carried the packet but who
  has heard it: the cache is asked first, its key leaves the
  path out, and a copy overheard on its way to an earlier
  hop has the key of the copy that is ours to carry.

  Key definitions include:
    * `Router.OurTurn`
    * `Router.Carried`
    * `Router.CarriesOn`
    * `Router.CanTravel`

  Key facts include:
    * `Router.onwardFrame_isSome_iff`
    * `Router.run_carriesOn_iff`
-/

namespace MeshCore

namespace Router

------------------------------------------------------------
-- What Is Asked
------------------------------------------------------------

/- A direct packet whose next hop we are. -/
structure OurTurn (r : Router) (p : Packet) : Prop where
  direct :
    p.routeType = .direct ∨ p.routeType = .transportDirect
  hashSize : p.hashSize = UInt8.ofNat nodeHashSize
  next : p.path.head? = some r.store.selfHash

/- We sent or forwarded a frame of this packet already. -/
def Carried (r : Router) (p : Packet) : Prop :=
  ∃ frame q,
    ((∃ time, .originated frame time ∈ r.history) ∨
      .queued frame ∈ r.history) ∧
    parse frame = some q ∧
    q.header = p.header ∧
    q.payload = p.payload

/- What a router did on the way to another state. -/
def actsSince (r r' : Router) : List Act :=
  r'.history.drop r.history.length

/- A trace is carried with one reading more. -/
def ReadingAdded (p : Packet) (payload : Bytes) : Prop :=
  if p.payloadType = .trace then
    ∃ reading, payload = p.payload ++ [reading]
  else payload = p.payload

/- The packet as it leaves, with this payload. -/
def nextCopy (p : Packet) (payload : Bytes) : Packet :=
  { p with
    path := p.path.tail
    hopCount := p.hopCount - 1
    payload := payload }

/- The packet was queued with our hash off its path. -/
def CarriesOn (r r' : Router) (p : Packet) : Prop :=
  ∃ out payload,
    .queued out ∈ r.actsSince r' ∧
    ReadingAdded p payload ∧
    parse out = some (nextCopy p payload)

/- A trace needs room for its reading. -/
def RoomForReading (p : Packet) : Prop :=
  p.payloadType = .trace →
    tracePrefixSize ≤ p.payload.length ∧
      p.payload.length < maxPacketPayload

------------------------------------------------------------
-- The Onward Frame
------------------------------------------------------------

/-
  Whatever is sent on parses as the same packet, seen from
  another place, with a reading more if it is a trace.
-/
theorem onwardFrame_eq_some
    {p : Packet}
    {selfHash : UInt8} {snr : Int16} {out : Bytes}
    (hValid : p.Valid)
    (hOut : onwardFrame p selfHash snr = some out) :
    ∃ q,
      parse out = some q ∧
      p.SameBut q ∧
      ReadingAdded p q.payload := by
  simp only [onwardFrame, transitCopy,
    Option.bind_eq_some_iff] at hOut
  rcases hOut with ⟨q, ⟨copy, hCopy, hReading⟩, hWritten⟩
  have hSame : p.SameBut copy ∧ copy.payload = p.payload := by
    split at hCopy
    · rcases appendSelf_eq_some hValid hCopy with
        ⟨hSame, hPayload, -⟩
      exact ⟨hSame, hPayload⟩
    · rcases stripSelf_eq_some hValid hCopy with
        ⟨hSame, hPayload, -⟩
      exact ⟨hSame, hPayload⟩
  rcases hSame with ⟨hSame, hPayload⟩
  have hType : copy.payloadType = p.payloadType := by
    simp [Packet.payloadType, hSame.header]
  have hQ : p.SameBut q ∧ ReadingAdded p q.payload := by
    unfold ReadingAdded
    rw [← hType, ← hPayload]
    split at hReading
    next hTrace =>
      simp only [appendTraceHop] at hReading
      split_ifs at hReading
      injection hReading with hEq
      subst hEq
      rw [if_pos hTrace]
      exact ⟨⟨hSame.header, hSame.code1, hSame.code2,
        hSame.path_length⟩, _, rfl⟩
    next hOther =>
      injection hReading with hEq
      subst hEq
      rw [if_neg hOther]
      exact ⟨hSame, rfl⟩
  refine ⟨q, ?_, hQ⟩
  apply parse_serialize (valid_of_serialize hWritten
    hQ.1.path_length ?_) hWritten
  intro hNone
  rw [hQ.1.code1, hQ.1.code2]
  apply hValid.codes_zero
  rw [← hNone]
  simp [Packet.hasTransportCodes, Packet.routeType,
    hQ.1.header]

/- Whoever is next can drop itself from the path. -/
theorem OurTurn.stripSelf_eq
    {r : Router} {p : Packet}
    (hTurn : r.OurTurn p)
    (hValid : p.Valid) :
    stripSelf p r.store.selfHash =
      some (nextCopy p p.payload) := by
  have hSize : p.hashSize.toNat = nodeHashSize := by
    simp [hTurn.hashSize, nodeHashSize]
  have hHops : p.hopCount ≠ 0 := by
    intro hZero
    have hLength := hValid.path_length
    simp only [Packet.pathSize, hZero, UInt8.toNat_zero,
      Nat.zero_mul, List.length_eq_zero_iff] at hLength
    have hNext := hTurn.next
    simp [hLength] at hNext
  simp [stripSelf, hSize, hHops, hTurn.next,
    nextCopy]

/- What a hop takes off the path makes up for a reading. -/
theorem OurTurn.nextCopy_valid
    {r : Router} {p : Packet} {payload : Bytes}
    (hTurn : r.OurTurn p)
    (hValid : p.Valid)
    (hFits : payload.length ≤ maxPacketPayload)
    (hGrows : payload.length ≤ p.payload.length + 1) :
    (nextCopy p payload).Valid := by
  rcases stripSelf_eq_some hValid (hTurn.stripSelf_eq hValid)
    with ⟨hSame, -, -, hHops, hPath⟩
  have hTotal := hValid.total_le
  have hHopsLe := hValid.hopCount_le
  have hPathLe := hValid.pathSize_le
  have hCodes :
      (nextCopy p payload).codesSize = p.codesSize := rfl
  have hSize :
      (nextCopy p payload).pathSize =
        (nextCopy p p.payload).pathSize := rfl
  exact
    { hashSize_pos := hValid.hashSize_pos
      hashSize_le := hValid.hashSize_le
      hopCount_le := by
        change (nextCopy p p.payload).hopCount.toNat ≤ _
        omega
      path_length := hSame.path_length
      pathSize_le := by omega
      payload_le := hFits
      total_le := by
        change _ + _ + payload.length + _ ≤ _
        omega
      codes_zero := hValid.codes_zero }

/- The copy leaves exactly if its reading has room. -/
theorem OurTurn.transitCopy_eq
    {r : Router} {p : Packet}
    (hTurn : r.OurTurn p)
    (hValid : p.Valid)
    (snr : Int16) :
    transitCopy p r.store.selfHash snr =
      if p.payloadType = .trace then
        if p.payload.length < tracePrefixSize ∨
            maxPacketPayload ≤ p.payload.length then
          none
        else
          some
            (nextCopy p
              (p.payload ++ [clampSnr (snr * 4)]))
      else some (nextCopy p p.payload) := by
  have hDirect : p.routeType.isFlood = false := by
    rcases hTurn.direct with hRoute | hRoute <;>
      rw [hRoute] <;> rfl
  have hType :
      (nextCopy p p.payload).payloadType = p.payloadType :=
    rfl
  simp only [transitCopy, hDirect,
    Bool.false_eq_true, if_false, hTurn.stripSelf_eq hValid,
    Option.bind_some, hType, appendTraceHop]
  by_cases hTrace : p.payloadType = .trace
  · simp only [hTrace, if_true, ne_eq, not_true, if_false,
      ite_or]
    rfl
  · simp only [hTrace, if_false]

/- With room for its reading a packet that is ours leaves. -/
theorem OurTurn.onwardFrame_of_room
    {r : Router} {p : Packet}
    (hTurn : r.OurTurn p)
    (hValid : p.Valid)
    (hRoom : RoomForReading p)
    (snr : Int16) :
    ∃ out payload,
      onwardFrame p r.store.selfHash snr = some out ∧
      ReadingAdded p payload ∧
      parse out = some (nextCopy p payload) := by
  have hPayload := hValid.payload_le
  have hLeaves :
      ∀ payload,
        transitCopy p r.store.selfHash snr =
            some (nextCopy p payload) →
          (nextCopy p payload).Valid →
          ∃ out,
            onwardFrame p r.store.selfHash snr = some out ∧
              parse out = some (nextCopy p payload) := by
    intro payload hCopy hNext
    have hWritten := serialize_of_valid hNext
    refine ⟨_, ?_, parse_serialize hNext hWritten⟩
    rw [onwardFrame, hCopy]
    exact hWritten
  rw [hTurn.transitCopy_eq hValid snr] at hLeaves
  by_cases hTrace : p.payloadType = .trace
  · rcases hRoom hTrace with ⟨hLong, hFree⟩
    rw [if_pos hTrace, if_neg (by omega)] at hLeaves
    rcases hLeaves _ rfl (hTurn.nextCopy_valid hValid
        (by simp; omega) (by simp)) with
      ⟨out, hOut, hParse⟩
    refine ⟨out, _, hOut, ?_, hParse⟩
    rw [ReadingAdded, if_pos hTrace]
    exact ⟨_, rfl⟩
  · rw [if_neg hTrace] at hLeaves
    rcases hLeaves _ rfl (hTurn.nextCopy_valid hValid
        hPayload (Nat.le_succ _)) with
      ⟨out, hOut, hParse⟩
    refine ⟨out, _, hOut, ?_, hParse⟩
    rw [ReadingAdded, if_neg hTrace]

/- Without room it ends here. -/
theorem OurTurn.onwardFrame_of_no_room
    {r : Router} {p : Packet}
    (hTurn : r.OurTurn p)
    (hValid : p.Valid)
    (hNoRoom : ¬ RoomForReading p)
    (snr : Int16) :
    onwardFrame p r.store.selfHash snr = none := by
  simp only [RoomForReading, Classical.not_imp] at hNoRoom
  rcases hNoRoom with ⟨hTrace, hNoRoom⟩
  rw [onwardFrame, hTurn.transitCopy_eq hValid snr,
    if_pos hTrace, if_pos (by omega)]
  rfl

------------------------------------------------------------
-- What Can Travel
------------------------------------------------------------

/-
  A packet that can go on from here: a flood with room for
  our hash, a direct packet whose next hop we are, and in
  both cases with room for a reading if it is a trace.
-/
structure CanTravel (p : Packet) (selfHash : UInt8) :
    Prop where
  hashSize : p.hashSize = UInt8.ofNat nodeHashSize
  next :
    if p.routeType.isFlood then
      p.hopCount.toNat < maxHopCount
    else p.path.head? = some selfHash
  room : RoomForReading p

instance (p : Packet) : Decidable (RoomForReading p) :=
  inferInstanceAs (Decidable (_ → _))

instance (p : Packet) (selfHash : UInt8) :
    Decidable (CanTravel p selfHash) :=
  decidable_of_iff
    (p.hashSize = UInt8.ofNat nodeHashSize ∧
      (if p.routeType.isFlood then
        p.hopCount.toNat < maxHopCount
      else p.path.head? = some selfHash) ∧
      RoomForReading p)
    ⟨fun ⟨hSize, hNext, hRoom⟩ => ⟨hSize, hNext, hRoom⟩,
      fun h => ⟨h.hashSize, h.next, h.room⟩⟩

instance (r : Router) (p : Packet) :
    Decidable (r.OurTurn p) :=
  decidable_of_iff
    ((p.routeType = .direct ∨
        p.routeType = .transportDirect) ∧
      p.hashSize = UInt8.ofNat nodeHashSize ∧
      p.path.head? = some r.store.selfHash)
    ⟨fun ⟨hDirect, hSize, hNext⟩ => ⟨hDirect, hSize, hNext⟩,
      fun h => ⟨h.direct, h.hashSize, h.next⟩⟩

/- A packet that travels under our hash has one-byte hops. -/
theorem hashSize_eq_iff (p : Packet) :
    p.hashSize = UInt8.ofNat nodeHashSize ↔
      p.hashSize.toNat = nodeHashSize := by
  rw [← UInt8.toNat_inj]
  rfl

/- What takes ourselves up, on its way to anybody. -/
theorem flood_copy_isSome_iff
    {p : Packet}
    (hValid : p.Valid)
    (selfHash : UInt8) :
    (appendSelf p selfHash).isSome ↔
      p.hashSize = UInt8.ofNat nodeHashSize ∧
        p.hopCount.toNat < maxHopCount := by
  have hHops := hValid.hopCount_le
  rw [hashSize_eq_iff, appendSelf]
  split_ifs with hSize hLimit hPath
  · simp [hSize]
  · simp only [Option.isSome_none, Bool.false_eq_true,
      false_iff]
    omega
  · simp only [Packet.pathSize, maxPathSize, maxHopCount,
      nodeHashSize] at *
    rw [not_not.mp hSize] at hPath
    omega
  · simp only [Option.isSome_some, true_iff]
    omega

/- What drops ourselves, on its way to the next hop. -/
theorem direct_copy_isSome_iff
    {p : Packet}
    (hValid : p.Valid)
    (selfHash : UInt8) :
    (stripSelf p selfHash).isSome ↔
      p.hashSize = UInt8.ofNat nodeHashSize ∧
        p.path.head? = some selfHash := by
  have hLength := hValid.path_length
  rw [hashSize_eq_iff, stripSelf]
  split_ifs with hSize hNone hHead
  · simp [hSize]
  · have hEmpty : p.path = [] := by
      simpa [Packet.pathSize, hNone] using hLength
    simp [hEmpty]
  · simp [hHead]
  · simp [not_not.mp hSize, not_not.mp hHead]

/- With one-byte hops every packet fits a frame. -/
theorem serialize_isSome
    {p : Packet}
    (hSize : p.hashSize.toNat = nodeHashSize)
    (hHops : p.hopCount.toNat ≤ maxHopCount)
    (hPayload : p.payload.length ≤ maxPacketPayload) :
    (serialize p maxPacketFrame).isSome := by
  have hPath : p.pathSize ≤ maxHopCount := by
    rw [Packet.pathSize, hSize]
    simpa [nodeHashSize] using hHops
  have hCodes :
      p.codesSize ≤ packetTransportCodesSize := by
    unfold Packet.codesSize
    split <;> simp
  have hOne : ¬ p.hashSize < 1 := by
    rw [UInt8.lt_iff_toNat_lt, hSize]
    decide
  simp only [maxHopCount, maxPacketPayload, nodeHashSize,
    packetTransportCodesSize] at *
  unfold serialize
  rw [if_neg (by simp only [maxHopCount]; omega),
    if_neg (by simp [hOne, hSize, maxHashSize]),
    if_neg (by simp only [maxPacketPayload]; omega),
    if_neg (by simp only [maxPathSize]; omega)]
  simp only
  rw [if_neg]
  · rfl
  · simp only [maxPacketFrame, fixedPrefixSize,
      packetHeaderSize, packetPathLengthSize]
    omega

/- Once it has its path, only a reading can hold it up. -/
theorem carried_isSome_iff
    {p copy : Packet}
    (hSame : p.SameBut copy)
    (hPayload : copy.payload = p.payload)
    (hSize : copy.hashSize.toNat = nodeHashSize)
    (hHops : copy.hopCount.toNat ≤ maxHopCount)
    (hFits : p.payload.length ≤ maxPacketPayload)
    (snr : Int16) :
    ((if copy.payloadType = .trace then
        appendTraceHop copy snr
      else some copy).bind
        (serialize · maxPacketFrame)).isSome ↔
      RoomForReading p := by
  have hType : copy.payloadType = p.payloadType := by
    simp [Packet.payloadType, hSame.header]
  unfold RoomForReading
  rw [← hPayload] at hFits ⊢
  rw [← hType]
  by_cases hTrace : copy.payloadType = .trace
  · simp only [hTrace, if_true, forall_const,
      appendTraceHop, ne_eq, not_true_eq_false, if_false]
    split_ifs with hShort hLong
    · simp only [Option.bind_none, Option.isSome_none,
        Bool.false_eq_true, false_iff]
      omega
    · simp only [Option.bind_none, Option.isSome_none,
        Bool.false_eq_true, false_iff]
      omega
    · have hWritten :=
        serialize_isSome
          (p :=
            { copy with
              payload := copy.payload ++ [clampSnr snr] })
          hSize hHops (by
            rw [List.length_append, List.length_singleton]
            omega)
      simp only [Option.bind_some, hWritten, true_iff]
      omega
  · have hWritten := serialize_isSome hSize hHops hFits
    simp only [hTrace, if_false, Option.bind_some,
      hWritten, false_imp_iff]

/- What can be taken on is written: it fits the frame. -/
theorem onwardFrame_isSome_iff
    {p : Packet}
    (hValid : p.Valid)
    (selfHash : UInt8)
    (snr : Int16) :
    (onwardFrame p selfHash snr).isSome ↔
      CanTravel p selfHash := by
  have hIs :
      CanTravel p selfHash ↔
        (p.hashSize = UInt8.ofNat nodeHashSize ∧
          if p.routeType.isFlood then
            p.hopCount.toNat < maxHopCount
          else p.path.head? = some selfHash) ∧
        RoomForReading p :=
    ⟨fun h => ⟨⟨h.hashSize, h.next⟩, h.room⟩,
      fun h => ⟨h.1.1, h.1.2, h.2⟩⟩
  have hHops := hValid.hopCount_le
  have hFits := hValid.payload_le
  rw [hIs, onwardFrame, transitCopy]
  by_cases hFlood : p.routeType.isFlood = true
  · simp only [hFlood, if_true]
    rw [← flood_copy_isSome_iff hValid selfHash]
    cases hCopy : appendSelf p selfHash with
    | none => simp
    | some copy =>
        rcases appendSelf_eq_some hValid hCopy with
          ⟨hSame, hPayload, -⟩
        simp only [appendSelf] at hCopy
        split_ifs at hCopy with hSize hLimit hPath
        have hSize := not_not.mp hSize
        injection hCopy with hEq
        have hNext :
            copy.hopCount.toNat ≤ maxHopCount := by
          rw [← hEq, UInt8.toNat_add, UInt8.toNat_one]
          have := Nat.mod_le (p.hopCount.toNat + 1) (2 ^ 8)
          omega
        simp only [Option.bind_some, Option.isSome_some,
          true_and]
        apply carried_isSome_iff hSame hPayload _ hNext hFits
        rw [← hEq]
        exact hSize
  · simp only [hFlood, Bool.false_eq_true, if_false]
    rw [← direct_copy_isSome_iff hValid selfHash]
    cases hCopy : stripSelf p selfHash with
    | none => simp
    | some copy =>
        rcases stripSelf_eq_some hValid hCopy with
          ⟨hSame, hPayload, hSize, hFewer, -⟩
        have hOne :
            p.hashSize = UInt8.ofNat nodeHashSize :=
          ((direct_copy_isSome_iff hValid selfHash).mp
            (by rw [hCopy]; rfl)).1
        simp only [Option.bind_some, Option.isSome_some,
          true_and]
        apply carried_isSome_iff hSame hPayload _ (by omega)
          hFits
        rw [hSize, hOne]
        rfl

------------------------------------------------------------
-- What Decides
------------------------------------------------------------

section Direct

variable [CryptoCore]
variable {δ : Type} {D : Delegate δ}

theorem Does.actsSince
    {r r' : Router}
    {acts : List Act}
    (hDoes : r.Does acts r') :
    r.actsSince r' = acts := by
  simp [Router.actsSince, hDoes.history]

/- The delegate agrees, asked once the packet is delivered. -/
def Agrees
    (D : Delegate δ)
    (frame : Bytes)
    (p : Packet)
    (s : δ × Router) :
    Prop :=
  (D.shouldForward
    (dispatch D p (s.1, s.2.takeIn frame)).1
    p).1 = true

/- Where the delegate agrees, what can leave is queued. -/
theorem considerForwarding_of_agreed
    {p : Packet} {d : δ}
    (hCarry : (D.shouldForward d p).1 = true)
    (rx : RxMeta)
    (r : Router) :
    r.Does
      ((onwardFrame p r.store.selfHash rx.snr).map
        Act.queued).toList
      (considerForwarding D p rx (d, r)).2 := by
  unfold considerForwarding
  simp only [hCarry, if_true]
  unfold onwardFrame
  split
  next hOut =>
    rw [hOut]
    exact .refl r
  next out hOut =>
    rw [hOut]
    exact (jitter_does r).trans (queueFrame_does _ _ _ _)

omit [CryptoCore] in
/- What the layer above becomes by being asked. -/
theorem considerForwarding_told
    (p : Packet)
    (rx : RxMeta)
    (s : δ × Router) :
    (considerForwarding D p rx s).1 =
      (D.shouldForward s.1 p).2 := by
  unfold considerForwarding
  simp only
  split
  · split <;> rfl
  · rfl

omit [CryptoCore] in
theorem considerForwarding_of_refused
    {p : Packet} {s : δ × Router}
    (hRefused : (D.shouldForward s.1 p).1 = false)
    (rx : RxMeta) :
    (considerForwarding D p rx s).2 = s.2 := by
  unfold considerForwarding
  simp [hRefused]

/-
  What decides about a packet that is ours to carry: that
  its hash is new here, and that it has room.
-/
theorem onFrame_carriesOn_iff
    {frame : Bytes} {p : Packet}
    {d : δ} {r : Router}
    (hParse : parse frame = some p)
    (hTurn : r.OurTurn p)
    (hAgrees : Agrees D frame p (d, r))
    (rx : RxMeta) :
    r.CarriesOn (onFrame D frame rx (d, r)).2 p ↔
      r.alreadySeen frame = false ∧ RoomForReading p := by
  have hValid := parse_valid hParse
  rcases Bool.eq_false_or_eq_true (r.alreadySeen frame) with
    hSeen | hNew
  · have hIgnored :
        onFrame D frame rx (d, r) = (d, r) := by
      simp [onFrame, hParse, hSeen]
    rw [hIgnored, hSeen]
    constructor
    · rintro ⟨out, payload, hMem, -, -⟩
      simp [actsSince] at hMem
    · rintro ⟨hFalse, -⟩
      contradiction
  · have hDirect :
        isOwnEcho p (r.takeIn frame).store.selfHash =
          false := by
      rcases hTurn.direct with hRoute | hRoute <;>
        simp [isOwnEcho, hRoute, RouteType.isFlood]
    have hTaken :
        onFrame D frame rx (d, r) =
          considerForwarding D p rx
            (dispatch D p (d, r.takeIn frame)) := by
      simp [onFrame, hParse, hNew, hDirect]
    rcases dispatch_delivers (D := D) p d
        (r.takeIn frame) with
      ⟨here, hHere, hDelivery⟩
    have hSoFar := (takeIn_does r frame).trans hHere
    have hAll := hSoFar.trans
      (considerForwarding_of_agreed hAgrees rx _)
    rw [hSoFar.selfHash] at hAll
    rw [hTaken, hNew]
    simp only [true_and]
    constructor
    · rintro ⟨out, payload, hMem, -, -⟩
      by_contra hNoRoom
      -- nothing else in the step queues a frame
      rw [hAll.actsSince,
        hTurn.onwardFrame_of_no_room hValid hNoRoom] at hMem
      simp only [Option.map_none, Option.toList_none,
        List.append_nil, List.singleton_append,
        List.mem_cons, reduceCtorEq, false_or] at hMem
      exact hDelivery _ hMem
    · intro hRoom
      rcases hTurn.onwardFrame_of_room hValid hRoom rx.snr
        with ⟨out, payload, hOut, hReading, hLeaves⟩
      refine ⟨out, payload, ?_, hReading, hLeaves⟩
      rw [hAll.actsSince, hOut]
      simp

/-
  In every run, at every frame that is ours to carry and
  that the delegate agrees to: a packet this node has not
  carried before is carried on exactly if its hash is new.
-/
theorem run_carriesOn_iff
    {store : Store} {entropy : Entropy}
    {config : RouterConfig} {d₀ : δ}
    {ts : List (Transition (δ × Router) (Event δ))}
    {s : δ × Router}
    (hRun :
      Run (fun s e s' => apply D s e = s')
        (d₀, create store entropy config) ts s)
    {t : Transition (δ × Router) (Event δ)}
    (ht : t ∈ ts)
    {frame : Bytes} {rx : RxMeta} {p : Packet}
    (hEvent : t.event = .frame frame rx)
    (hParse : parse frame = some p)
    (hTurn : t.before.2.OurTurn p)
    (hAgrees : Agrees D frame p t.before) :
    (¬ t.before.2.Carried p →
        t.before.2.CarriesOn t.after.2 p) ↔
      t.before.2.Carried p ∨
        t.before.2.alreadySeen frame = false ∧
          RoomForReading p := by
  have hStep := hRun.step_of_mem ht
  rw [hEvent] at hStep
  rw [← hStep, ← onFrame_carriesOn_iff hParse hTurn
    hAgrees rx]
  exact Classical.or_iff_not_imp_left.symm

end Direct

------------------------------------------------------------
-- A Packet Overheard
------------------------------------------------------------

section Example

open Sample

/- A direct packet with these hops still before it. -/
def sampleDirect (path : Bytes) : Packet :=
  { header := headerOf .txtMsg .direct
    hashSize := 1
    hopCount := UInt8.ofNat path.length
    path := path
    payload := [9, 8, 7, 6] }

def sampleDirectFrame (path : Bytes) : Bytes :=
  (serialize (sampleDirect path) maxPacketFrame).getD []

/- A node hears a packet on its way to the hop before it. -/
def overhearing : List (Event Unit) :=
  [.frame (sampleDirectFrame [3, 2]) {},
    .frame (sampleDirectFrame [2]) {}]

/-
  The packet is not carried by anybody yet, and is then
  handed to us to carry: nothing is queued.
-/
theorem overheard_packet_is_not_carried :
    let s₀ : Unit × Router := ((), ofByte 2)
    let s :=
      apply .carrier s₀
        (.frame (sampleDirectFrame [3, 2]) {})
    s.2.OurTurn (sampleDirect [2]) ∧
      Agrees .carrier (sampleDirectFrame [2])
        (sampleDirect [2]) s ∧
      ¬ s.2.Carried (sampleDirect [2]) ∧
      ¬ s.2.CarriesOn
        (apply .carrier s
          (.frame (sampleDirectFrame [2]) {})).2
        (sampleDirect [2]) := by
  have hBefore :
      (apply .carrier ((), ofByte 2)
        (.frame (sampleDirectFrame [3, 2]) {})).2.history =
        [.received (sampleDirectFrame [3, 2]) 0] := by
    decide +kernel
  have hAfter :
      (apply .carrier
        (apply .carrier ((), ofByte 2)
          (.frame (sampleDirectFrame [3, 2]) {}))
        (.frame (sampleDirectFrame [2]) {})).2.history =
        [.received (sampleDirectFrame [3, 2]) 0] := by
    decide +kernel
  refine ⟨⟨by decide, rfl, by decide +kernel⟩, rfl, ?_, ?_⟩
  · rintro ⟨frame, q, hMem, -⟩
    rw [hBefore] at hMem
    simp at hMem
  · rintro ⟨out, payload, hMem, -⟩
    rw [actsSince, hAfter, hBefore] at hMem
    simp at hMem

theorem overheard_packet_run :
    let s₀ : Unit × Router := ((), ofByte 2)
    let ts := replay (apply .carrier) s₀ overhearing
    ∃ t ∈ ts,
      (¬ t.before.2.Carried (sampleDirect [2]) →
          t.before.2.CarriesOn t.after.2
            (sampleDirect [2])) ↔
        t.before.2.Carried (sampleDirect [2]) ∨
          t.before.2.alreadySeen (sampleDirectFrame [2]) =
              false ∧
            RoomForReading (sampleDirect [2]) := by
  refine ⟨_, List.mem_cons_of_mem _ List.mem_cons_self, ?_⟩
  have hHeard :
      ((replay (apply .carrier) ((), ofByte 2)
          overhearing)[1]?).map (·.event) =
        some (.frame (sampleDirectFrame [2]) {}) :=
    rfl
  exact run_carriesOn_iff
    (run_replay (apply .carrier) _ overhearing)
    (List.mem_cons_of_mem _ List.mem_cons_self)
    (Option.some.inj hHeard) (by decide +kernel)
    ⟨by decide, rfl, by decide +kernel⟩ rfl

end Example

end Router

end MeshCore
