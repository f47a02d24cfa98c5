import MeshCore.Packet.Frame

/-
  The layout of a frame, and the codec that is exact on it.

  The layout is stated with the arithmetic of its length
  byte rather than with the masks the code uses; the parser
  accepts the byte strings that have it and no others, and
  writing undoes reading in both directions.

  Key definitions include:
    * `Layout`
    * `Layout.bytes`
    * `Packet.WithinLimits`

  Key facts include:
    * `parse_bytes`
    * `serialize_parse`
    * `codec_is_exact`
-/

namespace MeshCore

------------------------------------------------------------
-- The Layout
------------------------------------------------------------

/- How many hops the length byte declares. -/
def hopsOf (pathLength : UInt8) : Nat :=
  pathLength.toNat % 64

/- The size code in the two bits above them. -/
def sizeCodeOf (pathLength : UInt8) : Nat :=
  pathLength.toNat / 64

/-
  The parts of a frame, in the order they are sent. The
  codes are there for a transport route and for no other.
-/
structure Layout where
  header : UInt8
  codes : Bytes
  pathLength : UInt8
  path : Bytes
  payload : Bytes
  codes_length :
    codes.length =
      if (routeTypeOf header).hasTransportCodes then 4
      else 0
  sizeCode_le : sizeCodeOf pathLength ≤ 2
  path_length :
    path.length =
      hopsOf pathLength * (sizeCodeOf pathLength + 1)
  path_le : path.length ≤ 64
  payload_le : payload.length ≤ 184

namespace Layout

/- The parts, one after the other. -/
def bytes (l : Layout) : Bytes :=
  l.header :: l.codes ++
    l.pathLength :: l.path ++ l.payload

/- The limits of the parts keep the whole within a frame. -/
theorem length_bytes_le (l : Layout) :
    2 ≤ l.bytes.length ∧ l.bytes.length ≤ 254 := by
  have hCodes : l.codes.length ≤ 4 := by
    rw [l.codes_length]
    split <;> omega
  have hPath := l.path_le
  have hPayload := l.payload_le
  simp only [bytes, List.cons_append, List.length_cons,
    List.length_append]
  constructor
  · omega
  · omega

end Layout

------------------------------------------------------------
-- The Length Byte
------------------------------------------------------------

theorem hopsOf_eq_mask (b : UInt8) :
    (b &&& 0x3F).toNat = hopsOf b := by
  revert b
  apply forall_byte
  decide +kernel

theorem sizeCodeOf_eq_mask (b : UInt8) :
    ((b &&& 0xC0) >>> 6 + 1).toNat =
      sizeCodeOf b + 1 := by
  revert b
  apply forall_byte
  decide +kernel

/- Its two fields, put together again. -/
theorem pathLength_joined (b : UInt8) :
    (((b &&& 0xC0) >>> 6 + 1 - 1) <<< 6) |||
        (b &&& 0x3F) = b := by
  revert b
  apply forall_byte
  decide +kernel

/- The two bytes a transport code was read from. -/
theorem bytes_readUint16 (low high : UInt8) :
    (readUint16 low high).toUInt8 = low ∧
      (readUint16 low high >>> 8).toUInt8 = high := by
  constructor
  · apply UInt8.eq_of_toBitVec_eq
    apply BitVec.eq_of_getLsbD_eq
    intro i hi
    simp [readUint16, hi]
  · apply UInt8.eq_of_toBitVec_eq
    apply BitVec.eq_of_getLsbD_eq
    intro i hi
    simp [readUint16, hi, show 8 + i < 16 by omega]

------------------------------------------------------------
-- From Bytes To A Packet And Back
------------------------------------------------------------

/- The tail of a frame is what its packet writes there. -/
theorem parsePath_bytes
    {header : UInt8} {code1 code2 : UInt16}
    {rest : Bytes} {p : Packet}
    (hParse : parsePath header code1 code2 rest = some p) :
    pathLengthOf p :: p.path ++ p.payload = rest := by
  cases rest with
  | nil => simp [parsePath] at hParse
  | cons pathLength body =>
      simp only [parsePath] at hParse
      split_ifs at hParse
      injection hParse with hEq
      subst hEq
      simp only [pathLengthOf, pathLength_joined,
        List.cons_append, List.take_append_drop]

/- Writing what was parsed gives the frame back. -/
theorem serialize_parse
    {frame : Bytes} {p : Packet}
    (hParse : parse frame = some p) :
    serialize p maxPacketFrame = some frame := by
  rw [serialize_of_valid (parse_valid hParse)]
  congr 1
  simp only [parse] at hParse
  split_ifs at hParse
  cases frame with
  | nil => simp at hParse
  | cons header rest =>
      by_cases hCodes :
          (routeTypeOf header).hasTransportCodes = true
      · simp only [hCodes, if_true] at hParse
        rcases rest with
          _ | ⟨a, _ | ⟨b, _ | ⟨c, _ | ⟨d, rest⟩⟩⟩⟩
        case cons.cons.cons.cons =>
          have hTail := parsePath_bytes hParse
          rcases parsePath_eq_some hParse with
            ⟨hHeader, hOne, hTwo, _⟩
          have hSelf : p.hasTransportCodes = true := by
            simpa [Packet.hasTransportCodes,
              Packet.routeType, hHeader] using hCodes
          simp only [codesOf, hSelf, if_true, hHeader,
            hOne, hTwo, bytes_readUint16,
            List.cons_append, List.nil_append]
          simpa using hTail
        all_goals simp at hParse
      · simp only [hCodes] at hParse
        have hTail := parsePath_bytes hParse
        rcases parsePath_eq_some hParse with
          ⟨hHeader, _⟩
        have hSelf : p.hasTransportCodes = false := by
          simpa [Packet.hasTransportCodes,
            Packet.routeType, hHeader] using hCodes
        simp only [codesOf, hSelf, Bool.false_eq_true,
          if_false, hHeader, List.cons_append,
          List.nil_append]
        simpa using hTail

/- A larger buffer changes nothing. -/
theorem serialize_capacity
    {p : Packet} {frame : Bytes} {capacity : Nat}
    (hValid : p.Valid)
    (hWritten : serialize p maxPacketFrame = some frame)
    (hRoom : frame.length ≤ capacity) :
    serialize p capacity = some frame := by
  have hFrame := hWritten
  rw [serialize_of_valid hValid] at hFrame
  injection hFrame with hFrame
  have hLength :
      fixedPrefixSize + p.pathSize + p.payload.length +
        p.codesSize = frame.length := by
    subst hFrame
    simp only [fixedPrefixSize, packetHeaderSize,
      packetPathLengthSize, Packet.codesSize, codesOf,
      packetTransportCodesSize, List.cons_append,
      List.length_cons, List.length_append,
      hValid.path_length]
    split
    · simp only [List.length_cons, List.length_nil]
      omega
    · simp only [List.length_nil]
      omega
  have hTotal := hValid.total_le
  simp only [serialize] at hWritten ⊢
  rw [hLength] at hWritten hTotal ⊢
  simp only [Nat.not_lt.mpr hTotal,
    Nat.not_lt.mpr hRoom, or_false, if_false]
    at hWritten ⊢
  exact hWritten

------------------------------------------------------------
-- Accepting The Layout
------------------------------------------------------------

theorem length_codesOf (p : Packet) :
    (codesOf p).length =
      if (routeTypeOf p.header).hasTransportCodes then 4
      else 0 := by
  change _ = if p.hasTransportCodes then 4 else 0
  unfold codesOf
  cases p.hasTransportCodes with
  | true => rfl
  | false => rfl

theorem sizeCodeOf_pathLengthOf_le
    {p : Packet}
    (hValid : p.Valid) :
    sizeCodeOf (pathLengthOf p) ≤ 2 := by
  have hBits := pathLength_bits hValid.hashSize_pos
    hValid.hashSize_le hValid.hopCount_le
  have hCode := sizeCodeOf_eq_mask (pathLengthOf p)
  have hSize := hValid.hashSize_le
  rw [pathLengthOf, hBits.2] at hCode
  simp only [pathLengthOf, maxHashSize] at hCode hSize ⊢
  omega

theorem length_path_of_valid
    {p : Packet}
    (hValid : p.Valid) :
    p.path.length =
      hopsOf (pathLengthOf p) *
        (sizeCodeOf (pathLengthOf p) + 1) := by
  have hBits := pathLength_bits hValid.hashSize_pos
    hValid.hashSize_le hValid.hopCount_le
  rw [← sizeCodeOf_eq_mask, ← hopsOf_eq_mask,
    pathLengthOf, hBits.1, hBits.2]
  exact hValid.path_length

theorem length_path_le_of_valid
    {p : Packet}
    (hValid : p.Valid) :
    p.path.length ≤ 64 := by
  rw [hValid.path_length]
  exact hValid.pathSize_le

/- The parts of a packet that fits. -/
def layoutOf (p : Packet) (hValid : p.Valid) : Layout where
  header := p.header
  codes := codesOf p
  pathLength := pathLengthOf p
  path := p.path
  payload := p.payload
  codes_length := length_codesOf p
  sizeCode_le := sizeCodeOf_pathLengthOf_le hValid
  path_length := length_path_of_valid hValid
  path_le := length_path_le_of_valid hValid
  payload_le := hValid.payload_le

/- The tail of the layout is read as it was laid out. -/
theorem parsePath_layout
    (l : Layout) (code1 code2 : UInt16) :
    (parsePath l.header code1 code2
      (l.pathLength :: l.path ++ l.payload)).isSome =
        true := by
  have hPath := l.path_length
  have hPathLe := l.path_le
  have hPayload := l.payload_le
  have hCode := l.sizeCode_le
  simp only [List.cons_append, parsePath,
    hopsOf_eq_mask, sizeCodeOf_eq_mask,
    ← hPath, List.length_append]
  rw [if_neg (by simp only [maxHashSize]; omega),
    if_neg (by simp only [maxPathSize]; omega),
    if_neg (by omega),
    if_neg (by simp only [maxPacketPayload]; omega)]
  rfl

/- Bytes that have the layout are accepted. -/
theorem parse_bytes (l : Layout) :
    (parse l.bytes).isSome = true := by
  have hLength := l.length_bytes_le
  have hCodes := l.codes_length
  simp only [parse]
  rw [if_neg (by
    simp only [fixedPrefixSize, packetHeaderSize,
      packetPathLengthSize, maxPacketFrame]
    omega)]
  simp only [Layout.bytes, List.cons_append]
  by_cases hRoute :
      (routeTypeOf l.header).hasTransportCodes = true
  · simp only [hRoute, if_true] at hCodes ⊢
    generalize hList : l.codes = codes at hCodes ⊢
    rcases codes with
      _ | ⟨a, _ | ⟨b, _ | ⟨c, _ | ⟨d, _ | ⟨e, rest⟩⟩⟩⟩⟩
    case cons.cons.cons.cons.nil =>
      simpa [hList] using parsePath_layout l
        (readUint16 a b) (readUint16 c d)
    all_goals simp at hCodes
  · simp only [hRoute] at hCodes ⊢
    have hNil : l.codes = [] := by
      apply List.eq_nil_of_length_eq_zero
      simpa using hCodes
    simpa [hNil] using parsePath_layout l 0 0

/- A frame is accepted if and only if it has the layout. -/
theorem parse_isSome_iff (frame : Bytes) :
    (parse frame).isSome = true ↔
      ∃ l : Layout, l.bytes = frame := by
  constructor
  · intro hSome
    rcases Option.isSome_iff_exists.mp hSome with
      ⟨p, hParse⟩
    have hValid := parse_valid hParse
    have hBack := serialize_parse hParse
    rw [serialize_of_valid hValid] at hBack
    exact ⟨layoutOf p hValid, Option.some.inj hBack⟩
  · rintro ⟨l, rfl⟩
    exact parse_bytes l

------------------------------------------------------------
-- Packets Within The Limits
------------------------------------------------------------

/-
  The limits of the fields, each on its own. Codes the
  route does not have are zero.
-/
structure Packet.WithinLimits (p : Packet) : Prop where
  hopCount_le : p.hopCount.toNat ≤ 63
  hashSize_pos : 1 ≤ p.hashSize.toNat
  hashSize_le : p.hashSize.toNat ≤ 3
  path_length :
    p.path.length = p.hopCount.toNat * p.hashSize.toNat
  path_le : p.path.length ≤ 64
  payload_le : p.payload.length ≤ 184
  codes_zero :
    p.hasTransportCodes = false →
      p.transportCode1 = 0 ∧ p.transportCode2 = 0

/- The ceiling of the whole frame adds nothing to them. -/
theorem Packet.WithinLimits.valid
    {p : Packet}
    (hLimits : p.WithinLimits) :
    p.Valid := by
  have hPath := hLimits.path_le
  have hPayload := hLimits.payload_le
  have hLength : p.path.length = p.pathSize :=
    hLimits.path_length
  have hCodes : p.codesSize ≤ 4 := by
    simp only [Packet.codesSize, packetTransportCodesSize]
    split <;> omega
  exact
    { hashSize_pos := hLimits.hashSize_pos
      hashSize_le := hLimits.hashSize_le
      hopCount_le := hLimits.hopCount_le
      path_length := hLength
      pathSize_le := by
        simp only [maxPathSize]
        omega
      payload_le := hLimits.payload_le
      total_le := by
        simp only [fixedPrefixSize, packetHeaderSize,
          packetPathLengthSize, maxPacketFrame]
        omega
      codes_zero := hLimits.codes_zero }

/-
  The codec is exact. The parser accepts the frames with
  the layout and no others; what it accepts is written back
  byte for byte into any buffer that holds it; and a packet
  within the limits is written, and read back as it was.
-/
theorem codec_is_exact
    (frame : Bytes) (p : Packet) (capacity : Nat) :
    ((parse frame).isSome = true ↔
      2 ≤ frame.length ∧ frame.length ≤ 255 ∧
        ∃ l : Layout, l.bytes = frame) ∧
    (parse frame = some p →
      frame.length ≤ capacity →
        serialize p capacity = some frame) ∧
    (p.WithinLimits →
      254 ≤ capacity →
        ∃ written,
          serialize p capacity = some written ∧
            parse written = some p) := by
  refine ⟨?_, ?_, ?_⟩
  · rw [parse_isSome_iff]
    constructor
    · rintro ⟨l, rfl⟩
      have hLength := l.length_bytes_le
      exact ⟨hLength.1, by omega, l, rfl⟩
    · rintro ⟨_, _, hLayout⟩
      exact hLayout
  · intro hParse hRoom
    exact serialize_capacity (parse_valid hParse)
      (serialize_parse hParse) hRoom
  · intro hLimits hCapacity
    have hValid := hLimits.valid
    have hWritten := serialize_of_valid hValid
    have hLength :=
      (layoutOf p hValid).length_bytes_le.2
    refine ⟨_, serialize_capacity hValid hWritten ?_,
      parse_serialize hValid hWritten⟩
    exact Nat.le_trans hLength hCapacity

/- A three-hop transport frame goes through both ways. -/
theorem transport_frame_is_exact :
    serialize
        { header := 0x08
          transportCode1 := 0x1234
          transportCode2 := 0xFFFF
          hashSize := 1
          hopCount := 3
          path := [7, 8, 9]
          payload := [1, 2] } 255 =
      some [0x08, 0x34, 0x12, 0xFF, 0xFF, 3, 7, 8, 9,
        1, 2] ∧
    ∃ written,
      serialize
          { header := 0x08
            transportCode1 := 0x1234
            transportCode2 := 0xFFFF
            hashSize := 1
            hopCount := 3
            path := [7, 8, 9]
            payload := [1, 2] } 255 = some written ∧
        parse written =
          some
            { header := 0x08
              transportCode1 := 0x1234
              transportCode2 := 0xFFFF
              hashSize := 1
              hopCount := 3
              path := [7, 8, 9]
              payload := [1, 2] } := by
  constructor
  · exact (codec_is_exact
      [0x08, 0x34, 0x12, 0xFF, 0xFF, 3, 7, 8, 9, 1, 2]
      _ 255).2.1 (by decide +kernel) (by decide)
  · exact (codec_is_exact [] _ 255).2.2
      { hopCount_le := by decide
        hashSize_pos := by decide
        hashSize_le := by decide
        path_length := by decide
        path_le := by decide
        payload_le := by decide
        codes_zero := by
          intro hCodes
          exact absurd hCodes (by decide) }
      (by decide)

end MeshCore
