import MeshCore.Routing.Errands
import MeshCore.Routing.Transit

/-
  What a frame of our own parses as, and that every frame
  the radio is given is a real one.

  Key definitions include:
    * `Router.built`

  Key facts include:
    * `Router.parse_buildFrame`
    * `Router.flood_buildFrame`
-/

namespace MeshCore

namespace Router

------------------------------------------------------------
-- Frames Of Our Own
------------------------------------------------------------

/- The packet that a frame of our own is to carry. -/
def built
    (type : PayloadType)
    (payload : Bytes)
    (route : Option Route) :
    Packet :=
  { header :=
      headerOf type
        (if route.isSome then .direct else .flood)
    hashSize := UInt8.ofNat nodeHashSize
    hopCount :=
      UInt8.ofNat ((route.map (·.path)).getD []).length
    path := (route.map (·.path)).getD []
    payload := payload.take maxPacketPayload }

/- A route of up to 63 hops gives a packet that fits. -/
theorem built_valid
    {type : PayloadType} {payload : Bytes}
    {route : Option Route}
    (hRoute :
      ∀ known ∈ route, known.path.length ≤ maxHopCount) :
    (built type payload route).Valid := by
  have hPath :
      ((route.map (·.path)).getD []).length ≤
        maxHopCount := by
    cases route with
    | none => exact Nat.zero_le _
    | some known => exact hRoute known rfl
  have hHops :
      (built type payload route).hopCount.toNat =
        ((route.map (·.path)).getD []).length := by
    unfold maxHopCount at hPath
    simp only [built, UInt8.toNat_ofNat']
    omega
  apply Packet.valid_of_oneByte rfl
  · rw [hHops]
    exact hPath
  · exact hHops.symm
  · exact List.length_take_le _ _
  · intro _
    exact ⟨rfl, rfl⟩

/- A frame of our own is read back as what it is to carry. -/
theorem parse_buildFrame
    {type : PayloadType} {payload : Bytes}
    {route : Option Route}
    (hRoute :
      ∀ known ∈ route, known.path.length ≤ maxHopCount) :
    parse (buildFrame type payload route) =
      some (built type payload route) := by
  have hValid : (built type payload route).Valid :=
    built_valid hRoute
  have hWritten := serialize_of_valid hValid
  have hFrame :
      buildFrame type payload route =
        (serialize (built type payload route)
          maxPacketFrame).getD [] :=
    rfl
  rw [hFrame, hWritten, Option.getD_some]
  exact parse_serialize hValid hWritten

/- The header of a packet is the first byte of its frame. -/
theorem head?_of_parse
    {frame : Bytes} {p : Packet}
    (hParse : parse frame = some p) :
    frame.head? = some p.header := by
  simp only [parse] at hParse
  split_ifs at hParse
  cases frame with
  | nil => simp at hParse
  | cons header rest =>
      by_cases hCodes :
          (routeTypeOf header).hasTransportCodes = true
      · simp only [hCodes, if_true] at hParse
        rcases rest with
          _ | ⟨a, _ | ⟨b, _ | ⟨c, _ | ⟨d, rest⟩⟩⟩⟩
        case cons.cons.cons.cons =>
          rw [(parsePath_eq_some hParse).1]
          rfl
        all_goals simp at hParse
      · simp only [hCodes] at hParse
        rw [(parsePath_eq_some hParse).1]
        rfl

theorem head?_of_serialize
    {p : Packet} {frame : Bytes}
    (hWritten : serialize p maxPacketFrame = some frame) :
    frame.head? = some p.header := by
  simp only [serialize] at hWritten
  split_ifs at hWritten
  injection hWritten with hFrame
  rw [← hFrame]
  rfl

/- Whatever a frame of our own parses as has its header. -/
theorem header_of_buildFrame
    {type : PayloadType} {payload : Bytes}
    {route : Option Route} {p : Packet}
    (hParse :
      parse (buildFrame type payload route) = some p) :
    p.header = (built type payload route).header := by
  have hFrame :
      buildFrame type payload route =
        (serialize (built type payload route)
          maxPacketFrame).getD [] :=
    rfl
  have hHead := head?_of_parse hParse
  rw [hFrame] at hHead
  cases hWritten :
      serialize (built type payload route)
        maxPacketFrame with
  | none => simp [hWritten] at hHead
  | some frame =>
      rw [hWritten, Option.getD_some,
        head?_of_serialize hWritten,
        Option.some.injEq] at hHead
      exact hHead.symm

/- What we send as a flood starts with an empty path. -/
theorem flood_buildFrame
    {type : PayloadType} {payload : Bytes}
    {route : Option Route} {p : Packet}
    (hParse : parse (buildFrame type payload route) = some p)
    (hFlood : p.routeType.isFlood = true) :
    p.path = [] ∧ p.hashSize.toNat = nodeHashSize := by
  cases route with
  | none =>
      rw [parse_buildFrame (by simp),
        Option.some.injEq] at hParse
      rw [← hParse]
      exact ⟨rfl, rfl⟩
  | some known =>
      have hDirect : p.routeType = .direct := by
        rw [Packet.routeType, header_of_buildFrame hParse]
        exact routeTypeOf_headerOf type .direct
      rw [hDirect] at hFlood
      contradiction

end Router

end MeshCore
