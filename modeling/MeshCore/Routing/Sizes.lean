import MeshCore.Routing.Peers

/-
  What fits is carried whole. A frame has room for any
  payload on any route there can be, and the envelope in the
  payload has room for 175 bytes with their padding, but not
  for one byte more.

  Key definitions include:
    * `maxPlaintext`
    * `Errand.Whole`
    * `OpensTo`
    * `Router.HandsOver`, `Router.Tells`

  Key facts include:
    * `envelope_fits_iff`, `group_fits_iff`
    * `Errand.whole`
    * `Router.sendDirect_tells`
-/

namespace MeshCore

------------------------------------------------------------
-- The Room For A Plaintext
------------------------------------------------------------

/- The longest plaintext that an envelope holds. -/
def maxPlaintext : Nat :=
  (maxPacketPayload - envelopePrefixSize) /
      packetCipherBlockSize * packetCipherBlockSize - 1

/- A byte more would take another block, and too many. -/
theorem envelope_fits_iff (length : Nat) :
    envelopePrefixSize + paddedLength length ≤
        maxPacketPayload ↔
      length ≤ maxPlaintext := by
  simp only [maxPlaintext, maxPacketPayload, paddedLength,
    envelopePrefixSize, nodeHashSize, packetMacSize,
    packetCipherBlockSize]
  omega

/- The shorter prefix of channel traffic gains nothing. -/
theorem group_fits_iff (length : Nat) :
    groupPrefixSize + paddedLength length ≤
        maxPacketPayload ↔
      length ≤ maxPlaintext := by
  simp only [maxPlaintext, maxPacketPayload, paddedLength,
    groupPrefixSize, envelopePrefixSize, nodeHashSize,
    packetMacSize, packetCipherBlockSize]
  omega

------------------------------------------------------------
-- Errands
------------------------------------------------------------

/- The frame is read back with all that it is to carry. -/
def Errand.Whole (errand : Errand) : Prop :=
  ∃ p,
    parse errand.frame = some p ∧
      p.payloadType = errand.type ∧
      p.path = (errand.route.map (·.path)).getD [] ∧
      p.payload = errand.payload

/- The longest route and the longest payload make a frame. -/
theorem Errand.whole
    {errand : Errand}
    (hRoute :
      ∀ known ∈ errand.route,
        known.path.length ≤ maxHopCount)
    (hPayload : errand.payload.length ≤ maxPacketPayload) :
    errand.Whole := by
  refine ⟨_, Router.parse_buildFrame hRoute, ?_, rfl, ?_⟩
  · exact payloadTypeOf_headerOf _ _
  · exact List.take_of_length_le hPayload

/- The addressee of the envelope finds all of a plaintext. -/
def OpensTo
    [CryptoCore]
    (secret : SharedSecret)
    (dest : PublicKey)
    (wire plain : Bytes) :
    Prop :=
  ∃ envelope,
    decodeEnvelope wire = some envelope ∧
      envelope.destinationHash = PublicKey.hash dest ∧
      openCiphertext secret (copyInto _ envelope.cipherMac)
          envelope.ciphertext envelope.ciphertext.length =
        some plain

------------------------------------------------------------
-- Sending
------------------------------------------------------------

namespace Router

variable [CryptoCore]

/- All that was sent is one frame, and it is whole. -/
def HandsOver
    (r : Router)
    (errand : Errand)
    (r' : Router) :
    Prop :=
  r.Performs [errand] r' ∧ errand.Whole

/-
  `r.Tells dest type plain r'` holds when `r` became `r'` by
  sending one frame, whose envelope holds the plaintext and
  no less. It takes a secret for the peer, and a route that
  a frame has room for.
-/
def Tells
    (r : Router)
    (dest : PublicKey)
    (type : PayloadType)
    (plain : Bytes)
    (r' : Router) :
    Prop :=
  ∀ secret,
    (r.secretFor dest).1 = some secret →
    (∀ known ∈ r.findRoute dest,
      known.path.length ≤ maxHopCount) →
    ∃ wire,
      envelopeFor r.store.selfHash secret dest plain =
          some wire ∧
        r.HandsOver
          { type := type
            payload := wire
            route := r.findRoute dest }
          r' ∧
        (Deciphers → OpensTo secret dest wire plain)

/- No plaintext that has room is dropped, or cut. -/
theorem sendDirect_tells
    (r : Router)
    (dest : PublicKey)
    (type : PayloadType)
    {plain : Bytes}
    (hFits : plain.length ≤ maxPlaintext)
    (wantAck : Bool) :
    r.Tells dest type plain
      (r.sendDirect dest type plain wantAck).2 := by
  intro secret hSecret hRoute
  have hRoom := (envelope_fits_iff plain.length).mpr hFits
  rcases exists_envelopeFor r.store.selfHash secret dest
      hRoom with
    ⟨wire, hWire⟩
  have hErrand :
      errandOf (.sendDirect dest type plain wantAck) r =
        some
          { type := type
            payload := wire
            route := r.findRoute dest } := by
    rw [errandOf, sealFor, hSecret, Option.bind_some, hWire]
    rfl
  have hSent :=
    sendDirect_performs r dest type plain wantAck
  rw [hErrand] at hSent
  refine ⟨wire, hWire, ⟨hSent, ?_⟩, fun hCipher => ?_⟩
  · exact Errand.whole hRoute (length_envelopeFor hWire)
  · rcases envelopeFor_eq_some hCipher hWire with
      ⟨envelope, hDecoded, hDest, -, hOpens⟩
    exact ⟨envelope, hDecoded, hDest, hOpens⟩

end Router

end MeshCore
