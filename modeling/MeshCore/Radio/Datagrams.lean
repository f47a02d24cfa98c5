import MeshCore.Radio.Conservation

/-
  The air that drivers share over UDP. A datagram is the id
  of the driver that sent it, and a frame. A driver passes
  on every frame of another driver whole, and none of its
  own that comes back.

  Key definitions include:
    * `UdpRadio.transmit`
    * `UdpRadio.passedOn`

  Key facts include:
    * `UdpRadio.passedOn_transmit`
    * `Driver.tick_usable`
    * `Traffic.Conserves.sendable`
-/

namespace MeshCore

------------------------------------------------------------
-- Datagrams
------------------------------------------------------------

def senderIdSize : Nat := 8

def datagramMax : Nat :=
  senderIdSize + maxPacketFrame

/- Drawn at random when the driver is made. -/
abbrev SenderId :=
  Vector UInt8 senderIdSize

namespace UdpRadio

/- What is sent to every endpoint. -/
def transmit (selfId : SenderId) (frame : Bytes) : Bytes :=
  selfId.toList ++ frame

/- What the sink gets of a datagram, as the buffer has it. -/
def passedOn
    (selfId : SenderId)
    (datagram : Bytes) :
    Option Bytes :=
  let got := datagram.take datagramMax
  if got.length ≤ senderIdSize then none
  -- our own transmission looped back
  else if got.take senderIdSize = selfId.toList then none
  else some (got.drop senderIdSize)

/-
  All that is left of a datagram on the way is its frame, up
  to the size of a buffer, and that only at other drivers.
-/
theorem passedOn_transmit
    (selfId sender : SenderId)
    (frame : Bytes) :
    passedOn selfId (transmit sender frame) =
      if frame = [] ∨ sender = selfId then none
      else some (frame.take maxPacketFrame) := by
  have hSender : sender.toList.length = senderIdSize := by
    simp
  have hGot :
      (transmit sender frame).take datagramMax =
        sender.toList ++ frame.take maxPacketFrame := by
    rw [transmit, datagramMax, List.take_append, hSender,
      Nat.add_sub_cancel_left, List.take_of_length_le]
    omega
  have hSame :
      sender.toList = selfId.toList ↔ sender = selfId := by
    rw [Vector.toList_inj]
  simp only [passedOn, hGot, List.length_append, hSender,
    List.take_left' hSender, List.drop_left' hSender, hSame]
  cases frame with
  | nil => simp
  | cons byte rest =>
      simp [maxPacketFrame]

end UdpRadio

------------------------------------------------------------
-- Nothing Unusable Is Sent
------------------------------------------------------------

namespace Air

variable (airtimeUs : Nat → UInt32)
variable (usable : Bytes → Bool) (starts : Bool)
variable (now : Millis)

theorem turn_usable
    {air air' : Air} {e : TxEntry} {slot : Slot}
    (hTurn :
      turn airtimeUs usable starts now air =
        (.sent e slot, air')) :
    usable e.frame = true := by
  simp only [turn] at hTurn
  cases hPop : air.queue.pop with
  | none => simp [hPop] at hTurn
  | some taken =>
      simp only [hPop] at hTurn
      split_ifs at hTurn with hUsable
      all_goals simp_all

/- Turn after turn. -/
theorem drain_usable (n : Nat) (air : Air) :
    ∀ sent ∈
        sentIn (drain airtimeUs usable starts now n air).1,
      usable sent.2 = true := by
  induction n generalizing air with
  | zero => simp [drain, sentIn]
  | succ n ih =>
      rcases hTurn :
          turn airtimeUs usable starts now air with
        ⟨outcome, air'⟩
      have hRest :
          ∀ sent ∈
              sentIn
                (drain airtimeUs usable starts now n
                  air').1,
            usable sent.2 = true :=
        ih air'
      cases outcome with
      | idle => simp [drain, hTurn, sentIn]
      | refused e => simp [drain, hTurn, sentIn]
      | dropped e =>
          simp only [drain, hTurn]
          exact hRest
      | sent e slot =>
          simp only [drain, hTurn]
          intro sent hSent
          rcases List.mem_cons.mp hSent with rfl | hSent
          · exact turn_usable airtimeUs usable starts now
              hTurn
          · exact hRest sent hSent

end Air

section Calls

variable (airtimeUs : Nat → UInt32)

theorem Driver.tick_usable
    (d : Driver)
    (now : Millis)
    (done starts : Bool) :
    ∀ sent ∈ sentIn (d.tick airtimeUs now done starts).1,
      d.usable sent.2 = true := by
  have hNone :
      ∀ sent ∈ sentIn [], d.usable sent.2 = true := by
    simp [sentIn]
  cases d with
  | virtual r => exact fun _ _ => rfl
  | udp r =>
      simp only [tick, UdpRadio.tick]
      split
      · exact hNone
      · exact Air.drain_usable airtimeUs _ true now _ _
  | sx1262 r =>
      simp only [tick, Sx1262Radio.tick]
      split
      · exact hNone
      · split
        · split
          · exact hNone
          · exact hNone
        · let r' : Sx1262Radio := { r with now := now }
          have hUsable :=
            Air.drain_usable airtimeUs
              (fun frame =>
                !frame.isEmpty &&
                  frame.length ≤ maxPacketFrame)
              starts now 1 r'.air
          rw [← startTransmit_drains airtimeUs r' now
            starts] at hUsable
          exact hUsable

/- What a driver sends could be sent, over any calls. -/
theorem Traffic.Conserves.sendable
    {d : Driver} {s s' : Traffic}
    {us vs : List (Transition Traffic DriverCall)}
    (hConserves : Traffic.Conserves d us s)
    (hSent :
      ∀ sent ∈ sentIn s.turns, d.usable sent.2 = true)
    (hRun :
      Run (fun s c s' => s.call airtimeUs c = s') s vs s') :
    ∀ sent ∈ sentIn s'.turns, d.usable sent.2 = true := by
  induction hRun with
  | start => exact hSent
  | @step vs s' s'' c hBefore hStep ih =>
      have hSame := (hConserves.run airtimeUs hBefore).same
      rw [← hStep]
      cases c with
      | send frame P => exact ih
      | canTransmitNow => exact ih
      | usedPermille => exact ih
      | tick now done starts =>
          intro sent hMem
          rw [Traffic.call, sentIn_append,
            List.mem_append] at hMem
          rcases hMem with hMem | hMem
          · exact ih sent hMem
          · rw [← hSame.usable]
            exact s'.driver.tick_usable airtimeUs now done
              starts sent hMem

end Calls

end MeshCore
