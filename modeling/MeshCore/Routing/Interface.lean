import MeshCore.Library.Program
import MeshCore.Identity.Store

/-
  The two interfaces between routing and the layer above.

  Downwards, a layer above asks routing to send, reads the
  store and draws random bytes; what it does is a program
  over these operations. Upwards, routing hands payloads to
  a delegate, whose callbacks are such programs, since a
  callback may send.

  Key definitions include:
    * `SenderOp`
    * `SenderM`
    * `SenderOp.Unacked`, `SenderOp.Answers`
    * `Delegate`
-/

namespace MeshCore

------------------------------------------------------------
-- Sending
------------------------------------------------------------

/- What the layer above asks of the layers below it. -/
inductive SenderOp where
| sendDirect
    (dest : PublicKey)
    (type : PayloadType)
    (payload : Bytes)
    (wantAck : Bool)
| sendAck
    (dest : PublicKey)
    (value : UInt32)
    (extra : Bytes)
| sendFlood
    (type : PayloadType)
    (payload : Bytes)
| randomBytes (n : Nat)
| store

def SenderOp.Ans : SenderOp → Type
| .sendDirect _ _ _ _ => SendId
| .sendAck _ _ _ => Unit
| .sendFlood _ _ => Unit
| .randomBytes _ => Bytes
| .store => Store

/- A computation of the layer above. -/
abbrev SenderM :=
  Program SenderOp SenderOp.Ans

def sendDirect
    (dest : PublicKey)
    (type : PayloadType)
    (payload : Bytes)
    (wantAck : Bool) :
    SenderM SendId :=
  .perform (SenderOp.sendDirect dest type payload wantAck)

def sendAck
    (dest : PublicKey)
    (value : UInt32)
    (extra : Bytes) :
    SenderM Unit :=
  .perform (SenderOp.sendAck dest value extra)

def sendFlood
    (type : PayloadType)
    (payload : Bytes) :
    SenderM Unit :=
  .perform (SenderOp.sendFlood type payload)

def randomBytes (n : Nat) : SenderM Bytes :=
  .perform (SenderOp.randomBytes n)

def readStore : SenderM Store :=
  .perform SenderOp.store

/- An operation that puts something on the air. -/
def SenderOp.sends : SenderOp → Bool
| .sendDirect _ _ _ _ => true
| .sendAck _ _ _ => true
| .sendFlood _ _ => true
| .randomBytes _ => false
| .store => false

/- An operation that asks for no acknowledgement. -/
def SenderOp.Unacked : SenderOp → Prop
| .sendDirect _ _ _ wantAck => wantAck = false
| _ => True

/- What a payload is answered with: one node is told. -/
def SenderOp.Answers : SenderOp → Prop
| .sendFlood _ _ => False
| op => op.Unacked

theorem SenderOp.Answers.unacked
    {op : SenderOp}
    (hAnswers : op.Answers) :
    op.Unacked := by
  cases op with
  | sendFlood type payload => exact hAnswers.elim
  | _ => exact hAnswers

------------------------------------------------------------
-- Delegates
------------------------------------------------------------

/-
  The layer above, with state `δ`. A payload handed up may
  be answered at once, so those callbacks are programs. The
  two outcome callbacks touch the delegate's own state only,
  and so does the question whether to forward, which may
  count what it was asked.
-/
structure Delegate (δ : Type) where
  onPayload :
    δ → Contact → PayloadType → Bytes → SenderM δ
  onAnon : δ → PublicKey → Bytes → SenderM δ
  keysMatching : δ → UInt8 → Nat → List PublicKey
  onGroup : δ → PayloadType → Bytes → SenderM δ
  onTrace : δ → Trace → Bytes → SenderM δ
  onAck : δ → SendId → δ
  onDeliveryFailed : δ → SendId → δ
  shouldAck : δ → PayloadType → Bytes → Bool
  shouldForward : δ → Packet → Bool × δ

/- A layer above that agrees to forward, and no more. -/
def Delegate.carrier : Delegate Unit where
  onPayload := fun _ _ _ _ => pure ()
  onAnon := fun _ _ _ => pure ()
  keysMatching := fun _ _ _ => []
  onGroup := fun _ _ _ => pure ()
  onTrace := fun _ _ _ => pure ()
  onAck := fun _ _ => ()
  onDeliveryFailed := fun _ _ => ()
  shouldAck := fun _ _ _ => false
  shouldForward := fun _ _ => (true, ())

end MeshCore
