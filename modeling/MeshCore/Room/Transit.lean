import MeshCore.Room.Channels
import MeshCore.Room.Restart

/-
  What a room does to its transit counters: one command
  clears them, and the answer whether to forward moves one
  of them, wherever transit is on.

  Key definitions include:
    * `Room.clears`, `Room.transitAfter`
    * `Room.TransitOn`

  Key facts include:
    * `Room.perform_transit`
    * `Room.shouldForward_forwarded`
    * `Room.shouldForward_transit_ne`
-/

namespace MeshCore

namespace Room

variable {η : Type}

------------------------------------------------------------
-- What Clears Them
------------------------------------------------------------

/- An event that clears the counters: that command, taken. -/
def clears (room : Room η) : Event η → Bool
| .payload contact .txtMsg plain =>
    (room.executes contact.pk plain).isSome &&
      (decodeText plain).any (clearsStats ·.message)
| _ => false

/- What an event leaves of what was counted. -/
def transitAfter
    (room : Room η)
    (e : Event η) :
    Repeater.Stats :=
  if room.clears e then {} else transitOf room.config

section Handlers

variable [CryptoCore]

/- Of all texts only that command touches a counter. -/
theorem handleText_transit
    (room : Room η)
    (contact : Contact)
    (plain : Bytes) :
    (room.handleText contact plain).Ensures
      (fun _ => True)
      fun result =>
        transitOf result.2.config =
          room.transitAfter
            (.payload contact .txtMsg plain) := by
  -- what is not executed leaves the counters alone
  have hNothing :
      room.executes contact.pk plain = none →
        transitOf room.config =
          room.transitAfter
            (.payload contact .txtMsg plain) := by
    intro hNone
    simp [transitAfter, clears, hNone]
  have hExecuted :
      ∀ message timestamp,
        decodeText plain = some message →
          room.executes contact.pk plain = some timestamp →
            room.transitAfter
                (.payload contact .txtMsg plain) =
              if clearsStats message.message then {}
              else transitOf room.config := by
    intro message timestamp hText hTaken
    simp [transitAfter, clears, hText, hTaken]
  unfold executes at hNothing hExecuted
  unfold handleText
  cases hText : decodeText plain with
  | none => exact hNothing (by simp [hText])
  | some message =>
      cases hRow : room.findClient contact.pk with
      | none => exact hNothing (by simp [hText, hRow])
      | some row =>
          simp only [hText, hRow, Option.bind_some]
            at hNothing hExecuted ⊢
          cases hType : textTypeOf message.txtType with
          | none => exact hNothing (by simp [hType])
          | some type =>
              cases type with
              | plain =>
                  have hSame := hNothing (by simp [hType])
                  simp only
                  refine Program.ensures_ite (fun _ => ?_)
                    fun _ => ?_
                  · exact hSame
                  · rw [Program.ensures_bind]
                    exact (Program.ensures_trivial _).mono
                      (fun _ h => h) fun _ _ => hSame
              | signed => exact hNothing (by simp [hType])
              | cli =>
                  simp only
                  unfold handleCommand
                  simp only
                  refine Program.ensures_ite (fun hNo => ?_)
                    fun hMay => ?_
                  · have hSame :=
                      hNothing (if_neg fun h => hNo h.2.1)
                    have hReply :
                        (room.reply (room.client row).pk
                            (ascii
                              "ERR - admin rights required")
                          ).Ensures SenderOp.Answers
                          fun room' =>
                            transitOf room'.config =
                              room.transitAfter
                                (.payload contact .txtMsg
                                  plain) :=
                      reply_ensures _ _ hSame
                    exact (refused_ensures hReply).mono
                      (fun _ _ => trivial) fun _ h => h
                  refine Program.ensures_ite
                    (fun hOld => ?_) fun hNew => ?_
                  · exact hNothing (if_neg fun h =>
                      UInt32.not_le.mpr hOld h.2.2)
                  · rw [hExecuted message _ rfl
                      (if_pos ⟨hType, not_not.mp hMay,
                        UInt32.not_lt.mp hNew⟩)]
                    apply (runCommand_commanded _ _ _).mono
                      (fun _ _ => trivial)
                    intro result hCommanded
                    exact hCommanded.transit

omit [CryptoCore] in
/- A change of rows or posts touches no setting. -/
theorem transitOf_of_config
    {room room' : Room η}
    (hConfig : room'.config = room.config) :
    transitOf room'.config = transitOf room.config := by
  rw [hConfig]

/- What is counted changes by that command alone. -/
theorem perform_transit
    (room : Room η)
    (e : Event η)
    (hOther : ∀ p, e ≠ .forward p) :
    (room.perform e).Ensures (fun _ => True)
      fun room' =>
        transitOf room'.config = room.transitAfter e := by
  cases e with
  | anon pk plain =>
      have hOnly := login_onlyLogins room pk plain
      rw [perform, onAnon]
      generalize room.login pk plain = result at hOnly ⊢
      rcases result with ⟨none | row, room'⟩
      · exact transitOf_of_config hOnly.config
      · simp only
        rw [Program.ensures_bind]
        exact (Program.ensures_trivial _).mono
          (fun _ h => h) fun _ _ =>
            transitOf_of_config hOnly.config
  | payload contact type plain =>
      cases type with
      | txtMsg =>
          simp only [perform, onPayload]
          rw [Program.ensures_bind]
          exact room.handleText_transit contact plain
      | req =>
          simp only [perform, onPayload]
          cases room.findClient contact.pk with
          | none => exact rfl
          | some row =>
              simp only
              rw [Program.ensures_bind]
              exact (handleRequest_onlyRows room row plain).mono
                (fun _ h => h) fun _ hRows =>
                  transitOf_of_config hRows.config
      | _ => exact rfl
  | group type payload =>
      have hRest := (onGroup_onlyPosts room type payload).rest
      have hConfig :=
        congrArg (fun r : Room η => r.config) hRest
      exact transitOf_of_config hConfig
  | forward p => exact absurd rfl (hOther p)
  | ack id =>
      exact transitOf_of_config
        (onAck_onlyRows room id).config
  | failed id =>
      exact transitOf_of_config
        (onDeliveryFailed_onlyRows room id).config
  | tick now =>
      exact (tick_onlyRows room now).mono
        (fun _ h => h) fun _ hRows =>
          transitOf_of_config hRows.config
  | _ => exact rfl

end Handlers

------------------------------------------------------------
-- What Moves Them
------------------------------------------------------------

/- The node repeats, and has not switched transit off. -/
def TransitOn (room : Room η) : Prop :=
  room.config.type.repeats = true ∧
    room.config.forwarder.any (·.config.enabled) = true

instance (room : Room η) : Decidable room.TransitOn :=
  inferInstanceAs (Decidable (_ ∧ _))

/- Switched off, a room carries nothing and counts nothing. -/
theorem shouldForward_off
    {room : Room η}
    (hOff : ¬ room.TransitOn)
    (p : Packet) :
    (room.shouldForward p).1 = false ∧
      transitOf (room.shouldForward p).2.config =
        transitOf room.config := by
  unfold shouldForward
  split
  · exact ⟨rfl, rfl⟩
  next hRepeats =>
    split
    · exact ⟨rfl, rfl⟩
    next policy hPolicy =>
      have hPolicyOff : policy.config.enabled = false := by
        rw [← Bool.not_eq_true]
        intro hOn
        apply hOff
        exact ⟨not_not.mp hRepeats, by rw [hPolicy]; exact hOn⟩
      rw [Repeater.Policy.shouldForward_off hPolicyOff]
      exact ⟨rfl, by simp [transitOf, hPolicy]⟩

/- One more is counted as forwarded for every agreement. -/
theorem shouldForward_forwarded
    (room : Room η)
    (p : Packet) :
    (transitOf (room.shouldForward p).2.config).forwarded =
      if (room.shouldForward p).1 then
        (transitOf room.config).forwarded + 1
      else (transitOf room.config).forwarded := by
  unfold shouldForward
  split
  · rfl
  · split
    · rfl
    next policy hPolicy =>
      have hCounts :=
        policy.shouldForward_forwarded p room.now
          room.radioLoad
      simp only [transitOf, hPolicy, Option.map_some,
        Option.getD_some]
      exact hCounts

/- Switched on, some counter moves for every packet. -/
theorem shouldForward_transit_ne
    {room : Room η}
    (hOn : room.TransitOn)
    (p : Packet) :
    transitOf (room.shouldForward p).2.config ≠
      transitOf room.config := by
  rcases hOn with ⟨hRepeats, hEnabled⟩
  cases hPolicy : room.config.forwarder with
  | none => simp [hPolicy] at hEnabled
  | some policy =>
      have hPolicyOn : policy.config.enabled = true := by
        simpa [hPolicy] using hEnabled
      have hMoves :=
        Repeater.Policy.shouldForward_stats_ne hPolicyOn p
          room.now room.radioLoad
      unfold shouldForward
      rw [if_neg (not_not.mpr hRepeats), hPolicy]
      simpa [transitOf, hPolicy] using hMoves

end Room

end MeshCore
