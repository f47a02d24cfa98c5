import MeshCore.Node.Host

/-
  What it takes for a setting to be changed in one piece:
  the library that prints the file throws at a string that
  is no text, after the overlay was changed and before it is
  put back, and nothing above it catches that.

  Key definitions include:
    * `HostedBy`
    * `Room.wanted`

  Key facts include:
    * `HostAdmin.saveSetting_terminated`
    * `Room.commandSet_survives`
    * `Room.settings_are_atomic_iff`
-/

namespace MeshCore

open Platform Overlay

------------------------------------------------------------
-- The Host
------------------------------------------------------------

/- The process goes on if the setting could be printed. -/
theorem HostAdmin.saveSetting_terminated
    {lib : JsonLibrary} {host : HostAdmin}
    (hStrict : lib.Strict)
    (hAlive : host.terminated = false)
    (key value : Bytes) :
    (host.saveSetting lib key value).2.terminated = false ↔
      Storable host.overlay.values key value := by
  by_cases hStorable : Storable host.overlay.values key value
  · have hSets :=
      setsAtomically_of_storable hStrict hStorable host.disk
    simp only [SetsAtomically] at hSets
    simp only [saveSetting]
    generalize host.overlay.set lib host.disk key value =
      result at hSets ⊢
    rcases result with ⟨_ | stored, overlay, disk⟩
    · exact hSets.elim
    · simp [hAlive, hStorable]
  · simp only [saveSetting,
      set_of_not_storable hStrict hStorable host.disk]
    simp [hStorable]

theorem HostAdmin.setNodeName_terminated
    {lib : JsonLibrary} {host : HostAdmin}
    (hStrict : lib.Strict)
    (hAlive : host.terminated = false)
    (name : Bytes) :
    (host.setNodeName lib name).2.terminated = false ↔
      Storable host.overlay.values (ascii "node.name")
        name := by
  rw [← saveSetting_terminated hStrict hAlive, setNodeName]
  generalize host.saveSetting lib (ascii "node.name") name =
    result
  rcases result with ⟨_ | _, host'⟩ <;> rfl

------------------------------------------------------------
-- The Commands
------------------------------------------------------------

namespace Room

/- A running process, whose room asks this host. -/
structure HostedBy
    (lib : JsonLibrary)
    (room : Room HostAdmin) :
    Prop where
  admin : room.config.admin = some (HostAdmin.admin lib)
  alive : room.host.terminated = false

/- The setting that a set command asks the host to store. -/
def wanted
    (room : Room HostAdmin)
    (rest : Bytes) :
    Option (Bytes × Bytes) :=
  let (key, rest) := takeWord rest
  let value := trimmed rest
  if key = ascii "name" then
    if value = [] ∨ maxNodeName < value.length then none
    else some (ascii "node.name", value)
  else if key = ascii "password" then
    if maxPassword < value.length then none
    else some (ascii "room.admin_password", value)
  else if key = ascii "guest.password" then
    if maxPassword < value.length then none
    else some (ascii "room.guest_password", value)
  else if key = ascii "anonymous.read" then
    (parseOnOff value).map fun allow =>
      (ascii "room.anonymous_read", flag allow)
  else if room.config.forwarder.isNone then none
  else if key = ascii "repeat" then
    (parseOnOff value).map fun on =>
      (ascii "repeater.enabled", flag on)
  else if key = ascii "hops.max" then
    ((parseUint32 value).filter fun hops =>
        hops ≠ 0 ∧ hops.toNat ≤ maxHopCount).map fun hops =>
      (ascii "repeater.max_hops", decimal hops.toNat)
  else none

/- The process goes on if what it was asked for is text. -/
def Survives
    (room : Room HostAdmin)
    (setting : Option (Bytes × Bytes))
    (room' : Room HostAdmin) :
    Prop :=
  room'.host.terminated = false ↔
    ∀ key value,
      setting = some (key, value) →
        Storable room.host.overlay.values key value

variable {lib : JsonLibrary} {room : Room HostAdmin}

theorem survives_none
    {room' : Room HostAdmin}
    (hAlive : room'.host.terminated = false) :
    room.Survives none room' :=
  iff_of_true hAlive nofun

theorem survives_some
    {room' : Room HostAdmin} {key value : Bytes}
    (hHost :
      room'.host.terminated = false ↔
        Storable room.host.overlay.values key value) :
    room.Survives (some (key, value)) room' := by
  rw [Survives, hHost]
  constructor
  · intro hStorable key' value' hSame
    cases hSame
    exact hStorable
  · intro hAll
    exact hAll key value rfl

theorem saveSetting_host
    (hStrict : lib.Strict)
    (hHosted : room.HostedBy lib)
    (key value : Bytes) :
    ∃ host,
      (room.saveSetting key value).2 =
          { room with host := host } ∧
        (host.terminated = false ↔
          Storable room.host.overlay.values key value) := by
  refine ⟨(room.host.saveSetting lib key value).2, ?_,
    HostAdmin.saveSetting_terminated hStrict hHosted.alive
      key value⟩
  simp only [saveSetting, hHosted.admin, HostAdmin.admin]

theorem setName_survives
    (hStrict : lib.Strict)
    (hHosted : room.HostedBy lib)
    (dest : PublicKey)
    (value : Bytes) :
    (room.setName dest value).Ensures SenderOp.Answers
      (room.Survives
        (if value = [] ∨ maxNodeName < value.length then none
          else some (ascii "node.name", value))) := by
  unfold setName
  split
  · exact reply_ensures _ _ (survives_none hHosted.alive)
  · have hHost :=
      HostAdmin.setNodeName_terminated hStrict
        hHosted.alive value
    simp only [hHosted.admin, HostAdmin.admin]
    refine Program.ensures_ite (fun _ => ?_) fun _ => ?_
    · exact reply_ensures _ _ (survives_some hHost)
    · exact reply_ensures _ _ (survives_some hHost)

theorem setPassword_survives
    (hStrict : lib.Strict)
    (hHosted : room.HostedBy lib)
    (dest : PublicKey)
    (forAdmin : Bool)
    (value : Bytes) :
    (room.setPassword dest forAdmin value).Ensures
      SenderOp.Answers
      (room.Survives
        (if maxPassword < value.length then none
          else
            some
              (if forAdmin then ascii "room.admin_password"
                else ascii "room.guest_password",
              value))) := by
  unfold setPassword
  split
  · exact reply_ensures _ _ (survives_none hHosted.alive)
  · rcases saveSetting_host hStrict hHosted
        (if forAdmin then ascii "room.admin_password"
          else ascii "room.guest_password") value with
      ⟨host, hRoom, hHost⟩
    simp only [hRoom]
    refine Program.ensures_ite (fun _ => ?_) fun _ => ?_
    · exact reply_ensures _ _ (survives_some hHost)
    · exact reply_ensures _ _ (survives_some hHost)

theorem setAnonymousRead_survives
    (hStrict : lib.Strict)
    (hHosted : room.HostedBy lib)
    (dest : PublicKey)
    (value : Bytes) :
    (room.setAnonymousRead dest value).Ensures
      SenderOp.Answers
      (room.Survives
        ((parseOnOff value).map fun allow =>
          (ascii "room.anonymous_read", flag allow))) := by
  unfold setAnonymousRead
  cases parseOnOff value with
  | none =>
      exact reply_ensures _ _ (survives_none hHosted.alive)
  | some allow =>
      rcases saveSetting_host hStrict hHosted
          (ascii "room.anonymous_read") (flag allow) with
        ⟨host, hRoom, hHost⟩
      rw [flag] at hRoom
      simp only [hRoom]
      refine Program.ensures_ite (fun _ => ?_) fun _ => ?_
      · exact reply_ensures _ _ (survives_some hHost)
      · exact reply_ensures _ _ (survives_some hHost)

theorem setForwarder_survives
    (hStrict : lib.Strict)
    (hHosted : room.HostedBy lib)
    (dest : PublicKey)
    (key value : Bytes)
    (apply : Repeater.Policy → Repeater.Policy)
    (text : Repeater.Policy → Bytes) :
    (room.setForwarder dest key value apply text).Ensures
      SenderOp.Answers
      (room.Survives
        (if room.config.forwarder.isNone then none
          else some (key, value))) := by
  unfold setForwarder
  cases room.config.forwarder with
  | none =>
      exact reply_ensures _ _ (survives_none hHosted.alive)
  | some policy =>
      rcases saveSetting_host hStrict hHosted key value with
        ⟨host, hRoom, hHost⟩
      simp only [hRoom]
      refine Program.ensures_ite (fun _ => ?_) fun _ => ?_
      · exact reply_ensures _ _ (survives_some hHost)
      · exact reply_ensures _ _ (survives_some hHost)

theorem setRepeat_survives
    (hStrict : lib.Strict)
    (hHosted : room.HostedBy lib)
    (dest : PublicKey)
    (value : Bytes) :
    (room.setRepeat dest value).Ensures SenderOp.Answers
      (room.Survives
        (if room.config.forwarder.isNone then none
          else
            (parseOnOff value).map fun on =>
              (ascii "repeater.enabled", flag on))) := by
  unfold setRepeat
  cases parseOnOff value with
  | none =>
      rw [Option.map_none, ite_self]
      exact reply_ensures _ _ (survives_none hHosted.alive)
  | some on =>
      exact setForwarder_survives hStrict hHosted dest _
        (flag on) _ _

theorem setHopsMax_survives
    (hStrict : lib.Strict)
    (hHosted : room.HostedBy lib)
    (dest : PublicKey)
    (value : Bytes) :
    (room.setHopsMax dest value).Ensures SenderOp.Answers
      (room.Survives
        (if room.config.forwarder.isNone then none
          else
            ((parseUint32 value).filter fun hops =>
                hops ≠ 0 ∧ hops.toNat ≤ maxHopCount).map
              fun hops =>
                (ascii "repeater.max_hops",
                  decimal hops.toNat))) := by
  unfold setHopsMax
  cases (parseUint32 value).filter fun hops =>
      hops ≠ 0 ∧ hops.toNat ≤ maxHopCount with
  | none =>
      rw [Option.map_none, ite_self]
      exact reply_ensures _ _ (survives_none hHosted.alive)
  | some hops =>
      exact setForwarder_survives hStrict hHosted dest _
        (decimal hops.toNat) _ _

/- Whatever is set, the process goes on if it is text. -/
theorem commandSet_survives
    (hStrict : lib.Strict)
    (hHosted : room.HostedBy lib)
    (dest : PublicKey)
    (rest : Bytes) :
    (room.commandSet dest rest).Ensures SenderOp.Answers
      (room.Survives (room.wanted rest)) := by
  unfold commandSet wanted
  generalize takeWord rest = words
  rcases words with ⟨key, rest⟩
  simp only
  by_cases hName : key = ascii "name"
  · rw [if_pos hName, if_pos hName]
    exact setName_survives hStrict hHosted dest _
  rw [if_neg hName, if_neg hName]
  by_cases hAdmin : key = ascii "password"
  · rw [if_pos hAdmin, if_pos hAdmin]
    exact setPassword_survives hStrict hHosted dest true _
  rw [if_neg hAdmin, if_neg hAdmin]
  by_cases hGuest : key = ascii "guest.password"
  · rw [if_pos hGuest, if_pos hGuest]
    exact setPassword_survives hStrict hHosted dest false _
  rw [if_neg hGuest, if_neg hGuest]
  by_cases hRead : key = ascii "anonymous.read"
  · rw [if_pos hRead, if_pos hRead]
    exact setAnonymousRead_survives hStrict hHosted dest _
  rw [if_neg hRead, if_neg hRead]
  by_cases hRepeat : key = ascii "repeat"
  · simp only [if_pos hRepeat]
    exact setRepeat_survives hStrict hHosted dest _
  simp only [if_neg hRepeat]
  by_cases hHops : key = ascii "hops.max"
  · simp only [if_pos hHops]
    exact setHopsMax_survives hStrict hHosted dest _
  · simp only [if_neg hHops, ite_self]
    exact reply_ensures _ _ (survives_none hHosted.alive)

/-
  A setting is changed in the overlay and in its file, or in
  neither, if and only if it and everything kept beside it
  is text; and that is when the process lives to answer.
-/
theorem settings_are_atomic_iff (hStrict : lib.Strict) :
    (∀ (overlay : Overlay) (disk : Disk) (key value : Bytes),
      overlay.SetsAtomically lib disk key value ↔
        Storable overlay.values key value) ∧
      ∀ room : Room HostAdmin,
        room.HostedBy lib →
          ∀ (dest : PublicKey) (rest : Bytes),
            (room.commandSet dest rest).Ensures
              SenderOp.Answers
              (room.Survives (room.wanted rest)) :=
  ⟨setsAtomically_iff hStrict,
    fun _ hHosted dest rest =>
      commandSet_survives hStrict hHosted dest rest⟩

section Example

open Sample

theorem strict_settings_are_atomic :
    Overlay.SetsAtomically Plain.strictLibrary
        { values := ∅ } bareDisk (ascii "node.name")
        (ascii "Hill") ∧
      ¬ Overlay.SetsAtomically Plain.strictLibrary
        { values := ∅ } bareDisk (ascii "node.name")
        [0xFF] := by
  have hThis :=
    (settings_are_atomic_iff Plain.strictLibrary_strict).1
      { values := ∅ } bareDisk (ascii "node.name")
  constructor
  · refine (hThis _).mpr ⟨by decide +kernel,
      by decide +kernel, ?_⟩
    intro key' value' _ hEntry
    rw [Std.ExtTreeMap.getElem?_empty] at hEntry
    contradiction
  · intro hSets
    have hText := ((hThis _).mp hSets).valueText
    exact absurd hText (by decide +kernel)

/- An admin of a room whose file can be written. -/
def nameless : Room HostAdmin :=
  { roomFrom Plain.strictLibrary noLists
      { values := ∅, lists := ∅ } { values := ∅ }
      bareDisk 0 with
    clients := [{ pk := key 1, access := .admin }] }

/- Setting a name of one byte that is no text. -/
theorem a_name_ends_the_process :
    ¬ ∀ (room : Room HostAdmin) (dest : PublicKey)
        (rest : Bytes),
        room.HostedBy Plain.strictLibrary →
          (room.commandSet dest rest).Ensures
              (fun _ => True)
              (fun room' => room'.host.terminated = false) ∧
            ∀ key value,
              room.wanted rest = some (key, value) →
                room.host.overlay.SetsAtomically
                  Plain.strictLibrary room.host.disk
                  key value := by
  intro hAll
  have hSets :=
    (hAll nameless (key 1) (ascii "name " ++ [0xFF])
      ⟨rfl, rfl⟩).2 (ascii "node.name") [0xFF]
        (by decide +kernel)
  have hThrown :
      (nameless.host.overlay.set Plain.strictLibrary
        nameless.host.disk (ascii "node.name") [0xFF]).1 =
        none := by
    decide +kernel
  unfold SetsAtomically at hSets
  generalize nameless.host.overlay.set Plain.strictLibrary
    nameless.host.disk (ascii "node.name") [0xFF] =
    result at hSets hThrown
  rcases result with ⟨_, overlay, disk⟩
  cases hThrown
  exact hSets

end Example

end Room

end MeshCore
