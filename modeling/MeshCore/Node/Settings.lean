import MeshCore.Library.Run
import MeshCore.Node.Host

/-
  What is set over the air and what a restart brings back.
  A setting is stored before it is applied, so the file and
  the values in force move together, or neither moves.

  Key definitions include:
    * `Setting`
    * `Stored`, `Untouched`
    * `InStep`
    * `SetStep`, `RepliesErr`

  Key facts include:
    * `settingsOf_put`
    * `Room.commandSet_settles`
    * `inStep_startRoom`
    * `Room.settings_survive_restart`
-/

namespace MeshCore

open Platform Room

------------------------------------------------------------
-- Settings
------------------------------------------------------------

/- A setting, with the value it is given. -/
inductive Setting where
| name (value : Bytes)
| adminPassword (value : Bytes)
| guestPassword (value : Bytes)
| anonymousRead (allow : Bool)
| repeating (on : Bool)
| hopsMax
    (hops : Nat)
    (hPos : 0 < hops)
    (hMax : hops ≤ maxHopCount)

namespace Setting

/- The key of the config it is stored under. -/
def key : Setting → Bytes
| name _ => ascii "node.name"
| adminPassword _ => ascii "room.admin_password"
| guestPassword _ => ascii "room.guest_password"
| anonymousRead _ => ascii "room.anonymous_read"
| repeating _ => ascii "repeater.enabled"
| hopsMax _ _ _ => ascii "repeater.max_hops"

/- The text that is stored under it. -/
def value : Setting → Bytes
| name value => value
| adminPassword value => value
| guestPassword value => value
| anonymousRead allow => flag allow
| repeating on => flag on
| hopsMax hops _ _ => decimal hops

/- What it changes of the values in force. -/
def change : Setting → InForce → InForce
| name value, s => { s with name := value }
| adminPassword value, s => { s with adminPassword := value }
| guestPassword value, s => { s with guestPassword := value }
| anonymousRead allow, s => { s with anonymousRead := allow }
| repeating on, s =>
    { s with transit := s.transit.map fun t => (on, t.2) }
| hopsMax hops _ _, s =>
    { s with
      transit :=
        s.transit.map fun t => (t.1, UInt8.ofNat hops) }

theorem key_ne_nil (setting : Setting) :
    setting.key ≠ [] := by
  cases setting <;> simp only [key] <;> decide +kernel

theorem key_utf8 (setting : Setting) :
    Utf8 setting.key := by
  cases setting <;> exact utf8_ascii _ (by decide)

end Setting

theorem flag_utf8 (on : Bool) : Utf8 (flag on) := by
  cases on
  · exact utf8_ascii "false" (by decide)
  · exact utf8_ascii "true" (by decide)

theorem decimal_utf8
    {hops : Nat}
    (hMax : hops ≤ maxHopCount) :
    Utf8 (decimal hops) := by
  have hDigits :
      ∀ n ≤ maxHopCount,
        (Nat.toDigits 10 n).all (·.toNat < 128) = true := by
    decide +kernel
  exact utf8_map (hDigits hops hMax)

/- A limit within the format is not clamped. -/
theorem clampHops_of_le
    {hops : Nat}
    (hPos : 0 < hops)
    (hMax : hops ≤ maxHopCount) :
    clampHops (UInt8.ofNat hops) = UInt8.ofNat hops ∧
      clampHops (UInt8.ofInt hops) = UInt8.ofNat hops := by
  have hAll :
      ∀ n ≤ maxHopCount,
        0 < n →
          clampHops (UInt8.ofNat n) = UInt8.ofNat n ∧
            clampHops (UInt8.ofInt n) = UInt8.ofNat n := by
    decide +kernel
  exact hAll hops hMax hPos

------------------------------------------------------------
-- Reading A Setting Back
------------------------------------------------------------

/- No list is among the settings in force. -/
theorem settingsOf_congr
    {config config' : Config}
    (hValues : config.values = config'.values) :
    settingsOf config = settingsOf config' := by
  simp only [settingsOf, Config.get, Config.getBool,
    Config.getInt, hValues]

/- A setting changes what is read as it should. -/
theorem settingsOf_put
    (setting : Setting)
    (config : Config) :
    settingsOf (config.put setting.key setting.value) =
      setting.change (settingsOf config) := by
  cases setting with
  | repeating on =>
      simp (disch := decide) only [settingsOf, Setting.key,
        Setting.value, Setting.change,
        Config.getBool_put_flag, Config.get_put_of_ne,
        Config.getBool_put_of_ne, Config.getInt_put_of_ne]
      split <;> rfl
  | hopsMax hops hPos hMax =>
      have hRead := (clampHops_of_le hPos hMax).2
      simp (disch := decide) only [settingsOf, Setting.key,
        Setting.value, Setting.change,
        Config.getInt_put_decimal hMax, hRead,
        Config.get_put_of_ne, Config.getBool_put_of_ne]
      split <;> rfl
  | _ =>
      simp (disch := decide) only [settingsOf, Setting.key,
        Setting.value, Setting.change, Config.get_put,
        Config.getBool_put_flag, Config.get_put_of_ne,
        Config.getBool_put_of_ne, Config.getInt_put_of_ne]

------------------------------------------------------------
-- What A Command Does
------------------------------------------------------------

/- A setting is stored and in force. -/
structure Stored
    (lib : JsonLibrary)
    (setting : Setting)
    (room room' : Room HostAdmin) :
    Prop where
  value : Utf8 setting.value
  admin : room'.config.admin = room.config.admin
  inForce : room'.inForce = setting.change room.inForce
  overlay :
    room'.host.overlay.values =
      room.host.overlay.values.insert setting.key
        setting.value
  file :
    Overlay.load lib room'.host.disk.file =
      some room'.host.overlay
  terminated :
    room'.host.terminated = room.host.terminated

/- Nothing is stored, and nothing in force has changed. -/
structure Untouched (room room' : Room HostAdmin) :
    Prop where
  admin : room'.config.admin = room.config.admin
  inForce : room'.inForce = room.inForce
  overlay : room'.host.overlay = room.host.overlay
  file : room'.host.disk.file = room.host.disk.file
  terminated :
    room'.host.terminated = room.host.terminated

/- What is replied, and the room the command leaves. -/
inductive Settled
    (lib : JsonLibrary)
    (room : Room HostAdmin) :
    Bytes → Room HostAdmin → Prop
| stored
    (setting : Setting)
    {text : Bytes}
    {room' : Room HostAdmin}
    (hStored : Stored lib setting room room')
    (hText : ascii "OK" <+: text) :
    Settled lib room text room'
| refused
    {text : Bytes}
    {room' : Room HostAdmin}
    (hUntouched : Untouched room room') :
    Settled lib room text room'

theorem Untouched.refl (room : Room HostAdmin) :
    Untouched room room :=
  ⟨rfl, rfl, rfl, rfl, rfl⟩

/- An attempt that failed leaves only itself behind. -/
theorem untouched_of_disk
    {disk : Disk}
    (room : Room HostAdmin)
    (hFile : disk.file = room.host.disk.file) :
    Untouched room
      { room with host := { room.host with disk := disk } } :=
  ⟨rfl, rfl, rfl, hFile, rfl⟩

namespace Room

section Commands

variable {lib : JsonLibrary} {room : Room HostAdmin}

/- The room asks this host, whose settings are all text. -/
structure Hosted
    (lib : JsonLibrary)
    (room : Room HostAdmin) :
    Prop where
  admin : room.config.admin = some (HostAdmin.admin lib)
  sound : Sound room.host.overlay.values

/- Every command that sets something ends in one reply. -/
def Settles
    (lib : JsonLibrary)
    (room : Room HostAdmin)
    (dest : PublicKey)
    (command : SenderM (Room HostAdmin)) :
    Prop :=
  ∃ text room',
    command = room'.reply dest text ∧
      Settled lib room text room'

theorem settles_refused
    (dest : PublicKey)
    (text : Bytes) :
    room.Settles lib dest (room.reply dest text) :=
  ⟨text, room, rfl, .refused (.refl room)⟩

theorem saveSetting_cases
    {key value : Bytes}
    (hRound : lib.RoundTrips)
    (hHosted : room.Hosted lib)
    (hKey : key ≠ [])
    (hKeyText : Utf8 key)
    (hValueText : Utf8 value) :
    (∃ overlay disk,
        room.saveSetting key value =
          (true,
            { room with
              host :=
                { room.host with
                  overlay := overlay
                  disk := disk } }) ∧
        overlay.values =
          room.host.overlay.values.insert key value ∧
        Overlay.load lib disk.file = some overlay) ∨
      ∃ disk,
        room.saveSetting key value =
          (false,
            { room with
              host := { room.host with disk := disk } }) ∧
        disk.file = room.host.disk.file := by
  simp only [saveSetting, hHosted.admin, HostAdmin.admin]
  rcases HostAdmin.saveSetting_cases hRound hHosted.sound
      hKey hKeyText hValueText with
    ⟨overlay, disk, hSave, hOverlay, hLoad⟩ |
    ⟨disk, hSave, hFile⟩
  · left
    exact ⟨overlay, disk, by rw [hSave], hOverlay, hLoad⟩
  · right
    exact ⟨disk, by rw [hSave], hFile⟩

theorem setName_settles
    {value : Bytes}
    (hRound : lib.RoundTrips)
    (hHosted : room.Hosted lib)
    (hValue : Utf8 value)
    (dest : PublicKey) :
    room.Settles lib dest (room.setName dest value) := by
  let setting := Setting.name value
  unfold setName
  split
  · exact settles_refused dest _
  · simp only [hHosted.admin, HostAdmin.admin,
      HostAdmin.setNodeName]
    rcases HostAdmin.saveSetting_cases hRound hHosted.sound
        setting.key_ne_nil setting.key_utf8 hValue with
      ⟨overlay, disk, hSave, hOverlay, hLoad⟩ |
      ⟨disk, hSave, hFile⟩
    · simp only [setting, Setting.key] at hSave
      simp only [hSave, if_true]
      exact ⟨_, _, rfl,
        .stored setting
          ⟨hValue, rfl, rfl, hOverlay, hLoad, rfl⟩
          ⟨_, rfl⟩⟩
    · simp only [setting, Setting.key] at hSave
      simp only [hSave, Bool.false_eq_true, if_false]
      exact ⟨_, _, rfl,
        .refused (untouched_of_disk room hFile)⟩

theorem setPassword_settles
    {value : Bytes}
    (hRound : lib.RoundTrips)
    (hHosted : room.Hosted lib)
    (hValue : Utf8 value)
    (dest : PublicKey)
    (forAdmin : Bool) :
    room.Settles lib dest
      (room.setPassword dest forAdmin value) := by
  let setting :=
    if forAdmin then Setting.adminPassword value
    else Setting.guestPassword value
  have hKey :
      setting.key =
        if forAdmin then ascii "room.admin_password"
        else ascii "room.guest_password" := by
    cases forAdmin <;> rfl
  have hSame : setting.value = value := by
    cases forAdmin <;> rfl
  unfold setPassword
  split
  · exact settles_refused dest _
  · rw [← hKey]
    rcases saveSetting_cases hRound hHosted
        setting.key_ne_nil setting.key_utf8 hValue with
      ⟨overlay, disk, hSave, hOverlay, hLoad⟩ |
      ⟨disk, hSave, hFile⟩
    · simp only [hSave, if_true]
      refine ⟨_, _, rfl,
        .stored setting ⟨?_, ?_, ?_, ?_, hLoad, rfl⟩
          ⟨_, rfl⟩⟩
      · rw [hSame]
        exact hValue
      · cases forAdmin <;> rfl
      · cases forAdmin <;> rfl
      · rw [hSame]
        exact hOverlay
    · simp only [hSave, Bool.false_eq_true, if_false]
      exact ⟨_, _, rfl,
        .refused (untouched_of_disk room hFile)⟩

theorem setAnonymousRead_settles
    (hRound : lib.RoundTrips)
    (hHosted : room.Hosted lib)
    (dest : PublicKey)
    (value : Bytes) :
    room.Settles lib dest
      (room.setAnonymousRead dest value) := by
  unfold setAnonymousRead
  split
  · exact settles_refused dest _
  next allow _ =>
    let setting := Setting.anonymousRead allow
    rcases saveSetting_cases hRound hHosted
        setting.key_ne_nil setting.key_utf8
        (flag_utf8 allow) with
      ⟨overlay, disk, hSave, hOverlay, hLoad⟩ |
      ⟨disk, hSave, hFile⟩
    · simp only [setting, Setting.key, flag] at hSave
      simp only [hSave, if_true]
      exact ⟨_, _, rfl,
        .stored setting
          ⟨flag_utf8 allow, rfl, rfl, hOverlay, hLoad, rfl⟩
          ⟨_, rfl⟩⟩
    · simp only [setting, Setting.key, flag] at hSave
      simp only [hSave, Bool.false_eq_true, if_false]
      exact ⟨_, _, rfl,
        .refused (untouched_of_disk room hFile)⟩

/- A setting of the policy, which is there to be changed. -/
theorem setForwarder_settles
    {text : Repeater.Policy → Bytes}
    {apply : Repeater.Policy → Repeater.Policy}
    (hRound : lib.RoundTrips)
    (hHosted : room.Hosted lib)
    (setting : Setting)
    (hValue : Utf8 setting.value)
    (hText : ∀ policy, ascii "OK" <+: text policy)
    (hChange :
      ∀ policy,
        room.config.forwarder = some policy →
          { room.inForce with
            transit :=
              some
                ((apply policy).config.enabled,
                  (apply policy).config.maxHops) } =
            setting.change room.inForce)
    (dest : PublicKey) :
    room.Settles lib dest
      (room.setForwarder dest setting.key setting.value
        apply text) := by
  unfold setForwarder
  split
  · exact settles_refused dest _
  next policy hPolicy =>
    rcases saveSetting_cases hRound hHosted
        setting.key_ne_nil setting.key_utf8 hValue with
      ⟨overlay, disk, hSave, hOverlay, hLoad⟩ |
      ⟨disk, hSave, hFile⟩
    · simp only [hSave, if_true]
      refine ⟨_, _, rfl,
        .stored setting
          ⟨hValue, rfl, ?_, hOverlay, hLoad, rfl⟩
          (hText _)⟩
      exact hChange policy hPolicy
    · simp only [hSave, Bool.false_eq_true, if_false]
      exact ⟨_, _, rfl,
        .refused (untouched_of_disk room hFile)⟩

theorem setRepeat_settles
    (hRound : lib.RoundTrips)
    (hHosted : room.Hosted lib)
    (dest : PublicKey)
    (value : Bytes) :
    room.Settles lib dest (room.setRepeat dest value) := by
  unfold setRepeat
  split
  · exact settles_refused dest _
  next on _ =>
    apply setForwarder_settles hRound hHosted
      (.repeating on) (flag_utf8 on)
    · exact fun _ => ⟨_, rfl⟩
    · intro policy hPolicy
      simp only [Room.inForce, hPolicy]
      rfl

theorem setHopsMax_settles
    (hRound : lib.RoundTrips)
    (hHosted : room.Hosted lib)
    (dest : PublicKey)
    (value : Bytes) :
    room.Settles lib dest (room.setHopsMax dest value) := by
  unfold setHopsMax
  split
  · exact settles_refused dest _
  next hops hParse =>
    have hRange := (Option.filter_eq_some_iff.mp hParse).2
    have hRange := of_decide_eq_true hRange
    have hMax := hRange.2
    have hPos : 0 < hops.toNat :=
      Nat.pos_of_ne_zero fun hZero =>
        hRange.1 (UInt32.toNat_inj.mp hZero)
    have hClamp := (clampHops_of_le hPos hMax).1
    apply setForwarder_settles hRound hHosted
      (.hopsMax hops.toNat hPos hMax) (decimal_utf8 hMax)
    · exact fun _ => ⟨_, rfl⟩
    · intro policy hPolicy
      simp only [Room.inForce, hPolicy, Setting.change,
        Option.map_some]
      rw [← hClamp]
      rfl

theorem commandSet_settles
    (hRound : lib.RoundTrips)
    (hHosted : room.Hosted lib)
    (dest : PublicKey)
    {rest : Bytes}
    (hValue : Utf8 (trimmed (takeWord rest).2)) :
    room.Settles lib dest (room.commandSet dest rest) := by
  unfold commandSet
  dsimp only
  split
  · exact setName_settles hRound hHosted hValue dest
  · split
    · exact setPassword_settles hRound hHosted hValue dest
        true
    · split
      · exact setPassword_settles hRound hHosted hValue
          dest false
      · split
        · exact setAnonymousRead_settles hRound hHosted
            dest _
        · split
          · exact setRepeat_settles hRound hHosted dest _
          · split
            · exact setHopsMax_settles hRound hHosted dest _
            · exact settles_refused dest _

end Commands

end Room

------------------------------------------------------------
-- What Is Replied
------------------------------------------------------------

/- A text message that begins like this is sent. -/
def SenderOp.Says (start : Bytes) : SenderOp → Prop
| .sendDirect _ .txtMsg payload _ =>
    ∃ m ∈ decodeText payload, start <+: m.message
| _ => False

instance (start : Bytes) :
    DecidablePred (SenderOp.Says start) := by
  intro op
  unfold SenderOp.Says
  split <;> infer_instance

theorem message_of_encodeText
    {m m' : TextMsg} {capacity : Nat} {payload : Bytes}
    (hEncode : encodeText m capacity = some payload)
    (hDecode : decodeText payload = some m') :
    m'.message = m.message := by
  unfold encodeText at hEncode
  dsimp only at hEncode
  split_ifs at hEncode
  rw [← Option.some.inj hEncode] at hDecode
  unfold decodeText at hDecode
  split_ifs at hDecode
  rw [← Option.some.inj hDecode]
  rfl

namespace Room

/- What a reply says is its text, which may be cut. -/
theorem reply_says
    (room : Room HostAdmin)
    (dest : PublicKey)
    (text : Bytes) :
    (room.reply dest text).Ensures
      (fun op => ∀ start, op.Says start → start <+: text)
      (· = room) := by
  unfold reply sendCliReply
  rw [Program.ensures_bind]
  split
  · exact rfl
  next payload hEncode =>
    refine ⟨?_, fun _ => rfl⟩
    rintro start ⟨m, hDecode, hStart⟩
    rw [message_of_encodeText hEncode hDecode] at hStart
    exact hStart.trans (List.take_prefix _ _)

end Room

------------------------------------------------------------
-- One Command
------------------------------------------------------------

/- A command line, from whom, and the calls it came to. -/
structure Command where
  row : Nat
  timestamp : UInt32
  line : Bytes
  calls : List (Program.Answered SenderOp SenderOp.Ans)

namespace Command

/- The verb is the one that sets. -/
def Sets (command : Command) : Prop :=
  (takeWord (trimmed command.line)).1 = ascii "set"

/- The value, past the verb and the key. -/
def value (command : Command) : Bytes :=
  trimmed
    (takeWord (takeWord (trimmed command.line)).2).2

/- What came back begins with an error. -/
def RepliesErr (command : Command) : Prop :=
  ∃ call ∈ command.calls, call.op.Says (ascii "ERR")

instance : DecidablePred RepliesErr := by
  intro command
  unfold RepliesErr
  infer_instance

end Command

/- A set command whose value is text, however answered. -/
def SetStep
    (room : Room HostAdmin)
    (command : Command)
    (room' : Room HostAdmin) :
    Prop :=
  command.Sets ∧
    Utf8 command.value ∧
      ∃ taken,
        Program.Exec
          (room.handleCommand command.row command.timestamp
            command.line)
          command.calls (taken, room')

/- The rows of a room have nothing to do with a setting. -/
theorem Settled.of_modifyClient
    {lib : JsonLibrary} {room room' : Room HostAdmin}
    {text : Bytes} {row : Nat} {f : Client → Client}
    (hSettled :
      Settled lib (room.modifyClient row f) text room') :
    Settled lib room text room' := by
  cases hSettled with
  | stored setting hStored hText =>
      exact .stored setting
        ⟨hStored.value, hStored.admin, hStored.inForce,
          hStored.overlay, hStored.file,
          hStored.terminated⟩ hText
  | refused hUntouched =>
      exact .refused
        ⟨hUntouched.admin, hUntouched.inForce,
          hUntouched.overlay, hUntouched.file,
          hUntouched.terminated⟩

theorem Room.runCommand_of_set
    {room : Room HostAdmin} {line : Bytes}
    (hSets : (takeWord (trimmed line)).1 = ascii "set")
    (dest : PublicKey) :
    room.runCommand dest line =
      taken
        (room.commandSet dest
          (takeWord (trimmed line)).2) := by
  unfold runCommand
  dsimp only
  rw [hSets, if_neg (by decide), if_neg (by decide),
    if_neg (by decide), if_neg (by decide), if_pos rfl]

/- A reply, handed on with whether it was taken. -/
theorem Room.reply_says_pair
    (room : Room HostAdmin)
    (dest : PublicKey)
    (text : Bytes)
    (taken : Bool) :
    (room.reply dest text >>= fun room =>
        pure (taken, room)).Ensures
      (fun op => ∀ start, op.Says start → start <+: text)
      (·.2 = room) := by
  rw [Program.ensures_bind]
  exact (room.reply_says dest text).mono
    (fun _ hOp => hOp) (fun _ hRoom => hRoom)

/- What a set command comes to, and all that it says. -/
theorem Room.handleCommand_settles
    {lib : JsonLibrary} {room : Room HostAdmin}
    {command : Command}
    (hRound : lib.RoundTrips)
    (hHosted : room.Hosted lib)
    (hSets : command.Sets)
    (hValue : Utf8 command.value) :
    ∃ text room',
      Settled lib room text room' ∧
        (room.handleCommand command.row command.timestamp
          command.line).Ensures
          (fun op =>
            ∀ start, op.Says start → start <+: text)
          (·.2 = room') := by
  unfold handleCommand
  dsimp only
  split
  · exact ⟨_, room, .refused (.refl room),
      room.reply_says_pair _ _ false⟩
  · split
    · exact ⟨[], room, .refused (.refl room), rfl⟩
    · generalize hStamped :
        room.modifyClient command.row _ = stamped
      have hThere : stamped.Hosted lib := by
        rw [← hStamped]
        exact ⟨hHosted.admin, hHosted.sound⟩
      rcases commandSet_settles hRound hThere
          (room.client command.row).pk hValue with
        ⟨text, room', hReply, hSettled⟩
      rw [← hStamped] at hSettled
      refine ⟨text, room', hSettled.of_modifyClient, ?_⟩
      rw [runCommand_of_set hSets, hReply]
      exact room'.reply_says_pair _ text true

------------------------------------------------------------
-- Staying In Step
------------------------------------------------------------

/-
  The values in force are those of the overlay in memory,
  laid over the config, and those a fresh start computes
  from its file.
-/
structure InStep
    (lib : JsonLibrary)
    (readers : ListReaders)
    (config : Config)
    (room : Room HostAdmin) :
    Prop where
  hosted : room.Hosted lib
  live :
    settingsOf (config.applyOverlay room.host.overlay) =
      room.inForce
  stored :
    restart lib readers config room.host.disk =
      some room.inForce

section Steps

variable {lib : JsonLibrary} {readers : ListReaders}
variable {config : Config} {room room' : Room HostAdmin}

/- A node is in step as soon as it has started. -/
theorem inStep_startRoom
    {disk : Disk} {now : Millis}
    (hReads : lib.ReadsText)
    (hStart :
      startRoom lib readers config disk now = some room) :
    InStep lib readers config room := by
  rcases Option.map_eq_some_iff.mp hStart with
    ⟨overlay, hLoad, rfl⟩
  refine ⟨⟨rfl, Overlay.load_sound hReads hLoad⟩, ?_, ?_⟩
  · rw [inForce_roomFrom]
    rfl
  · rw [restart_eq, inForce_roomFrom]
    exact congrArg (Option.map _) hLoad

theorem InStep.of_untouched
    (hStep : InStep lib readers config room)
    (hUntouched : Untouched room room') :
    InStep lib readers config room' where
  hosted :=
    ⟨hUntouched.admin.trans hStep.hosted.admin, by
      rw [hUntouched.overlay]
      exact hStep.hosted.sound⟩
  live := by
    rw [hUntouched.overlay, hUntouched.inForce]
    exact hStep.live
  stored := by
    have hStored := hStep.stored
    rw [restart_eq] at hStored ⊢
    rw [hUntouched.file, hUntouched.inForce]
    exact hStored

theorem InStep.of_stored
    {setting : Setting}
    (hStep : InStep lib readers config room)
    (hStored : Stored lib setting room room') :
    InStep lib readers config room' := by
  have hLive :
      settingsOf
          (config.applyOverlay room'.host.overlay) =
        room'.inForce := by
    have hValues :
        (config.applyOverlay room'.host.overlay).values =
          ((config.applyOverlay room.host.overlay).put
            setting.key setting.value).values := by
      rw [← Config.applyOverlay_insert, ← hStored.overlay]
    rw [settingsOf_congr hValues, settingsOf_put,
      hStep.live, hStored.inForce]
  refine ⟨⟨hStored.admin.trans hStep.hosted.admin, ?_⟩,
    hLive, ?_⟩
  · rw [hStored.overlay]
    exact hStep.hosted.sound.insert setting.key_ne_nil
      setting.key_utf8 hStored.value
  · rw [restart_eq, hStored.file, Option.map_some, hLive]

/- The step lemma. -/
theorem InStep.of_step
    {command : Command}
    (hStep : InStep lib readers config room)
    (hRound : lib.RoundTrips)
    (hCommand : SetStep room command room') :
    InStep lib readers config room' ∧
      (command.RepliesErr → Untouched room room') := by
  rcases hCommand with ⟨hSets, hValue, taken, hExec⟩
  rcases handleCommand_settles hRound hStep.hosted hSets
      hValue with ⟨text, left, hSettled, hEnsures⟩
  rcases hEnsures.exec hExec with ⟨hSaid, hLeft⟩
  dsimp only at hLeft
  subst hLeft
  cases hSettled with
  | refused hUntouched =>
      exact ⟨hStep.of_untouched hUntouched,
        fun _ => hUntouched⟩
  | stored setting hStored hText =>
      refine ⟨hStep.of_stored hStored, ?_⟩
      rintro ⟨call, hCall, hErr⟩
      have hBegins := hSaid call hCall _ hErr
      rcases List.prefix_or_prefix_of_prefix hText hBegins
        with hShort | hShort
      · exact absurd hShort (by decide)
      · exact absurd hShort (by decide)

/-
  What was set over the air is what a restart brings back,
  after every command, however the storage fares. A command
  that is answered with an error has changed neither.
-/
theorem Room.settings_survive_restart
    {ts : List (Transition (Room HostAdmin) Command)}
    (hRound : lib.RoundTrips)
    (hBefore : InStep lib readers config room)
    (hRun : Run SetStep room ts room') :
    restart lib readers config room'.host.disk =
        some room'.inForce ∧
      ∀ t ∈ ts,
        restart lib readers config t.after.host.disk =
            some t.after.inForce ∧
          (t.event.RepliesErr →
            t.after.inForce = t.before.inForce ∧
              t.after.host.disk.file =
                t.before.host.disk.file) := by
  have hKeep :
      ∀ s e s',
        InStep lib readers config s → SetStep s e s' →
          InStep lib readers config s' :=
    fun _ _ _ hInStep hStep =>
      (hInStep.of_step hRound hStep).1
  refine ⟨(hRun.invariant hBefore hKeep).stored, ?_⟩
  intro t ht
  have hAround := hRun.invariant_mem hBefore hKeep ht
  refine ⟨hAround.2.stored, ?_⟩
  intro hErr
  have hUntouched :=
    (hAround.1.of_step hRound (hRun.step_of_mem ht)).2 hErr
  exact ⟨hUntouched.inForce, hUntouched.file⟩

end Steps

section Example

open Sample

/- A repeater with a board, and a password for its admin. -/
def configured : Config :=
  { values :=
      .ofList
        [(ascii "node.type", ascii "room-repeater"),
          (ascii "room.admin_password", ascii "secret")]
    lists := ∅ }

/- The second attempt to replace the file fails. -/
def unsteady : Disk :=
  { file := none
    attempts := fun n => { renamed := n ≠ 1 } }

/- A node that has just started, where an admin logged in. -/
def administered : Room HostAdmin :=
  { roomFrom Plain.library noLists
      (configured.applyOverlay { values := ∅ })
      { values := ∅ } unsteady 0 with
    clients := [{ pk := key 1, access := .admin }] }

/- What a command comes to, where sends are numbered. -/
def commanded
    (room : Room HostAdmin)
    (timestamp : UInt32)
    (line : String) :
    Transition (Room HostAdmin) Command :=
  let program :=
    room.handleCommand 0 timestamp (ascii line)
  { before := room
    event :=
      { row := 0
        timestamp := timestamp
        line := ascii line
        calls := program.trace numbering 1 }
    after := (program.run numbering 1).1.2 }

def named : Transition (Room HostAdmin) Command :=
  commanded administered 1 "set name Hill"

def barred : Transition (Room HostAdmin) Command :=
  commanded named.after 2 "set password tower"

def limited : Transition (Room HostAdmin) Command :=
  commanded barred.after 3 "set hops.max 5"

theorem administered_inStep :
    InStep Plain.library noLists configured
      administered where
  hosted := ⟨rfl, sound_empty⟩
  live := (inForce_roomFrom _ _ _ _ _ _).symm
  stored := by
    rw [restart_eq]
    exact congrArg some (inForce_roomFrom _ _ _ _ _ _).symm

theorem step_commanded
    {room : Room HostAdmin} {timestamp : UInt32}
    {line : String}
    (hSets :
      (commanded room timestamp line).event.Sets)
    (hValue :
      Utf8 (commanded room timestamp line).event.value) :
    SetStep room (commanded room timestamp line).event
      (commanded room timestamp line).after :=
  ⟨hSets, hValue, _, Program.run_exec _ _ _⟩

theorem hill_survives_restart :
    restart Plain.library noLists configured
          limited.after.host.disk =
        some limited.after.inForce ∧
      barred.after.inForce = barred.before.inForce ∧
      limited.after.inForce.name = ascii "Hill" ∧
      limited.after.inForce.transit = some (true, 5) := by
  have hFirst : SetStep administered named.event named.after :=
    step_commanded (by unfold Command.Sets; decide +kernel)
      ⟨"Hill".toList, by decide +kernel⟩
  have hSecond :
      SetStep named.after barred.event barred.after :=
    step_commanded (by unfold Command.Sets; decide +kernel)
      ⟨"tower".toList, by decide +kernel⟩
  have hThird :
      SetStep barred.after limited.event limited.after :=
    step_commanded (by unfold Command.Sets; decide +kernel)
      ⟨"5".toList, by decide +kernel⟩
  have hAll :=
    Room.settings_survive_restart Plain.library_roundTrips
      administered_inStep
      (((Run.single hFirst).step hSecond).step hThird)
  have hMem :=
    List.mem_append_left [limited]
      (List.mem_append_right [named]
        (List.mem_singleton.mpr (Eq.refl barred)))
  have hErr : barred.event.RepliesErr := by decide +kernel
  have hBarred := (hAll.2 barred hMem).2 hErr
  exact ⟨hAll.1, hBarred.1, by decide +kernel,
    by decide +kernel⟩

end Example

end MeshCore
