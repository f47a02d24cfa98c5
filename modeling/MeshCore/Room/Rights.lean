import MeshCore.Room.Runs

/-
  Without the admin password nothing administrative is done:
  where no row has admin rights and nobody gives the
  password, no row gets them, and the host, the settings and
  the board are out of reach.

  Key definitions include:
    * `AdminCall`, `Admin.recording`
    * `Room.NoAdmin`
    * `Room.offersAdmin`
    * `Room.Harmless`

  Key facts include:
    * `Room.perform_harmless`
    * `Room.nothing_administrative`
-/

namespace MeshCore

------------------------------------------------------------
-- What Can Be Asked Of The Host
------------------------------------------------------------

/- A call that changes something outside the room. -/
inductive AdminCall where
| sendAdvert
| setClock (unixSeconds : UInt32)
| setNodeName (name : Bytes)
| saveSetting (key value : Bytes)
| requestReboot
deriving DecidableEq

/- The same host, which keeps a list of what it was asked. -/
def Admin.recording
    {η : Type}
    (admin : Admin η) :
    Admin (η × List AdminCall) where
  sendAdvert := fun (host, asked) =>
    (admin.sendAdvert host, asked ++ [.sendAdvert])
  setClock := fun (host, asked) unixSeconds =>
    let (accepted, host) := admin.setClock host unixSeconds
    (accepted, host, asked ++ [.setClock unixSeconds])
  nodeName := fun (host, _) => admin.nodeName host
  setNodeName := fun (host, asked) name =>
    let (accepted, host) := admin.setNodeName host name
    (accepted, host, asked ++ [.setNodeName name])
  saveSetting := fun (host, asked) key value =>
    let (stored, host) := admin.saveSetting host key value
    (stored, host, asked ++ [.saveSetting key value])
  requestReboot := fun (host, asked) =>
    (admin.requestReboot host, asked ++ [.requestReboot])
  uptime := fun (host, _) => admin.uptime host

namespace Room

variable {η : Type}

------------------------------------------------------------
-- What Is Asked
------------------------------------------------------------

/- No row has admin rights. -/
def NoAdmin (room : Room η) : Prop :=
  ∀ client ∈ room.clients, client.access ≠ .admin

/- A login with the admin password in force. -/
def offersAdmin (room : Room η) : Event η → Bool
| .anon _ plain =>
    passwordMatches (passwordOf plain)
      room.config.adminPassword
| _ => false

/- Whoever posts under a name has the right to. -/
def MayPost (room : Room η) (pk : PublicKey) : Prop :=
  authorPrefixOf pk = authorPrefixOf anonymous ∨
    ∃ row,
      room.findClient pk = some row ∧
        ((room.client row).access = .guest ∨
          (room.client row).access = .admin)

/- Everything but the state of the transit policy. -/
def settingsOf (config : RoomConfig η) : RoomConfig η :=
  { config with
    forwarder :=
      config.forwarder.map fun policy =>
        { config := policy.config } }

/-
  A step that does nothing administrative: only the host
  itself changes the host, only transit its own counters,
  and posts are added by those who may.
-/
structure Harmless
    [CryptoCore]
    (room : Room η)
    (e : Event η)
    (room' : Room η) :
    Prop where
  host :
    (∀ host, e ≠ .host host) → room'.host = room.host
  config :
    (∀ p, e ≠ .forward p) → room'.config = room.config
  settings :
    settingsOf room'.config = settingsOf room.config
  posts :
    match room.postOf e with
    | none => room'.posts = room.posts
    | some (pk, message) =>
        room.MayPost pk ∧
          room'.posts =
            (room.addPost pk message.timestamp
              message.message).2.posts

------------------------------------------------------------
-- Rows
------------------------------------------------------------

theorem noAdmin_modifyClient
    {room : Room η}
    (hNoAdmin : room.NoAdmin)
    (row : Nat)
    {f : Client → Client}
    (hAccess :
      ∀ client, client.access ≠ .admin →
        (f client).access ≠ .admin) :
    (room.modifyClient row f).NoAdmin := by
  intro client hClient
  rcases List.mem_iff_getElem?.mp hClient with ⟨i, hi⟩
  rw [modifyClient, List.getElem?_modify] at hi
  cases hOld : room.clients[i]? with
  | none => simp [hOld] at hi
  | some old =>
      have hOldAccess :=
        hNoAdmin old (List.mem_of_getElem? hOld)
      rw [hOld] at hi
      simp only [Option.map_eq_map, Option.map_some,
        Option.some.injEq] at hi
      rw [← hi]
      split
      · exact hAccess old hOldAccess
      · exact hOldAccess

theorem noAdmin_client
    {room : Room η}
    (hNoAdmin : room.NoAdmin)
    (row : Nat) :
    (room.client row).access ≠ .admin := by
  unfold client
  rw [List.getD_eq_getElem?_getD]
  cases hRow : room.clients[row]? with
  | none => exact nofun
  | some client =>
      exact hNoAdmin client (List.mem_of_getElem? hRow)

theorem noAdmin_enterClient
    {room : Room η}
    (hNoAdmin : room.NoAdmin)
    (pk : PublicKey) :
    (room.enterClient pk).2.NoAdmin := by
  rcases enterClient_cases room pk with
    ⟨row, -, hEnter⟩ | ⟨-, kept, hKept, hEnter⟩
  · rw [hEnter]
    exact hNoAdmin
  · rw [hEnter]
    intro client hClient
    rw [List.mem_append, List.mem_singleton] at hClient
    rcases hClient with hOld | rfl
    · apply hNoAdmin
      rcases hKept with ⟨rfl, -⟩ | ⟨victim, -, rfl⟩
      · exact hOld
      · exact List.mem_of_mem_eraseIdx hOld
    · exact nofun

------------------------------------------------------------
-- Logins
------------------------------------------------------------

/- A login reaches only the rows and the failures. -/
structure OnlyLogins (room room' : Room η) : Prop where
  host : room'.host = room.host
  config : room'.config = room.config
  posts : room'.posts = room.posts

theorem enterClient_onlyLogins
    (room : Room η)
    (pk : PublicKey) :
    room.OnlyLogins (room.enterClient pk).2 := by
  rcases enterClient_cases room pk with
    ⟨row, -, hEnter⟩ | ⟨-, kept, -, hEnter⟩
  · rw [hEnter]
    exact ⟨rfl, rfl, rfl⟩
  · rw [hEnter]
    exact ⟨rfl, rfl, rfl⟩

theorem authenticate_onlyLogins
    (room : Room η)
    (pk : PublicKey)
    (password : Bytes)
    (timestamp : UInt32) :
    room.OnlyLogins
      (room.authenticate pk password timestamp).2 := by
  rcases authenticate_cases room pk password timestamp with
    ⟨noted, ⟨failures, rfl⟩, hRefused | ⟨access, hLet⟩⟩
  · rw [hRefused]
    exact ⟨rfl, rfl, rfl⟩
  · rw [hLet]
    have hEnter :=
      enterClient_onlyLogins
        { room with failures := failures } pk
    exact ⟨hEnter.host, hEnter.config, hEnter.posts⟩

/- Without the password nobody becomes an admin. -/
theorem authenticate_noAdmin
    {room : Room η}
    (hNoAdmin : room.NoAdmin)
    {password : Bytes}
    (hPassword :
      passwordMatches password room.config.adminPassword =
        false)
    (pk : PublicKey)
    (timestamp : UInt32) :
    (room.authenticate pk password timestamp).2.NoAdmin := by
  have hOnly :
      ∀ room' : Room η, room.OnlyFailures room' →
        room'.NoAdmin := by
    rintro room' ⟨failures, rfl⟩
    exact hNoAdmin
  have hLow : room.accessFor password ≠ .admin := by
    unfold accessFor
    rw [hPassword]
    simp only [Bool.false_eq_true, if_false]
    split <;> exact nofun
  have hNoted := hOnly _ (noted_onlyFailures room pk password)
  rw [authenticate_eq]
  split
  · exact hNoAdmin
  · split
    · exact hOnly _ (lockedOut_onlyFailures room pk)
    · split
      · exact hNoted
      · apply noAdmin_modifyClient
        · exact noAdmin_enterClient hNoted pk
        · intro client _
          simp only
          split
          · exact nofun
          · exact hLow

theorem login_onlyLogins
    (room : Room η)
    (pk : PublicKey)
    (plain : Bytes) :
    room.OnlyLogins (room.login pk plain).2 := by
  have hLogin := authenticate_onlyLogins room pk
    (passwordOf plain) (readUint32 plain 0)
  unfold login
  split
  · exact ⟨rfl, rfl, rfl⟩
  · simp only
    unfold passwordOf at hLogin
    generalize room.authenticate pk _ _ = result
      at hLogin ⊢
    rcases result with ⟨none | row, room'⟩
    · exact hLogin
    · exact ⟨hLogin.host, hLogin.config, hLogin.posts⟩

theorem login_noAdmin
    {room : Room η}
    (hNoAdmin : room.NoAdmin)
    {plain : Bytes}
    (hPassword :
      passwordMatches (passwordOf plain)
          room.config.adminPassword =
        false)
    (pk : PublicKey) :
    (room.login pk plain).2.NoAdmin := by
  have hLogin := authenticate_noAdmin hNoAdmin hPassword pk
    (readUint32 plain 0)
  unfold login
  split
  · exact hNoAdmin
  · simp only
    unfold passwordOf at hLogin
    generalize room.authenticate pk _ _ = result
      at hLogin ⊢
    rcases result with ⟨none | row, room'⟩
    · exact hLogin
    · exact noAdmin_modifyClient hLogin row fun _ h => h

------------------------------------------------------------
-- Text And Requests
------------------------------------------------------------

/- Without admin rights every command is refused. -/
theorem handleCommand_refused
    {room : Room η}
    (hNoAdmin : room.NoAdmin)
    (row : Nat)
    (timestamp : UInt32)
    (line : Bytes) :
    (room.handleCommand row timestamp line).Ensures
      SenderOp.Answers fun result => result.2 = room := by
  have hLow := noAdmin_client hNoAdmin row
  unfold handleCommand
  simp only
  rw [if_pos (by simp [can, hLow])]
  have hReply :
      (room.reply (room.client row).pk
          (ascii "ERR - admin rights required")).Ensures
        SenderOp.Answers fun room' => room' = room :=
    reply_ensures _ _ rfl
  exact refused_ensures hReply

section Handlers

variable [CryptoCore]

/- What changes only rows, and nobody's standing. -/
structure OnlyRows (room room' : Room η) : Prop where
  host : room'.host = room.host
  config : room'.config = room.config
  posts : room'.posts = room.posts
  standings : room'.standings = room.standings

omit [CryptoCore] in
theorem OnlyRows.noAdmin
    {room room' : Room η}
    (hRows : room.OnlyRows room')
    (hNoAdmin : room.NoAdmin) :
    room'.NoAdmin := by
  intro client hClient
  have hStanding : client.standing ∈ room'.standings :=
    List.mem_map_of_mem hClient
  rw [hRows.standings] at hStanding
  rcases List.mem_map.mp hStanding with ⟨old, hOld, hSame⟩
  have hAccess := congrArg Standing.access hSame
  have hLow := hNoAdmin old hOld
  exact fun hAdmin => hLow (hAccess.trans hAdmin)

omit [CryptoCore] in
theorem modifyClient_onlyRows
    (room : Room η)
    (row : Nat)
    {f : Client → Client}
    (hStanding :
      ∀ client, (f client).standing = client.standing) :
    room.OnlyRows (room.modifyClient row f) where
  host := rfl
  config := rfl
  posts := rfl
  standings :=
    standings_modifyClient_same room row hStanding

omit [CryptoCore] in
theorem OnlyRows.refl (room : Room η) :
    room.OnlyRows room :=
  ⟨rfl, rfl, rfl, rfl⟩

omit [CryptoCore] in
theorem OnlyRows.trans
    {room room' room'' : Room η}
    (hFirst : room.OnlyRows room')
    (hThen : room'.OnlyRows room'') :
    room.OnlyRows room'' where
  host := hThen.host.trans hFirst.host
  config := hThen.config.trans hFirst.config
  posts := hThen.posts.trans hFirst.posts
  standings := hThen.standings.trans hFirst.standings

omit [CryptoCore] in
theorem moveBookmark_onlyRows
    (room : Room η)
    (row : Nat)
    (plain : Bytes) :
    room.OnlyRows (room.moveBookmark row plain) := by
  unfold moveBookmark
  split
  · exact modifyClient_onlyRows room row fun _ => rfl
  · exact .refl room

/- A request changes its own row only. -/
theorem handleRequest_onlyRows
    (room : Room η)
    (row : Nat)
    (plain : Bytes) :
    (room.handleRequest row plain).Ensures
      (fun _ => True)
      fun result => room.OnlyRows result.2 := by
  unfold handleRequest
  refine Program.ensures_ite (fun _ => ?_) fun _ => ?_
  · exact .refl room
  simp only
  refine Program.ensures_ite (fun _ => ?_) fun _ => ?_
  · exact .refl room
  have hAsked := modifyClient_onlyRows room row
    (f := fun client =>
      { client with lastRequest := readUint32 plain 0 })
    fun _ => rfl
  refine Program.ensures_ite (fun _ => ?_) fun _ => ?_
  · exact hAsked
  cases requestTypeOf (plain.getD 4 0) with
  | none => exact hAsked
  | some type =>
      cases type with
      | status =>
          simp only
          rw [Program.ensures_bind]
          exact (Program.ensures_trivial _).mono
            (fun _ h => h) fun _ _ => hAsked
      | keepAlive =>
          simp only
          rw [Program.ensures_bind]
          have hWoken :=
            hAsked.trans
              (modifyClient_onlyRows _ row
                (f := fun client =>
                  { client with retryAfter := 0 })
                fun _ => rfl)
          exact (Program.ensures_trivial _).mono
            (fun _ h => h) fun _ _ =>
              hWoken.trans
                (moveBookmark_onlyRows _ row plain)

omit [CryptoCore] in
/- A row with rights may post in its own name. -/
theorem mayPost_of_can
    {room : Room η} {pk : PublicKey} {row : Nat}
    (hRow : room.findClient pk = some row)
    (hCan : room.can (room.client row) .post = true) :
    room.MayPost pk := by
  simp only [can, decide_eq_true_eq] at hCan
  exact .inr ⟨row, hRow, hCan.2⟩

/- A message is posted by those who may, or changes nothing. -/
theorem handleText_harmless
    {room : Room η}
    (hNoAdmin : room.NoAdmin)
    (contact : Contact)
    (plain : Bytes) :
    (room.handleText contact plain).Ensures
      (fun _ => True)
      fun result =>
        room.Harmless (.payload contact .txtMsg plain)
            result.2 ∧
          result.2.NoAdmin := by
  have hPost :
      room.postOf (.payload contact .txtMsg plain) =
        (room.directText contact.pk plain).map
          fun message => (contact.pk, message) :=
    rfl
  have hNothing :
      room.directText contact.pk plain = none →
        room.Harmless (.payload contact .txtMsg plain)
            room ∧
          room.NoAdmin := by
    intro hNone
    rw [hNone] at hPost
    exact ⟨⟨fun _ => rfl, fun _ => rfl, rfl, by rw [hPost]; rfl⟩,
      hNoAdmin⟩
  unfold directText at hNothing hPost
  unfold handleText
  cases hText : decodeText plain with
  | none => exact hNothing (by simp [hText])
  | some message =>
      cases hRow : room.findClient contact.pk with
      | none => exact hNothing (by simp [hText, hRow])
      | some row =>
          simp only [hText, hRow, Option.bind_some]
            at hNothing hPost ⊢
          cases hType : textTypeOf message.txtType with
          | none => exact hNothing (by simp [hType])
          | some type =>
              cases type with
              | plain =>
                  simp only
                  refine Program.ensures_ite (fun hNo => ?_)
                    fun hCan => ?_
                  · exact hNothing (by simp [hNo])
                  · rw [not_not] at hCan
                    rw [if_pos ⟨hType, hCan⟩] at hPost
                    rw [Program.ensures_bind]
                    apply (Program.ensures_trivial _).mono
                      (fun _ h => h)
                    intro _ _
                    refine ⟨⟨fun _ => rfl, fun _ => rfl,
                      rfl, ?_⟩, hNoAdmin⟩
                    rw [hPost]
                    exact ⟨mayPost_of_can hRow hCan, rfl⟩
              | cli =>
                  have hNone := hNothing (by simp [hType])
                  apply (handleCommand_refused hNoAdmin row
                    message.timestamp message.message).mono
                    (fun _ _ => trivial)
                  rintro ⟨taken, room'⟩ rfl
                  exact hNone
              | signed => exact hNothing (by simp [hType])

omit [CryptoCore] in
/- The rows may change; the rest is as it was. -/
theorem OnlyRows.harmless
    [CryptoCore]
    {room room' : Room η} {e : Event η}
    (hRows : room.OnlyRows room')
    (hPost : room.postOf e = none) :
    room.Harmless e room' where
  host := fun _ => hRows.host
  config := fun _ => hRows.config
  settings := by rw [hRows.config]
  posts := by
    rw [hPost]
    exact hRows.posts

theorem onPayload_harmless
    {room : Room η}
    (hNoAdmin : room.NoAdmin)
    (contact : Contact)
    (type : PayloadType)
    (plain : Bytes) :
    (room.onPayload contact type plain).Ensures
      (fun _ => True)
      fun room' =>
        room.Harmless (.payload contact type plain) room' ∧
          room'.NoAdmin := by
  have hNone :
      room.postOf (.payload contact type plain) = none →
        room.Harmless (.payload contact type plain) room ∧
          room.NoAdmin :=
    fun hPost =>
      ⟨(OnlyRows.refl room).harmless hPost, hNoAdmin⟩
  unfold onPayload
  cases type with
  | txtMsg =>
      simp only
      rw [Program.ensures_bind]
      exact handleText_harmless hNoAdmin contact plain
  | req =>
      simp only
      cases room.findClient contact.pk with
      | none => exact hNone rfl
      | some row =>
          simp only
          rw [Program.ensures_bind]
          apply (handleRequest_onlyRows room row plain).mono
            (fun _ h => h)
          intro result hRows
          exact ⟨hRows.harmless rfl,
            hRows.noAdmin hNoAdmin⟩
  | _ => exact hNone rfl

/- Channel messages are posted in nobody's name. -/
theorem onGroup_harmless
    {room : Room η}
    (hNoAdmin : room.NoAdmin)
    (type : PayloadType)
    (payload : Bytes) :
    room.Harmless (.group type payload)
        (room.onGroup type payload) ∧
      (room.onGroup type payload).NoAdmin := by
  have hPost :
      room.postOf (.group type payload) =
        (room.channelText type payload).map
          fun message => (anonymous, message) :=
    rfl
  unfold onGroup
  cases hText : room.channelText type payload with
  | none =>
      rw [hText] at hPost
      exact ⟨(OnlyRows.refl room).harmless hPost, hNoAdmin⟩
  | some message =>
      rw [hText, Option.map_some] at hPost
      refine ⟨⟨fun _ => rfl, fun _ => rfl, rfl, ?_⟩,
        hNoAdmin⟩
      rw [hPost]
      exact ⟨.inl rfl, rfl⟩

omit [CryptoCore] in
theorem settle_onlyRows
    (room : Room η)
    (id : SendId)
    {f : Client → Client}
    (hStanding :
      ∀ client, (f client).standing = client.standing) :
    room.OnlyRows (room.settle id f) := by
  unfold settle
  split
  · exact .refl room
  · exact modifyClient_onlyRows room _ hStanding

omit [CryptoCore] in
theorem onAck_onlyRows (room : Room η) (id : SendId) :
    room.OnlyRows (room.onAck id) :=
  settle_onlyRows room id fun _ => rfl

omit [CryptoCore] in
theorem onDeliveryFailed_onlyRows
    (room : Room η)
    (id : SendId) :
    room.OnlyRows (room.onDeliveryFailed id) :=
  settle_onlyRows room id fun _ => rfl

omit [CryptoCore] in
theorem tick_onlyRows
    (room : Room η)
    (now : Millis) :
    (room.tick now).Ensures (fun _ => True)
      room.OnlyRows := by
  rcases room.tick_cases now with
    ⟨turn, hNobody⟩ | ⟨turn, row, post, -, -, -, -, hPush⟩
  · rw [hNobody]
    exact ⟨rfl, rfl, rfl, rfl⟩
  · rw [hPush]
    refine ⟨trivial, fun store => ?_⟩
    simp only
    cases pushPlain store post with
    | none => exact ⟨rfl, rfl, rfl, rfl⟩
    | some payload =>
        refine ⟨trivial, fun sent => ?_⟩
        have hRows := modifyClient_onlyRows
          { room with now := now, nextClientIdx := turn }
          row
          (f := fun client =>
            { client with
              pendingId := sent
              pending := true
              pendingSeq := post.seq })
          fun _ => rfl
        exact ⟨hRows.host, hRows.config, hRows.posts,
          hRows.standings⟩

theorem shouldForward_harmless
    (room : Room η)
    (p : Packet) :
    room.Harmless (.forward p) (room.shouldForward p).2 := by
  unfold shouldForward
  split
  · exact (OnlyRows.refl room).harmless rfl
  · cases hPolicy : room.config.forwarder with
    | none => exact (OnlyRows.refl room).harmless rfl
    | some policy =>
        refine
          { host := fun _ => rfl
            config := fun hOther => absurd rfl (hOther p)
            settings := ?_
            posts := rfl }
        simp only [settingsOf, hPolicy, Option.map_some,
          Repeater.Policy.shouldForward_config]

------------------------------------------------------------
-- Runs
------------------------------------------------------------

/- The step lemma: without the password every step is one. -/
theorem perform_harmless
    {room : Room η} {e : Event η}
    (hNoAdmin : room.NoAdmin)
    (hPassword : room.offersAdmin e = false) :
    (room.perform e).Ensures (fun _ => True)
      fun room' => room.Harmless e room' ∧ room'.NoAdmin := by
  cases e with
  | setServerTime unixSeconds =>
      exact ⟨⟨fun _ => rfl, fun _ => rfl, rfl, rfl⟩,
        hNoAdmin⟩
  | setRadioLoad permille =>
      exact ⟨⟨fun _ => rfl, fun _ => rfl, rfl, rfl⟩,
        hNoAdmin⟩
  | anon pk plain =>
      have hOnly := login_onlyLogins room pk plain
      have hLow := login_noAdmin hNoAdmin hPassword pk
      have hHarmless :
          room.Harmless (.anon pk plain)
            (room.login pk plain).2 :=
        ⟨fun _ => hOnly.host, fun _ => hOnly.config,
          by rw [hOnly.config], hOnly.posts⟩
      rw [perform, onAnon]
      generalize room.login pk plain = result
        at hHarmless hLow ⊢
      rcases result with ⟨none | row, room'⟩
      · exact ⟨hHarmless, hLow⟩
      · simp only
        rw [Program.ensures_bind]
        exact (Program.ensures_trivial _).mono
          (fun _ h => h) fun _ _ => ⟨hHarmless, hLow⟩
  | payload contact type plain =>
      exact onPayload_harmless hNoAdmin contact type plain
  | group type payload =>
      exact onGroup_harmless hNoAdmin type payload
  | forward p =>
      refine ⟨shouldForward_harmless room p, ?_⟩
      unfold shouldForward
      split
      · exact hNoAdmin
      · split <;> exact hNoAdmin
  | ack id =>
      have hRows := onAck_onlyRows room id
      exact ⟨hRows.harmless rfl, hRows.noAdmin hNoAdmin⟩
  | failed id =>
      have hRows := onDeliveryFailed_onlyRows room id
      exact ⟨hRows.harmless rfl, hRows.noAdmin hNoAdmin⟩
  | tick now =>
      apply (tick_onlyRows room now).mono (fun _ h => h)
      intro room' hRows
      exact ⟨hRows.harmless rfl, hRows.noAdmin hNoAdmin⟩
  | host host =>
      refine ⟨⟨?_, fun _ => rfl, rfl, rfl⟩, hNoAdmin⟩
      exact fun hOther => absurd rfl (hOther host)

/- The step lemma, over what routing answers. -/
theorem step_harmless
    {room room' : Room η} {e : Event η} {calls : Calls}
    (hNoAdmin : room.NoAdmin)
    (hPassword : room.offersAdmin e = false)
    (hStep : Step room (e, calls) room') :
    room.Harmless e room' ∧ room'.NoAdmin :=
  ((perform_harmless hNoAdmin hPassword).exec hStep).2

theorem Harmless.admin_eq
    {room room' : Room η} {e : Event η}
    (hHarmless : room.Harmless e room') :
    room'.config.admin = room.config.admin := by
  have hSettings :=
    congrArg RoomConfig.admin hHarmless.settings
  exact hSettings

/-
  In every run from a room without admins in which nobody
  logs in with the admin password in force, every step is
  harmless: the host, which keeps a list of what it is
  asked, is not asked to do anything, the settings stay, the
  board is not cleared, and whoever posts under a name may.
-/
theorem nothing_administrative
    {room₀ room : Room (η × List AdminCall)}
    {ts : List (Turn (η × List AdminCall))}
    {admin : Option (Admin η)}
    (hAdmin : room₀.config.admin = admin.map Admin.recording)
    (hNoAdmin : room₀.NoAdmin)
    (hRun : Run Step room₀ ts room)
    (hPassword :
      ∀ t ∈ ts, t.before.offersAdmin t.event.1 = false) :
    ∀ t ∈ ts,
      t.before.config.admin = admin.map Admin.recording ∧
        t.before.Harmless t.event.1 t.after := by
  intro t ht
  rcases hRun.before_of_mem ht with
    ⟨pre, post, hSplit, hBefore⟩
  have hKept :
      t.before.config.admin = admin.map Admin.recording ∧
        t.before.NoAdmin := by
    apply hBefore.invariant_of_forall
      (I := fun room =>
        room.config.admin = admin.map Admin.recording ∧
          room.NoAdmin)
      (C := fun t => t.before.offersAdmin t.event.1 = false)
    · exact ⟨hAdmin, hNoAdmin⟩
    · intro u hu
      exact hPassword u (by simp [hSplit, hu])
    · rintro room ⟨e, calls⟩ room' ⟨hSame, hLow⟩ hStep hNo
      rcases step_harmless hLow hNo hStep with
        ⟨hHarmless, hStill⟩
      exact ⟨hHarmless.admin_eq.trans hSame, hStill⟩
  exact ⟨hKept.1,
    (step_harmless hKept.2 (hPassword t ht)
      (hRun.step_of_mem ht)).1⟩

end Handlers

section Example

open Sample

/- A host that agrees to everything and does nothing. -/
def idleHost : Admin Unit where
  sendAdvert := fun host => host
  setClock := fun host _ => (true, host)
  nodeName := fun _ => []
  setNodeName := fun host _ => (true, host)
  saveSetting := fun host _ _ => (true, host)
  requestReboot := fun host => host
  uptime := fun _ => 0

/- A room on that host, which keeps its list. -/
def watchedRoom : Room (Unit × List AdminCall) :=
  .create
    { adminPassword := ascii "a"
      guestPassword := ascii "g"
      admin := some idleHost.recording }
    ((), [])

/- A guest logs in, and tries a command. -/
def guestCommand : List (Event (Unit × List AdminCall)) :=
  [.anon (key 1)
      (writeUint32 1 ++ writeUint32 0 ++ ascii "g"),
    .payload (.bare (key 1)) .txtMsg
      (writeUint32 2 ++ (TextType.cli.value <<< 2) ::
        ascii "reboot")]

/- The turn on which the command comes in. -/
def commandTurn : Turn (Unit × List AdminCall) :=
  (script numbering (watchedRoom, 1) guestCommand).get
    ⟨1, by decide⟩

theorem guest_reboots_nothing :
    commandTurn.before.config.admin =
        (some idleHost).map Admin.recording ∧
      commandTurn.before.Harmless commandTurn.event.1
        commandTurn.after :=
  nothing_administrative rfl
    (by simp [NoAdmin, watchedRoom, create])
    (run_script numbering (watchedRoom, 1) guestCommand)
    (by decide +kernel) commandTurn
    (List.get_mem _ _)

end Example

end Room

end MeshCore
