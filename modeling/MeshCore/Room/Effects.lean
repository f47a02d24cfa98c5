import MeshCore.Library.Least
import MeshCore.Library.Table
import MeshCore.Room.Service

/-
  What each handler of a room can do to its board and to its
  rows. What handles a payload only answers: it floods
  nothing, and asks for no acknowledgement.

  Key definitions include:
    * `Room.Keeps`, `Room.Commanded`
    * `Room.transitOf`, `Room.clearsStats`
    * `Track`, `Room.tracks`
    * `Standing`, `Room.standings`
    * `Room.MustGo`
    * `Room.accessFor`, `Room.replays`, `Room.granted`

  Key facts include:
    * `Room.runCommand_commanded`
    * `Room.runCommand_keeps`
    * `Room.evictClient_mustGo`
    * `Room.authenticate_eq`
-/

namespace MeshCore

namespace Room

variable {η : Type}

------------------------------------------------------------
-- Commands
------------------------------------------------------------

/- What a command leaves alone; it may clear the board. -/
structure Keeps (room room' : Room η) : Prop where
  type : room'.config.type = room.config.type
  channels : room'.config.channels = room.config.channels
  now : room'.now = room.now
  clients : room'.clients = room.clients
  nextClientIdx : room'.nextClientIdx = room.nextClientIdx
  nextSeq : room'.nextSeq = room.nextSeq
  posts : room'.posts = room.posts ∨ room'.posts = []

/- What the transit policy of these settings has counted. -/
def transitOf (config : RoomConfig η) : Repeater.Stats :=
  (config.forwarder.map (·.stats)).getD {}

/- The command that clears the transit counters. -/
def clearsStats (line : Bytes) : Bool :=
  let (verb, rest) := takeWord (trimmed line)
  verb = ascii "clear" ∧ (takeWord rest).1 = ascii "stats"

/- No setting changes the kind of the node or a counter. -/
structure SameKind (config config' : RoomConfig η) :
    Prop where
  type : config'.type = config.type
  channels : config'.channels = config.channels
  transit : transitOf config' = transitOf config

/-
  What a command leaves behind, by whether it is the one
  that clears the counters.
-/
inductive Commanded (room : Room η) : Bool → Room η → Prop
| settings
    (host : η)
    (serverTime : UInt32)
    {config : RoomConfig η}
    (hSame : SameKind room.config config) :
    Commanded room false
      { room with
        config := config
        host := host
        serverTime := serverTime }
| noPosts : Commanded room false { room with posts := [] }
| noStats
    {forwarder : Option Repeater.Policy}
    (hForwarder :
      forwarder =
        room.config.forwarder.map (·.clearStats)) :
    Commanded room true
      { room with
        config :=
          { room.config with forwarder := forwarder } }

theorem Commanded.refl (room : Room η) :
    room.Commanded false room :=
  .settings room.host room.serverTime ⟨rfl, rfl, rfl⟩

theorem Commanded.keeps
    {room room' : Room η} {cleared : Bool}
    (hCommanded : room.Commanded cleared room') :
    room.Keeps room' := by
  cases hCommanded with
  | settings host serverTime hSame =>
      exact ⟨hSame.type, hSame.channels, rfl, rfl, rfl, rfl,
        .inl rfl⟩
  | noPosts => exact ⟨rfl, rfl, rfl, rfl, rfl, rfl, .inr rfl⟩
  | noStats hForwarder =>
      exact ⟨rfl, rfl, rfl, rfl, rfl, rfl, .inl rfl⟩

theorem Commanded.transit
    {room room' : Room η} {cleared : Bool}
    (hCommanded : room.Commanded cleared room') :
    transitOf room'.config =
      if cleared then {} else transitOf room.config := by
  cases hCommanded with
  | settings host serverTime hSame => exact hSame.transit
  | noPosts => rfl
  | noStats hForwarder =>
      simp only [transitOf, hForwarder]
      cases room.config.forwarder <;> rfl

theorem sendCliReply_ensures
    (room : Room η)
    (dest : PublicKey)
    (text : Bytes)
    {post : Unit → Prop}
    (hPost : post ()) :
    (room.sendCliReply dest text).Ensures
      SenderOp.Answers post := by
  unfold sendCliReply
  split
  · exact hPost
  · exact ⟨rfl, fun _ => hPost⟩

/- A reply changes nothing. -/
theorem reply_ensures
    {room : Room η}
    (dest : PublicKey)
    (text : Bytes)
    {post : Room η → Prop}
    (hPost : post room) :
    (room.reply dest text).Ensures
      SenderOp.Answers post := by
  unfold reply
  rw [Program.ensures_bind]
  exact sendCliReply_ensures room dest text hPost

theorem reply_commanded
    (room : Room η)
    (dest : PublicKey)
    (text : Bytes) :
    (room.reply dest text).Ensures
      SenderOp.Answers (room.Commanded false) :=
  reply_ensures dest text (.refl room)

theorem saveSetting_eq
    (room : Room η)
    (key value : Bytes) :
    ∃ host,
      (room.saveSetting key value).2 =
        { room with host := host } := by
  unfold saveSetting
  split
  · exact ⟨room.host, rfl⟩
  · exact ⟨_, rfl⟩

theorem commandClock_commanded
    (room : Room η)
    (dest : PublicKey)
    (rest : Bytes) :
    (room.commandClock dest rest).Ensures
      SenderOp.Answers (room.Commanded false) := by
  unfold commandClock
  simp only
  split
  · split <;> exact room.reply_commanded _ _
  · split
    · exact room.reply_commanded _ _
    · split
      · exact room.reply_commanded _ _
      · cases room.config.admin with
        | none =>
            simp only
            split
            · exact reply_ensures _ _
                (.settings _ _ ⟨rfl, rfl, rfl⟩)
            · exact room.reply_commanded _ _
        | some admin =>
            simp only
            split <;>
              exact reply_ensures _ _
                (.settings _ _ ⟨rfl, rfl, rfl⟩)

theorem setName_commanded
    (room : Room η)
    (dest : PublicKey)
    (value : Bytes) :
    (room.setName dest value).Ensures
      SenderOp.Answers (room.Commanded false) := by
  unfold setName
  split
  · exact room.reply_commanded _ _
  · split
    · exact room.reply_commanded _ _
    · simp only
      split <;>
        exact reply_ensures _ _
          (.settings _ _ ⟨rfl, rfl, rfl⟩)

theorem setPassword_commanded
    (room : Room η)
    (dest : PublicKey)
    (forAdmin : Bool)
    (value : Bytes) :
    (room.setPassword dest forAdmin value).Ensures
      SenderOp.Answers (room.Commanded false) := by
  unfold setPassword
  refine Program.ensures_ite (fun _ => ?_) fun _ => ?_
  · exact room.reply_commanded _ _
  · rcases saveSetting_eq room
        (if forAdmin then ascii "room.admin_password"
          else ascii "room.guest_password") value with
      ⟨host, hHost⟩
    simp only [hHost]
    refine Program.ensures_ite (fun _ => ?_) fun _ => ?_
    · cases forAdmin <;>
        exact reply_ensures _ _
          (.settings _ _ ⟨rfl, rfl, rfl⟩)
    · exact reply_ensures _ _
        (.settings _ _ ⟨rfl, rfl, rfl⟩)

theorem setAnonymousRead_commanded
    (room : Room η)
    (dest : PublicKey)
    (value : Bytes) :
    (room.setAnonymousRead dest value).Ensures
      SenderOp.Answers (room.Commanded false) := by
  unfold setAnonymousRead
  cases parseOnOff value with
  | none => exact room.reply_commanded _ _
  | some allow =>
      rcases saveSetting_eq room
          (ascii "room.anonymous_read")
          (if allow then ascii "true"
            else ascii "false") with
        ⟨host, hHost⟩
      simp only [hHost]
      refine Program.ensures_ite (fun _ => ?_)
        fun _ => ?_ <;>
          exact reply_ensures _ _
            (.settings _ _ ⟨rfl, rfl, rfl⟩)

/- A setting of transit that leaves the counters alone. -/
theorem setForwarder_commanded
    (room : Room η)
    (dest : PublicKey)
    (key value : Bytes)
    {apply : Repeater.Policy → Repeater.Policy}
    (hApply : ∀ policy, (apply policy).stats = policy.stats)
    (text : Repeater.Policy → Bytes) :
    (room.setForwarder dest key value apply text).Ensures
      SenderOp.Answers (room.Commanded false) := by
  unfold setForwarder
  cases hPolicy : room.config.forwarder with
  | none => exact room.reply_commanded _ _
  | some policy =>
      rcases saveSetting_eq room key value with
        ⟨host, hHost⟩
      simp only [hHost]
      have hTransit :
          transitOf
              { room.config with
                forwarder := some (apply policy) } =
            transitOf room.config := by
        simp [transitOf, hPolicy, hApply]
      refine Program.ensures_ite (fun _ => ?_)
        fun _ => ?_
      · exact reply_ensures _ _
          (.settings _ _ ⟨rfl, rfl, hTransit⟩)
      · exact reply_ensures _ _
          (.settings _ _ ⟨rfl, rfl, rfl⟩)

theorem setRepeat_commanded
    (room : Room η)
    (dest : PublicKey)
    (value : Bytes) :
    (room.setRepeat dest value).Ensures
      SenderOp.Answers (room.Commanded false) := by
  unfold setRepeat
  cases parseOnOff value with
  | none => exact room.reply_commanded _ _
  | some on =>
      apply setForwarder_commanded
      exact fun _ => rfl

theorem setHopsMax_commanded
    (room : Room η)
    (dest : PublicKey)
    (value : Bytes) :
    (room.setHopsMax dest value).Ensures
      SenderOp.Answers (room.Commanded false) := by
  unfold setHopsMax
  split
  · exact room.reply_commanded _ _
  · apply setForwarder_commanded
    exact fun _ => rfl

theorem commandSet_commanded
    (room : Room η)
    (dest : PublicKey)
    (rest : Bytes) :
    (room.commandSet dest rest).Ensures
      SenderOp.Answers (room.Commanded false) := by
  unfold commandSet
  refine Program.ensures_ite (fun _ => ?_) fun _ => ?_
  · exact room.setName_commanded _ _
  refine Program.ensures_ite (fun _ => ?_) fun _ => ?_
  · exact room.setPassword_commanded _ _ _
  refine Program.ensures_ite (fun _ => ?_) fun _ => ?_
  · exact room.setPassword_commanded _ _ _
  refine Program.ensures_ite (fun _ => ?_) fun _ => ?_
  · exact room.setAnonymousRead_commanded _ _
  refine Program.ensures_ite (fun _ => ?_) fun _ => ?_
  · exact room.setRepeat_commanded _ _
  refine Program.ensures_ite (fun _ => ?_) fun _ => ?_
  · exact room.setHopsMax_commanded _ _
  · exact room.reply_commanded _ _

theorem commandGet_commanded
    (room : Room η)
    (dest : PublicKey)
    (rest : Bytes) :
    (room.commandGet dest rest).Ensures
      SenderOp.Answers (room.Commanded false) := by
  unfold commandGet
  refine Program.ensures_ite (fun _ => ?_) fun _ => ?_
  · exact room.reply_commanded _ _
  refine Program.ensures_ite (fun _ => ?_) fun _ => ?_
  · cases room.config.forwarder <;>
      exact room.reply_commanded _ _
  refine Program.ensures_ite (fun _ => ?_) fun _ => ?_
  · exact ⟨trivial, fun _ => room.reply_commanded _ _⟩
  refine Program.ensures_ite (fun _ => ?_) fun _ => ?_
  · exact room.reply_commanded _ _
  refine Program.ensures_ite (fun _ => ?_) fun _ => ?_
  · exact room.commandClock_commanded _ _
  · exact room.reply_commanded _ _

theorem commandClear_commanded
    (room : Room η)
    (dest : PublicKey)
    (rest : Bytes) :
    (room.commandClear dest rest).Ensures SenderOp.Answers
      (room.Commanded
        ((takeWord rest).1 = ascii "stats")) := by
  unfold commandClear
  refine Program.ensures_ite (fun hPosts => ?_) fun _ => ?_
  · have hNot : (takeWord rest).1 ≠ ascii "stats" := by
      rw [hPosts]
      decide
    rw [decide_eq_false hNot]
    refine Program.ensures_ite (fun _ => ?_) fun _ => ?_
    · exact room.reply_commanded _ _
    · exact reply_ensures _ _ .noPosts
  refine Program.ensures_ite (fun hStats => ?_)
    fun hOther => ?_
  · rw [decide_eq_true hStats]
    cases hPolicy : room.config.forwarder with
    | none =>
        have hSame :
            room.Commanded true
              { room with
                config :=
                  { room.config with forwarder := none } } :=
          .noStats (by rw [hPolicy]; rfl)
        rw [← hPolicy] at hSame
        exact reply_ensures _ _ hSame
    | some policy =>
        exact reply_ensures _ _
          (.noStats (by rw [hPolicy]; rfl))
  · rw [decide_eq_false hOther]
    exact room.reply_commanded _ _

theorem taken_ensures
    {command : SenderM (Room η)}
    {post : Room η → Prop}
    (hCommand : command.Ensures SenderOp.Answers post) :
    (taken command).Ensures SenderOp.Answers
      fun result => post result.2 := by
  unfold taken
  rw [Program.ensures_bind]
  exact hCommand

theorem refused_ensures
    {command : SenderM (Room η)}
    {post : Room η → Prop}
    (hCommand : command.Ensures SenderOp.Answers post) :
    (refused command).Ensures SenderOp.Answers
      fun result => post result.2 := by
  unfold refused
  rw [Program.ensures_bind]
  exact hCommand

theorem runCommand_commanded
    (room : Room η)
    (dest : PublicKey)
    (line : Bytes) :
    (room.runCommand dest line).Ensures SenderOp.Answers
      fun result =>
        room.Commanded (clearsStats line) result.2 := by
  unfold runCommand clearsStats
  generalize takeWord (trimmed line) = words
  rcases words with ⟨verb, rest⟩
  simp only
  -- every other verb clears no counter
  have hOther :
      verb ≠ ascii "clear" →
        decide
            (verb = ascii "clear" ∧
              (takeWord rest).1 = ascii "stats") =
          false := by
    intro hVerb
    simp [hVerb]
  refine Program.ensures_ite (fun hVerb => ?_) fun _ => ?_
  · rw [hOther (by rw [hVerb]; decide)]
    exact taken_ensures (room.reply_commanded _ _)
  refine Program.ensures_ite (fun hVerb => ?_) fun _ => ?_
  · rw [hOther (by rw [hVerb]; decide)]
    exact taken_ensures (room.reply_commanded _ _)
  refine Program.ensures_ite (fun hVerb => ?_) fun _ => ?_
  · have hClock : verb ≠ ascii "clear" := by
      rcases hVerb with hVerb | hVerb <;>
        rw [hVerb] <;> decide
    rw [hOther hClock]
    exact taken_ensures (room.commandClock_commanded _ _)
  refine Program.ensures_ite (fun hVerb => ?_) fun _ => ?_
  · rw [hOther (by rw [hVerb]; decide)]
    cases room.config.admin with
    | none =>
        exact refused_ensures (room.reply_commanded _ _)
    | some admin =>
        exact taken_ensures (reply_ensures _ _
          (.settings _ _ ⟨rfl, rfl, rfl⟩))
  refine Program.ensures_ite (fun hVerb => ?_) fun _ => ?_
  · rw [hOther (by rw [hVerb]; decide)]
    exact taken_ensures (room.commandSet_commanded _ _)
  refine Program.ensures_ite (fun hVerb => ?_) fun _ => ?_
  · rw [hOther (by rw [hVerb]; decide)]
    exact taken_ensures (room.commandGet_commanded _ _)
  refine Program.ensures_ite (fun hVerb => ?_)
    fun hVerb => ?_
  · simp only [hVerb, true_and]
    exact taken_ensures (room.commandClear_commanded _ _)
  rw [hOther hVerb]
  refine Program.ensures_ite (fun _ => ?_) fun _ => ?_
  · cases room.config.admin with
    | none =>
        exact refused_ensures (room.reply_commanded _ _)
    | some admin =>
        apply taken_ensures
        rw [Program.ensures_bind]
        exact sendCliReply_ensures _ _ _
          (.settings _ _ ⟨rfl, rfl, rfl⟩)
  · exact refused_ensures (room.reply_commanded _ _)

theorem runCommand_keeps
    (room : Room η)
    (dest : PublicKey)
    (line : Bytes) :
    (room.runCommand dest line).Ensures SenderOp.Answers
      fun result => room.Keeps result.2 :=
  (room.runCommand_commanded dest line).mono
    (fun _ h => h) fun _ hCommanded => hCommanded.keeps

------------------------------------------------------------
-- Rows
------------------------------------------------------------

end Room

/- The part of a row that the delivery of posts turns on. -/
structure Track where
  pk : PublicKey
  syncSeq : UInt32 := 0
  pending : Bool := false
  pendingId : SendId := 0
  pendingSeq : UInt32 := 0
deriving DecidableEq

def Client.track (client : Client) : Track :=
  { pk := client.pk
    syncSeq := client.syncSeq
    pending := client.pending
    pendingId := client.pendingId
    pendingSeq := client.pendingSeq }

namespace Track

/- The track of a row a post was pushed to. -/
def pushed
    (id : SendId)
    (seq : UInt32)
    (track : Track) :
    Track :=
  { track with
    pendingId := id
    pending := true
    pendingSeq := seq }

def acked (track : Track) : Track :=
  { track with
    syncSeq := track.pendingSeq
    pending := false }

def failed (track : Track) : Track :=
  { track with pending := false }

def marked (b : UInt32) (track : Track) : Track :=
  { track with syncSeq := b }

/- The row waits for the fate of this send. -/
def awaits (id : SendId) (track : Track) : Bool :=
  track.pending ∧ track.pendingId = id

end Track

namespace Room

variable {η : Type}

def tracks (room : Room η) : List Track :=
  room.clients.map Client.track

/- A change of a row, as some view of the rows shows it. -/
theorem map_modifyClient
    {β : Type}
    {view : Client → β}
    (room : Room η)
    (row : Nat)
    {f : Client → Client}
    {g : β → β}
    (hView : ∀ client, view (f client) = g (view client)) :
    (room.modifyClient row f).clients.map view =
      (room.clients.map view).modify row g :=
  Table.map_modify_view hView room.clients row

/- A change of a row, told by its change of the track. -/
theorem tracks_modifyClient
    (room : Room η)
    (row : Nat)
    {f : Client → Client}
    {g : Track → Track}
    (hTrack : ∀ client, (f client).track = g client.track) :
    (room.modifyClient row f).tracks =
      room.tracks.modify row g :=
  map_modifyClient room row hTrack

theorem tracks_modifyClient_same
    (room : Room η)
    (row : Nat)
    {f : Client → Client}
    (hTrack : ∀ client, (f client).track = client.track) :
    (room.modifyClient row f).tracks = room.tracks := by
  rw [tracks_modifyClient room row (g := id) hTrack]
  exact List.modify_id _ _

end Room

/-
  The part of a row that outlives a restart, but for the
  bookmark, and the guard of the commands, which does not.
-/
structure Standing where
  pk : PublicKey
  access : Access := .none
  lastLogin : UInt32 := 0
  lastCommand : UInt32 := 0
deriving DecidableEq

def Client.standing (client : Client) : Standing :=
  { pk := client.pk
    access := client.access
    lastLogin := client.lastLogin
    lastCommand := client.lastCommand }

namespace Room

variable {η : Type}

def standings (room : Room η) : List Standing :=
  room.clients.map Client.standing

theorem standings_modifyClient_same
    (room : Room η)
    (row : Nat)
    {f : Client → Client}
    (hStanding :
      ∀ client, (f client).standing = client.standing) :
    (room.modifyClient row f).standings = room.standings := by
  have hSame :=
    map_modifyClient room row (g := id) hStanding
  exact hSame.trans (List.modify_id _ _)

theorem findClient_eq_findIdx
    (room : Room η)
    (pk : PublicKey) :
    room.findClient pk =
      room.tracks.findIdx? (·.pk == pk) := by
  simp [findClient, tracks, List.findIdx?_map,
    Function.comp_def, Client.track]

------------------------------------------------------------
-- Whose Row Goes
------------------------------------------------------------

/- Both are admins, or neither is. -/
def SameClass (client other : Client) : Prop :=
  client.access = .admin ↔ other.access = .admin

/-
  The row that goes from a full table: no admin while there
  is anybody else, of its class one that logged in longest
  ago, and the first of those.
-/
structure MustGo
    (clients : List Client)
    (victim : Nat)
    (gone : Client) :
    Prop where
  here : clients[victim]? = some gone
  spared :
    gone.access = .admin →
      ∀ client ∈ clients, client.access = .admin
  longest :
    ∀ client ∈ clients,
      SameClass client gone →
        gone.lastLogin ≤ client.lastLogin
  first :
    ∀ row < victim, ∀ client,
      clients[row]? = some client →
        SameClass client gone →
          gone.lastLogin < client.lastLogin

/- A row is one of the admins, or one of the others. -/
def InClass
    (clients : List Client)
    (admins : Bool)
    (row : Nat) :
    Prop :=
  decide ((clients.getD row default).access = .admin) =
    admins

instance (clients : List Client) (admins : Bool) :
    DecidablePred (InClass clients admins) :=
  fun _ => inferInstanceAs (Decidable (_ = _))

/- When the client in a row logged in last. -/
def loggedInAt (clients : List Client) (row : Nat) : Nat :=
  (clients.getD row default).lastLogin.toNat

/- The scan of one class finds its first least row. -/
theorem longestAway_isFirst
    (clients : List Client)
    (admins : Bool) :
    match longestAway clients admins with
    | none =>
        ∀ row < clients.length, ¬ InClass clients admins row
    | some victim =>
        Least.IsFirst clients.length (loggedInAt clients)
          (InClass clients admins) victim := by
  unfold longestAway
  apply Least.foldl_isFirst_where
  · intro best row _ hOther
    exact if_pos hOther
  · intro row _ hClass
    exact if_neg (not_not.mpr hClass)
  · intro best _ row _ hClass
    exact if_neg (not_not.mpr hClass)

theorem getD_of_getElem?
    {clients : List Client} {row : Nat} {client : Client}
    (hRow : clients[row]? = some client) :
    clients.getD row default = client := by
  rw [List.getD_eq_getElem?_getD, hRow]
  rfl

/- The first least row of a class, where the class may go. -/
theorem mustGo_of_isFirst
    {clients : List Client} {admins : Bool} {victim : Nat}
    (hFirst :
      Least.IsFirst clients.length (loggedInAt clients)
        (InClass clients admins) victim)
    (hSpared :
      admins = true →
        ∀ row < clients.length,
          ¬ InClass clients false row) :
    ∃ gone, MustGo clients victim gone := by
  have hSome : ∃ gone, clients[victim]? = some gone :=
    ⟨_, List.getElem?_eq_getElem hFirst.inside⟩
  rcases hSome with ⟨gone, hHere⟩
  have hVictim := getD_of_getElem? hHere
  have hMeets := hFirst.meets
  rw [InClass, hVictim] at hMeets
  -- a row of the victim's class is one that was looked at
  have hClass :
      ∀ {row client},
        clients[row]? = some client →
          SameClass client gone →
            InClass clients admins row := by
    intro row client hRow hSame
    rw [InClass, getD_of_getElem? hRow, ← hMeets]
    exact decide_eq_decide.mpr hSame
  refine ⟨gone, hHere, ?_, ?_, ?_⟩
  · intro hAdmin client hMem
    rw [decide_eq_true hAdmin] at hMeets
    rcases List.mem_iff_getElem?.mp hMem with ⟨row, hRow⟩
    rcases List.getElem?_eq_some_iff.mp hRow with
      ⟨hInside, -⟩
    have hNobody := hSpared hMeets.symm row hInside
    rw [InClass, getD_of_getElem? hRow] at hNobody
    simpa using hNobody
  · intro client hMem hSame
    rcases List.mem_iff_getElem?.mp hMem with ⟨row, hRow⟩
    rcases List.getElem?_eq_some_iff.mp hRow with
      ⟨hInside, -⟩
    have hLeast :=
      hFirst.least row hInside (hClass hRow hSame)
    rw [loggedInAt, loggedInAt, hVictim,
      getD_of_getElem? hRow] at hLeast
    exact hLeast
  · intro row hBefore client hRow hSame
    have hLess :=
      hFirst.first row hBefore (hClass hRow hSame)
    rw [loggedInAt, loggedInAt, hVictim,
      getD_of_getElem? hRow] at hLess
    exact hLess

/- Exactly the row that must go is erased. -/
theorem evictClient_mustGo
    {room : Room η}
    (hSome : room.clients ≠ []) :
    ∃ victim gone,
      MustGo room.clients victim gone ∧
        room.evictClient =
          { room with
            clients := room.clients.eraseIdx victim } := by
  have hOthers := longestAway_isFirst room.clients false
  have hAdmins := longestAway_isFirst room.clients true
  rw [evictClient, if_neg hSome]
  cases hFirst : longestAway room.clients false with
  | some victim =>
      rw [hFirst] at hOthers
      rcases mustGo_of_isFirst hOthers nofun with
        ⟨gone, hGoes⟩
      exact ⟨victim, gone, hGoes, rfl⟩
  | none =>
      rw [hFirst] at hOthers
      cases hSecond : longestAway room.clients true with
      | some victim =>
          rw [hSecond] at hAdmins
          rcases mustGo_of_isFirst hAdmins
              fun _ => hOthers with
            ⟨gone, hGoes⟩
          exact ⟨victim, gone, hGoes, rfl⟩
      | none =>
          -- the first row is of one of the two classes
          rw [hSecond] at hAdmins
          have hInside := List.length_pos_iff.mpr hSome
          have hNot := hOthers 0 hInside
          have hNor := hAdmins 0 hInside
          simp [InClass] at hNot hNor
          exact absurd hNot hNor

------------------------------------------------------------
-- Logins
------------------------------------------------------------

/- What only the failures of a room were changed by. -/
def OnlyFailures (room room' : Room η) : Prop :=
  ∃ failures, room' = { room with failures := failures }

theorem lockedOut_onlyFailures
    (room : Room η)
    (pk : PublicKey) :
    room.OnlyFailures (room.lockedOut pk).2 := by
  unfold lockedOut
  split
  · exact ⟨room.failures, rfl⟩
  · split
    · exact ⟨_, rfl⟩
    · exact ⟨room.failures, rfl⟩

theorem noteFailure_onlyFailures
    (room : Room η)
    (pk : PublicKey) :
    room.OnlyFailures (room.noteFailure pk) := by
  unfold noteFailure
  split <;> exact ⟨_, rfl⟩

theorem OnlyFailures.trans
    {room room' room'' : Room η}
    (hFirst : room.OnlyFailures room')
    (hThen : room'.OnlyFailures room'') :
    room.OnlyFailures room'' := by
  rcases hFirst with ⟨failures, rfl⟩
  rcases hThen with ⟨more, rfl⟩
  exact ⟨more, rfl⟩

/- Somebody goes from a table that is not empty. -/
theorem evictClient_cases
    {room : Room η}
    (hSome : room.clients ≠ []) :
    ∃ victim < room.clients.length,
      room.evictClient =
        { room with
          clients := room.clients.eraseIdx victim } := by
  rcases evictClient_mustGo hSome with
    ⟨victim, gone, hGoes, hEvict⟩
  rcases List.getElem?_eq_some_iff.mp hGoes.here with
    ⟨hInside, -⟩
  exact ⟨victim, hInside, hEvict⟩

/-
  A row is found, or entered behind those that are kept,
  among which there is room for it.
-/
theorem enterClient_cases
    (room : Room η)
    (pk : PublicKey) :
    (∃ row,
      room.findClient pk = some row ∧
        room.enterClient pk = (row, room)) ∨
      (room.findClient pk = none ∧
        ∃ kept,
          ((kept = room.clients ∧
              room.clients.length < maxRoomClients) ∨
            ∃ victim < room.clients.length,
              kept = room.clients.eraseIdx victim) ∧
          room.enterClient pk =
            (kept.length,
              { room with
                clients := kept ++ [{ pk := pk }] })) := by
  unfold enterClient
  split
  next row hRow => exact .inl ⟨row, hRow, rfl⟩
  next hNone =>
    right
    refine ⟨hNone, ?_⟩
    by_cases hFull : maxRoomClients ≤ room.clients.length
    · simp only [if_pos hFull]
      have hSome : room.clients ≠ [] := by
        intro hEmpty
        rw [hEmpty] at hFull
        exact absurd hFull (by decide)
      rcases evictClient_cases hSome with
        ⟨victim, hVictim, hEvict⟩
      rw [hEvict]
      exact ⟨_, .inr ⟨victim, hVictim, rfl⟩, rfl⟩
    · simp only [if_neg hFull]
      exact ⟨room.clients,
        .inl ⟨rfl, Nat.lt_of_not_le hFull⟩, rfl⟩

/- The password that a login carries. -/
def passwordOf (plain : Bytes) : Bytes :=
  trimmed
    ((plain.drop loginRequestPrefixSize).take maxPassword)

/- What a password opens. -/
def accessFor (room : Room η) (password : Bytes) : Access :=
  if passwordMatches password room.config.adminPassword then
    .admin
  else if
      passwordMatches password room.config.guestPassword then
    .guest
  else .none

/- The rights that come with being let in for a password. -/
def rightsFor (room : Room η) (password : Bytes) : Access :=
  if room.accessFor password = .none then .readOnly
  else room.accessFor password

/- A login no younger than the last one of its key. -/
def replays
    (room : Room η)
    (pk : PublicKey)
    (timestamp : UInt32) :
    Bool :=
  (room.findClient pk).any fun row =>
    decide (timestamp ≤ (room.client row).lastLogin)

/- The room with the attempt in its failures. -/
def noted
    (room : Room η)
    (pk : PublicKey)
    (password : Bytes) :
    Room η :=
  let checked := (room.lockedOut pk).2
  if room.accessFor password = .none then
    if password ≠ [] then checked.noteFailure pk
    else checked
  else checked.clearFailures pk

theorem noted_onlyFailures
    (room : Room η)
    (pk : PublicKey)
    (password : Bytes) :
    room.OnlyFailures (room.noted pk password) := by
  have hLocked := lockedOut_onlyFailures room pk
  unfold noted
  simp only
  split
  · split
    · exact hLocked.trans (noteFailure_onlyFailures _ pk)
    · exact hLocked
  · exact hLocked.trans ⟨_, rfl⟩

/- A key is let in with these rights. -/
def granted
    (room : Room η)
    (pk : PublicKey)
    (access : Access)
    (timestamp : UInt32) :
    Option Nat × Room η :=
  (some (room.enterClient pk).1,
    (room.enterClient pk).2.modifyClient
      (room.enterClient pk).1 fun client =>
        { client with
          access := access
          lastLogin := timestamp })

/- The ways a login can end, in the order they are tried. -/
theorem authenticate_eq
    (room : Room η)
    (pk : PublicKey)
    (password : Bytes)
    (timestamp : UInt32) :
    room.authenticate pk password timestamp =
      if room.replays pk timestamp then (none, room)
      else if (room.lockedOut pk).1 then
        (none, (room.lockedOut pk).2)
      else if room.accessFor password = .none ∧
          ¬ room.config.allowAnonymousRead then
        (none, room.noted pk password)
      else
        (room.noted pk password).granted pk
          (if room.accessFor password = .none then .readOnly
            else room.accessFor password)
          timestamp := by
  have hConfig :
      (room.lockedOut pk).2.config = room.config := by
    rcases lockedOut_onlyFailures room pk with
      ⟨failures, hEq⟩
    rw [hEq]
  have hNoted :
      (room.noted pk password).config = room.config := by
    rcases noted_onlyFailures room pk password with
      ⟨failures, hEq⟩
    rw [hEq]
  have hIs :
      (if room.accessFor password = .none then
          if password ≠ [] then
            (room.lockedOut pk).2.noteFailure pk
          else (room.lockedOut pk).2
        else (room.lockedOut pk).2.clearFailures pk) =
        room.noted pk password :=
    rfl
  have hAccess :
      (if passwordMatches password
          (room.lockedOut pk).2.config.adminPassword then
        Access.admin
      else if passwordMatches password
          (room.lockedOut pk).2.config.guestPassword then
        Access.guest
      else Access.none) =
        room.accessFor password := by
    rw [hConfig]
    rfl
  unfold authenticate
  simp only [hAccess, hIs, hNoted]
  rfl

/- Refused, or let in with some rights at this time. -/
theorem authenticate_cases
    (room : Room η)
    (pk : PublicKey)
    (password : Bytes)
    (timestamp : UInt32) :
    ∃ room₁, room.OnlyFailures room₁ ∧
      (room.authenticate pk password timestamp =
          (none, room₁) ∨
        ∃ access,
          room.authenticate pk password timestamp =
            (some (room₁.enterClient pk).1,
              (room₁.enterClient pk).2.modifyClient
                (room₁.enterClient pk).1
                fun client =>
                  { client with
                    access := access
                    lastLogin := timestamp })) := by
  rw [authenticate_eq]
  split
  · exact ⟨room, ⟨room.failures, rfl⟩, .inl rfl⟩
  · split
    · exact ⟨_, lockedOut_onlyFailures room pk, .inl rfl⟩
    · have hNoted := noted_onlyFailures room pk password
      split
      · exact ⟨_, hNoted, .inl rfl⟩
      · exact ⟨_, hNoted, .inr ⟨_, rfl⟩⟩

end Room

end MeshCore
