import MeshCore.Library.Guard
import MeshCore.Library.Table
import MeshCore.Room.Rights
import MeshCore.Room.Storage

/-
  A room across its restarts: what of the guards against
  replays lives on, and what a restart forgets.

  Key definitions include:
    * `Room.Life`, `Room.Lives`
    * `Room.loginTime`, `Room.commandTime`
    * `Room.StandingChange`
    * `Room.Stocked`

  Key facts include:
    * `Room.step_standings`
    * `Room.lives_stocked`
-/

namespace MeshCore

------------------------------------------------------------
-- Standings
------------------------------------------------------------

namespace Standing

def loggedIn
    (access : Access)
    (timestamp : UInt32)
    (standing : Standing) :
    Standing :=
  { standing with
    access := access
    lastLogin := timestamp }

def commanded
    (timestamp : UInt32)
    (standing : Standing) :
    Standing :=
  { standing with lastCommand := timestamp }

/- A restart forgets the commands. -/
def restored (standing : Standing) : Standing :=
  { standing with lastCommand := 0 }

end Standing

namespace Room

variable {η : Type}

/- What is known of a key, if it has a row. -/
def standingOf
    (room : Room η)
    (pk : PublicKey) :
    Option Standing :=
  Table.lookup Standing.pk room.standings pk

------------------------------------------------------------
-- Lives
------------------------------------------------------------

/-
  What happens to a room, where a reboot flushes it and
  loads a new one, which may be set up another way.
-/
inductive Life (η : Type) where
| event (e : Event η) (calls : Calls)
| reboot (config : RoomConfig η) (host : η)

def Lives
    [CryptoCore]
    (room : Room η) :
    Life η → Room η → Prop
| .event e calls, room' => Step room (e, calls) room'
| .reboot config host, room' =>
    room' = room.reboot config host

/- The stamp of a login of the key that is accepted. -/
def loginTime
    (room : Room η)
    (pk : PublicKey) :
    Life η → Option UInt32
| .event (.anon peer plain) _ =>
    if peer = pk ∧ (room.login peer plain).1.isSome then
      some (readUint32 plain 0)
    else none
| _ => none

/- The stamp of a command that is executed, in a plaintext. -/
def executes
    (room : Room η)
    (pk : PublicKey)
    (plain : Bytes) :
    Option UInt32 :=
  (decodeText plain).bind fun message =>
    (room.findClient pk).bind fun row =>
      if textTypeOf message.txtType = some .cli ∧
          room.can (room.client row) .command ∧
          (room.client row).lastCommand ≤
            message.timestamp then
        some message.timestamp
      else none

/- The stamp of a command executed for the key. -/
def commandTime
    (room : Room η)
    (pk : PublicKey) :
    Life η → Option UInt32
| .event (.payload contact .txtMsg plain) _ =>
    if contact.pk = pk then room.executes pk plain
    else none
| _ => none

------------------------------------------------------------
-- What A Step Does To The Standings
------------------------------------------------------------

/- A step changes the standing of one key at most. -/
inductive StandingChange
    (room room' : Room η) :
    Life η → Prop where
| same
    {e : Event η} {calls : Calls}
    (hLogin :
      ∀ pk, room.loginTime pk (.event e calls) = none)
    (hCommand :
      ∀ pk, room.commandTime pk (.event e calls) = none)
    (hStandings : room'.standings = room.standings) :
    StandingChange room room' (.event e calls)
| commanded
    {l : Life η} {pk : PublicKey} {row : Nat}
    {timestamp : UInt32}
    (hLogin : ∀ other, room.loginTime other l = none)
    (hCommand : room.commandTime pk l = some timestamp)
    (hOthers :
      ∀ other, other ≠ pk → room.commandTime other l = none)
    (hRow : room.findClient pk = some row)
    (hNext : (room.client row).lastCommand ≤ timestamp)
    (hStandings :
      room'.standings =
        room.standings.modify row
          (Standing.commanded timestamp)) :
    StandingChange room room' l
| returned
    {l : Life η} {pk : PublicKey} {row : Nat}
    {access : Access} {timestamp : UInt32}
    (hLogin : room.loginTime pk l = some timestamp)
    (hOthers :
      ∀ other, other ≠ pk → room.loginTime other l = none)
    (hCommand : ∀ other, room.commandTime other l = none)
    (hRow : room.findClient pk = some row)
    (hNext : (room.client row).lastLogin < timestamp)
    (hStandings :
      room'.standings =
        room.standings.modify row
          (Standing.loggedIn access timestamp)) :
    StandingChange room room' l
| entered
    {l : Life η} {pk : PublicKey} {kept : List Standing}
    {access : Access} {timestamp : UInt32}
    (hLogin : room.loginTime pk l = some timestamp)
    (hOthers :
      ∀ other, other ≠ pk → room.loginTime other l = none)
    (hCommand : ∀ other, room.commandTime other l = none)
    (hNew : room.findClient pk = none)
    (hKept :
      (kept = room.standings ∧
          room.standings.length < maxRoomClients) ∨
        ∃ victim < room.standings.length,
          kept = room.standings.eraseIdx victim)
    (hStandings :
      room'.standings =
        kept ++
          [{ pk := pk
             access := access
             lastLogin := timestamp }]) :
    StandingChange room room' l
| restarted
    {config : RoomConfig η} {host : η}
    (hStandings :
      room'.standings =
        room.standings.map Standing.restored) :
    StandingChange room room' (.reboot config host)

/- What becomes of the rows where a key is let in. -/
theorem granted_standings
    (room : Room η)
    (pk : PublicKey)
    (access : Access)
    (timestamp : UInt32) :
    (∃ row,
      room.findClient pk = some row ∧
        (room.granted pk access timestamp).2.standings =
          room.standings.modify row
            (Standing.loggedIn access timestamp)) ∨
      (room.findClient pk = none ∧
        ∃ kept,
          ((kept = room.standings ∧
              room.standings.length < maxRoomClients) ∨
            ∃ victim < room.standings.length,
              kept = room.standings.eraseIdx victim) ∧
          (room.granted pk access timestamp).2.standings =
            kept ++
              [{ pk := pk
                 access := access
                 lastLogin := timestamp }]) := by
  have hLength :
      room.standings.length = room.clients.length :=
    List.length_map _
  rcases room.enterClient_cases pk with
    ⟨row, hRow, hEnter⟩ | ⟨hNew, kept, hKept, hEnter⟩
  · left
    refine ⟨row, hRow, ?_⟩
    unfold granted
    rw [hEnter]
    exact map_modifyClient room row fun _ => rfl
  · right
    refine ⟨hNew, kept.map Client.standing, ?_, ?_⟩
    · rw [hLength]
      rcases hKept with ⟨rfl, hRoom⟩ | ⟨victim, hLt, rfl⟩
      · exact .inl ⟨rfl, hRoom⟩
      · exact .inr ⟨victim, hLt,
          (List.eraseIdx_map _ _ _).symm⟩
    · unfold granted
      rw [hEnter]
      simp only [modifyClient, standings,
        Table.modify_length_append]
      simp [Client.standing]

/- Refused, or let in with a stamp that is new. -/
theorem authenticate_standings
    (room : Room η)
    (pk : PublicKey)
    (password : Bytes)
    (timestamp : UInt32) :
    ((room.authenticate pk password timestamp).1 = none ∧
        (room.authenticate pk password
            timestamp).2.standings =
          room.standings) ∨
      ∃ noted access,
        room.OnlyFailures noted ∧
          room.replays pk timestamp = false ∧
          room.authenticate pk password timestamp =
            noted.granted pk access timestamp := by
  rw [authenticate_eq]
  by_cases hReplay : room.replays pk timestamp = true
  · rw [if_pos hReplay]
    exact .inl ⟨rfl, rfl⟩
  rw [if_neg hReplay]
  by_cases hLocked : (room.lockedOut pk).1 = true
  · rw [if_pos hLocked]
    rcases lockedOut_onlyFailures room pk with
      ⟨failures, hOnly⟩
    refine .inl ⟨rfl, ?_⟩
    rw [hOnly]
    rfl
  rw [if_neg hLocked]
  have hNoted := noted_onlyFailures room pk password
  split
  · rcases hNoted with ⟨failures, hOnly⟩
    refine .inl ⟨rfl, ?_⟩
    rw [hOnly]
    rfl
  · exact .inr ⟨_, _, hNoted,
      Bool.eq_false_of_not_eq_true hReplay, rfl⟩

/- The rows that a login leaves, the bookmark apart. -/
theorem login_eq
    (room : Room η)
    (pk : PublicKey)
    (plain : Bytes) :
    ((room.login pk plain).1 = none ∧
        (room.login pk plain).2.standings =
          room.standings) ∨
      ∃ noted access,
        room.OnlyFailures noted ∧
          room.replays pk (readUint32 plain 0) = false ∧
          (room.login pk plain).1.isSome = true ∧
          (room.login pk plain).2.standings =
            (noted.granted pk access
              (readUint32 plain 0)).2.standings := by
  unfold login
  split
  · exact .inl ⟨rfl, rfl⟩
  simp only
  rcases authenticate_standings room pk
      (trimmed
        ((plain.drop loginRequestPrefixSize).take
          maxPassword))
      (readUint32 plain 0) with
    ⟨hNone, hSame⟩ | ⟨noted, access, hOnly, hFresh, hLet⟩
  · left
    generalize room.authenticate pk _ _ = result
      at hNone hSame ⊢
    rcases result with ⟨none | row, room'⟩
    · exact ⟨rfl, hSame⟩
    · cases hNone
  · right
    refine ⟨noted, access, hOnly, hFresh, ?_⟩
    rw [hLet]
    refine ⟨rfl, ?_⟩
    exact standings_modifyClient_same _ _ fun _ => rfl

theorem login_change
    (room : Room η)
    (pk : PublicKey)
    (plain : Bytes)
    (calls : Calls) :
    StandingChange room (room.login pk plain).2
      (.event (.anon pk plain) calls) := by
  have hCommand :
      ∀ other,
        room.commandTime other
          (.event (.anon pk plain) calls) = none :=
    fun _ => rfl
  have hOthers :
      ∀ other, other ≠ pk →
        room.loginTime other
          (.event (.anon pk plain) calls) = none :=
    fun other hOther => if_neg fun h => hOther h.1.symm
  rcases room.login_eq pk plain with
    ⟨hNone, hSame⟩ |
    ⟨noted, access, ⟨failures, rfl⟩, hFresh, hIn, hLet⟩
  · refine .same (fun other => ?_) hCommand hSame
    refine if_neg fun h => ?_
    rw [hNone] at h
    exact nomatch h.2
  · have hLogin :
        room.loginTime pk (.event (.anon pk plain) calls) =
          some (readUint32 plain 0) :=
      if_pos ⟨rfl, hIn⟩
    rcases granted_standings
        { room with failures := failures } pk access
        (readUint32 plain 0) with
      ⟨row, hRow, hStandings⟩ |
      ⟨hNew, kept, hKept, hStandings⟩
    · have hRow : room.findClient pk = some row := hRow
      have hNext :
          (room.client row).lastLogin <
            readUint32 plain 0 := by
        rw [replays, hRow] at hFresh
        simpa using hFresh
      exact .returned hLogin hOthers hCommand hRow hNext
        (hLet.trans hStandings)
    · exact .entered hLogin hOthers hCommand hNew hKept
        (hLet.trans hStandings)

section Lives

variable [CryptoCore]

/- A text is a command that is executed, or changes no row. -/
theorem handleText_standings
    (room : Room η)
    (contact : Contact)
    (plain : Bytes) :
    (room.handleText contact plain).Ensures
      (fun _ => True)
      fun result =>
        match room.executes contact.pk plain with
        | none => result.2.standings = room.standings
        | some timestamp =>
            ∃ row,
              room.findClient contact.pk = some row ∧
                (room.client row).lastCommand ≤ timestamp ∧
                result.2.standings =
                  room.standings.modify row
                    (Standing.commanded timestamp) := by
  unfold handleText executes
  cases hText : decodeText plain with
  | none => exact rfl
  | some message =>
      cases hRow : room.findClient contact.pk with
      | none => exact rfl
      | some row =>
          simp only [Option.bind_some]
          cases hType : textTypeOf message.txtType with
          | none => exact rfl
          | some type =>
              cases type with
              | plain =>
                  simp only
                  rw [if_neg (by simp)]
                  refine Program.ensures_ite (fun _ => ?_)
                    fun _ => ?_
                  · exact rfl
                  · rw [Program.ensures_bind]
                    exact (Program.ensures_trivial _).mono
                      (fun _ h => h) fun _ _ => rfl
              | signed =>
                  simp only
                  rw [if_neg (by simp)]
                  exact rfl
              | cli =>
                  simp only
                  unfold handleCommand
                  simp only
                  refine Program.ensures_ite (fun hNo => ?_)
                    fun hMay => ?_
                  · rw [if_neg fun h => hNo h.2.1]
                    have hReply :
                        (room.reply (room.client row).pk
                            (ascii
                              "ERR - admin rights required")
                          ).Ensures SenderOp.Answers
                          fun room' =>
                            room'.standings =
                              room.standings :=
                      reply_ensures _ _ rfl
                    exact (refused_ensures hReply).mono
                      (fun _ _ => trivial) fun _ h => h
                  refine Program.ensures_ite
                    (fun hOld => ?_) fun hNew => ?_
                  · rw [if_neg fun h =>
                      UInt32.not_le.mpr hOld h.2.2]
                    exact rfl
                  · rw [if_pos ⟨trivial, not_not.mp hMay,
                      UInt32.not_lt.mp hNew⟩]
                    apply (runCommand_keeps _ _ _).mono
                      (fun _ _ => trivial)
                    intro result hKeeps
                    refine ⟨row, rfl,
                      UInt32.not_lt.mp hNew, ?_⟩
                    rw [standings, hKeeps.clients]
                    exact map_modifyClient room row
                      fun _ => rfl

/- What any step does to the standings. -/
theorem step_standings
    {room room' : Room η} {e : Event η} {calls : Calls}
    (hStep : Step room (e, calls) room') :
    StandingChange room room' (.event e calls) := by
  cases e with
  | anon pk plain =>
      have hChange := room.login_change pk plain calls
      simp only [Step, perform, onAnon] at hStep
      generalize room.login pk plain = result
        at hChange hStep
      rcases result with ⟨none | row, after⟩
      · rcases Program.exec_done_iff.mp hStep with ⟨-, rfl⟩
        exact hChange
      · rcases Program.exec_bind_iff.mp hStep with
          ⟨_, _, _, _, _, hRest⟩
        rcases Program.exec_done_iff.mp hRest with ⟨-, rfl⟩
        exact hChange
  | payload contact type plain =>
      cases type with
      | txtMsg =>
          rcases Program.exec_bind_iff.mp hStep with
            ⟨first, result, rest, -, hFirst, hRest⟩
          rcases Program.exec_done_iff.mp hRest with
            ⟨-, rfl⟩
          have hText :=
            ((room.handleText_standings contact plain).exec
              hFirst).2
          have hOthers :
              ∀ other, other ≠ contact.pk →
                room.commandTime other
                  (.event (.payload contact .txtMsg plain)
                    calls) = none :=
            fun other hOther => if_neg hOther.symm
          have hOwn :
              room.commandTime contact.pk
                  (.event (.payload contact .txtMsg plain)
                    calls) =
                room.executes contact.pk plain :=
            if_pos rfl
          cases hExecutes : room.executes contact.pk plain with
          | none =>
              rw [hExecutes] at hText hOwn
              refine .same (fun _ => rfl) ?_ hText
              intro pk
              by_cases hPk : pk = contact.pk
              · rw [hPk]
                exact hOwn
              · exact hOthers pk hPk
          | some timestamp =>
              rw [hExecutes] at hText hOwn
              rcases hText with
                ⟨row, hRow, hNext, hStandings⟩
              exact .commanded (fun _ => rfl) hOwn hOthers
                hRow hNext hStandings
      | req =>
          simp only [Step, perform, onPayload] at hStep
          cases hRow : room.findClient contact.pk with
          | none =>
              simp only [hRow] at hStep
              rcases Program.exec_done_iff.mp hStep with
                ⟨-, rfl⟩
              exact .same (fun _ => rfl) (fun _ => rfl) rfl
          | some row =>
              simp only [hRow] at hStep
              rcases Program.exec_bind_iff.mp hStep with
                ⟨first, result, rest, -, hFirst, hRest⟩
              rcases Program.exec_done_iff.mp hRest with
                ⟨-, rfl⟩
              have hRows :=
                ((handleRequest_onlyRows room row
                  plain).exec hFirst).2
              exact .same (fun _ => rfl) (fun _ => rfl)
                hRows.standings
      | _ =>
          rcases Program.exec_done_iff.mp hStep with
            ⟨-, rfl⟩
          exact .same (fun _ => rfl) (fun _ => rfl) rfl
  | group type payload =>
      rcases Program.exec_done_iff.mp hStep with ⟨-, rfl⟩
      refine .same (fun _ => rfl) (fun _ => rfl) ?_
      unfold onGroup
      split <;> rfl
  | forward p =>
      rcases Program.exec_done_iff.mp hStep with ⟨-, rfl⟩
      refine .same (fun _ => rfl) (fun _ => rfl) ?_
      unfold shouldForward
      split
      · rfl
      · split <;> rfl
  | ack id =>
      rcases Program.exec_done_iff.mp hStep with ⟨-, rfl⟩
      have hRows := onAck_onlyRows room id
      exact .same (fun _ => rfl) (fun _ => rfl)
        hRows.standings
  | failed id =>
      rcases Program.exec_done_iff.mp hStep with ⟨-, rfl⟩
      have hRows := onDeliveryFailed_onlyRows room id
      exact .same (fun _ => rfl) (fun _ => rfl)
        hRows.standings
  | tick now =>
      have hRows := ((tick_onlyRows room now).exec hStep).2
      exact .same (fun _ => rfl) (fun _ => rfl)
        hRows.standings
  | _ =>
      rcases Program.exec_done_iff.mp hStep with ⟨-, rfl⟩
      exact .same (fun _ => rfl) (fun _ => rfl) rfl

------------------------------------------------------------
-- The Invariant
------------------------------------------------------------

/- The file has room for the room, and a key has one row. -/
structure Stocked (room : Room η) : Prop where
  storable : room.Storable
  keyed : Table.Keyed Standing.pk room.standings

omit [CryptoCore] in
theorem stocked_create (config : RoomConfig η) (host : η) :
    (create config host).Stocked :=
  ⟨storable_create config host, List.nodup_nil⟩

omit [CryptoCore] in
theorem findClient_eq_standings
    (room : Room η)
    (pk : PublicKey) :
    room.findClient pk =
      room.standings.findIdx? (·.pk == pk) := by
  simp [findClient, standings, List.findIdx?_map,
    Function.comp_def, Client.standing]

omit [CryptoCore] in
theorem standingOf_eq_none_iff
    {room : Room η} {pk : PublicKey} :
    room.standingOf pk = none ↔
      room.findClient pk = none := by
  rw [standingOf, Table.lookup_eq_none_iff,
    findClient_eq_standings, List.findIdx?_eq_none_iff]
  simp

omit [CryptoCore] in
/- The row that is found is the standing that is known. -/
theorem standingOf_of_findClient
    {room : Room η} {pk : PublicKey} {row : Nat}
    (hKeyed : Table.Keyed Standing.pk room.standings)
    (hRow : room.findClient pk = some row) :
    room.standings[row]? = some (room.client row).standing ∧
      room.standingOf pk =
        some (room.client row).standing := by
  rw [findClient_eq_standings] at hRow
  rcases Table.getElem?_of_findIdx? hRow with
    ⟨standing, hAt, hKey⟩
  have hIs : standing = (room.client row).standing := by
    rw [standings, List.getElem?_map] at hAt
    rcases Option.map_eq_some_iff.mp hAt with
      ⟨client, hClient, rfl⟩
    rw [Room.client, List.getD_eq_getElem?_getD, hClient]
    rfl
  subst hIs
  refine ⟨hAt, ?_⟩
  rw [standingOf, Table.lookup_eq_some_iff hKeyed]
  exact ⟨List.mem_of_getElem? hAt, eq_of_beq hKey⟩

theorem lives_change
    {room room' : Room η} {l : Life η}
    (hStocked : room.Stocked)
    (hStep : Lives room l room') :
    StandingChange room room' l := by
  cases l with
  | event e calls => exact step_standings hStep
  | reboot config host =>
      apply StandingChange.restarted
      rw [(hStep : room' = _), reboot_eq hStocked.storable,
        standings, standings, List.map_map, List.map_map]
      rfl

omit [CryptoCore] in
theorem StandingChange.length_le
    {room room' : Room η} {l : Life η}
    (hChange : StandingChange room room' l)
    (hRoom : room.standings.length ≤ maxRoomClients) :
    room'.standings.length ≤ maxRoomClients := by
  cases hChange with
  | same _ _ hStandings => rw [hStandings]; exact hRoom
  | commanded _ _ _ _ _ hStandings =>
      rw [hStandings, List.length_modify]
      exact hRoom
  | returned _ _ _ _ _ hStandings =>
      rw [hStandings, List.length_modify]
      exact hRoom
  | entered _ _ _ _ hKept hStandings =>
      rw [hStandings, List.length_append,
        List.length_singleton]
      rcases hKept with ⟨rfl, hLt⟩ | ⟨victim, hLt, rfl⟩
      · exact hLt
      · rw [List.length_eraseIdx_of_lt hLt]
        omega
  | restarted hStandings =>
      rw [hStandings, List.length_map]
      exact hRoom

omit [CryptoCore] in
theorem StandingChange.keyed
    {room room' : Room η} {l : Life η}
    (hChange : StandingChange room room' l)
    (hKeyed : Table.Keyed Standing.pk room.standings) :
    Table.Keyed Standing.pk room'.standings := by
  cases hChange with
  | same _ _ hStandings => rw [hStandings]; exact hKeyed
  | commanded _ _ _ _ _ hStandings =>
      rw [hStandings]
      exact hKeyed.modify (f := Standing.commanded _)
        (fun _ => rfl) _
  | returned _ _ _ _ _ hStandings =>
      rw [hStandings]
      exact hKeyed.modify (f := Standing.loggedIn _ _)
        (fun _ => rfl) _
  | @entered _ pk kept _ _ _ _ _ hNew hKept hStandings =>
      rw [hStandings]
      have hSublist : kept.Sublist room.standings := by
        rcases hKept with ⟨rfl, -⟩ | ⟨victim, -, rfl⟩
        · exact List.Sublist.refl _
        · exact List.eraseIdx_sublist _ _
      apply (hKeyed.sublist hSublist).append
      intro standing hStanding
      have hNone := standingOf_eq_none_iff.mpr hNew
      rw [standingOf, Table.lookup_eq_none_iff] at hNone
      exact hNone standing (hSublist.subset hStanding)
  | restarted hStandings =>
      rw [hStandings, Table.Keyed, List.map_map]
      exact hKeyed

omit [CryptoCore] in
/- What is posted is cut, and the rest was there before. -/
theorem BoardChange.texts
    {room room' : Room η}
    {posted : Option (PublicKey × TextMsg)}
    (hBoard : BoardChange room room' posted)
    (hTexts :
      ∀ post ∈ room.posts,
        post.text.length ≤ maxPostText) :
    ∀ post ∈ room'.posts,
      post.text.length ≤ maxPostText := by
  intro post hPost
  rcases hBoard.mem hPost with hOld | ⟨pk, message, -, rfl⟩
  · exact hTexts post hOld
  · exact List.length_take_le _ _

omit [CryptoCore] in
theorem BoardChange.storable
    {room room' : Room η}
    {posted : Option (PublicKey × TextMsg)}
    (hBoard : BoardChange room room' posted)
    (hStorable : room.Storable) :
    room'.posts.length ≤ maxPosts ∧
      ∀ post ∈ room'.posts,
        post.text.length ≤ maxPostText := by
  refine ⟨?_, hBoard.texts hStorable.texts⟩
  cases hBoard with
  | same hPosts hSeq =>
      rw [hPosts]
      exact hStorable.posts
  | cleared hPosts hSeq =>
      rw [hPosts]
      exact Nat.zero_le _
  | @posted pk message hPosts hSeq =>
      have hOld := hStorable.posts
      have hSome : 0 < maxPosts := by decide
      rw [hPosts, addPost]
      simp only [List.length_append, List.length_singleton]
      split
      · rw [List.length_drop]
        omega
      · omega

/- The step lemma: the invariant is kept. -/
theorem lives_stocked
    {room room' : Room η} {l : Life η}
    (hStocked : room.Stocked)
    (hStep : Lives room l room') :
    room'.Stocked := by
  have hChange := lives_change hStocked hStep
  have hLength :=
    hChange.length_le (by
      rw [standings, List.length_map]
      exact hStocked.storable.clients)
  have hClients : room'.clients.length ≤ maxRoomClients := by
    rw [standings, List.length_map] at hLength
    exact hLength
  refine ⟨?_, hChange.keyed hStocked.keyed⟩
  cases l with
  | event e calls =>
      have hBoard :=
        (step_changes hStep).1.storable hStocked.storable
      exact ⟨hBoard.1, hBoard.2, hClients⟩
  | reboot config host =>
      have hIs : room' = room.reboot config host := hStep
      rw [reboot_eq hStocked.storable] at hIs
      have hPosts : room'.posts = room.posts := by
        rw [hIs]
      exact ⟨hPosts ▸ hStocked.storable.posts,
        hPosts ▸ hStocked.storable.texts, hClients⟩

------------------------------------------------------------
-- Scripts
------------------------------------------------------------

/- Events, and between them restarts with the same setup. -/
def lifetime
    {σ : Type}
    (h : Program.Handler SenderOp SenderOp.Ans σ)
    (s : Room η × σ) :
    List (Option (Event η)) →
    List (Transition (Room η) (Life η))
| [] => []
| some e :: es =>
    let step := turn h s e
    ⟨s.1, .event e step.event.2, step.after⟩ ::
      lifetime h (under h s e) es
| none :: es =>
    let room := s.1.reboot s.1.config s.1.host
    ⟨s.1, .reboot s.1.config s.1.host, room⟩ ::
      lifetime h (room, s.2) es

theorem run_lifetime
    {σ : Type}
    (h : Program.Handler SenderOp SenderOp.Ans σ)
    (s : Room η × σ)
    (es : List (Option (Event η))) :
    ∃ room, Run Lives s.1 (lifetime h s es) room := by
  induction es generalizing s with
  | nil => exact ⟨s.1, .start⟩
  | cons e es ih =>
      cases e with
      | some e =>
          rcases ih (under h s e) with ⟨room, hRest⟩
          have hFirst :
              Lives s.1 (.event e (turn h s e).event.2)
                (under h s e).1 :=
            step_turn h s e
          exact ⟨room, (Run.single hFirst).trans hRest⟩
      | none =>
          rcases ih (s.1.reboot s.1.config s.1.host, s.2) with
            ⟨room, hRest⟩
          have hFirst :
              Lives s.1 (.reboot s.1.config s.1.host)
                (s.1.reboot s.1.config s.1.host) :=
            rfl
          exact ⟨room, (Run.single hFirst).trans hRest⟩

end Lives

end Room

end MeshCore
