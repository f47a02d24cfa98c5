import MeshCore.Room.Lockout
import MeshCore.Room.Sound

/-
  The table of the clients: what a login does to the rows,
  and whose row goes when the table is full.

  Between two logins anything may happen to a room that
  leaves the keys of its rows: posts, pushes and their fate,
  bookmarks, commands.

  Key definitions include:
    * `Room.LetsIn`, `Room.Logged`
    * `Room.OneRowEach`
    * `Room.Visit`, `Room.Visited`

  Key facts include:
    * `Room.authenticate_logged`
    * `Room.every_login_keeps_the_table`
    * `Room.step_visited`
-/

namespace MeshCore

namespace Room

variable {η : Type}

------------------------------------------------------------
-- What A Login Does To The Rows
------------------------------------------------------------

/- The row of a client who logs in for the first time. -/
def newClient
    (pk : PublicKey)
    (access : Access)
    (timestamp : UInt32) :
    Client :=
  { pk := pk
    access := access
    lastLogin := timestamp }

/- The rows when a key is let in, and which one is its own. -/
inductive LetsIn
    (clients : List Client)
    (pk : PublicKey)
    (access : Access)
    (timestamp : UInt32) :
    Nat → List Client → Prop where
| known
    {row : Nat} {client : Client}
    (hRow : clients[row]? = some client)
    (hKey : client.pk = pk) :
    LetsIn clients pk access timestamp row
      (clients.modify row fun client =>
        { client with
          access := access
          lastLogin := timestamp })
| entered
    (hNew : ∀ client ∈ clients, client.pk ≠ pk)
    (hRoom : clients.length < maxRoomClients) :
    LetsIn clients pk access timestamp clients.length
      (clients ++ [newClient pk access timestamp])
| replaced
    {victim : Nat} {gone : Client}
    (hNew : ∀ client ∈ clients, client.pk ≠ pk)
    (hFull : clients.length = maxRoomClients)
    (hGoes : MustGo clients victim gone) :
    LetsIn clients pk access timestamp
      (clients.eraseIdx victim).length
      (clients.eraseIdx victim ++
        [newClient pk access timestamp])

/- What a call leaves of the rows, by how it is answered. -/
def Logged
    (clients : List Client)
    (pk : PublicKey)
    (access : Access)
    (timestamp : UInt32) :
    Option Nat → List Client → Prop
| none, clients' => clients' = clients
| some row, clients' =>
    LetsIn clients pk access timestamp row clients'

/- One row for a key, and no more rows than there may be. -/
structure OneRowEach (clients : List Client) : Prop where
  keyed : Table.Keyed Client.pk clients
  bounded : clients.length ≤ maxRoomClients

theorem findClient_eq_some
    {room : Room η} {pk : PublicKey} {row : Nat}
    (hFind : room.findClient pk = some row) :
    ∃ client,
      room.clients[row]? = some client ∧ client.pk = pk := by
  rcases Table.getElem?_of_findIdx? hFind with
    ⟨client, hRow, hKey⟩
  exact ⟨client, hRow, eq_of_beq hKey⟩

theorem findClient_eq_none
    {room : Room η} {pk : PublicKey}
    (hFind : room.findClient pk = none) :
    ∀ client ∈ room.clients, client.pk ≠ pk := by
  rw [findClient, List.findIdx?_eq_none_iff] at hFind
  intro client hMem
  simpa using hFind client hMem

/- A key that is let in changes its own row, and no other. -/
theorem granted_letsIn
    {room : Room η}
    (hBounded : room.clients.length ≤ maxRoomClients)
    (pk : PublicKey)
    (access : Access)
    (timestamp : UInt32) :
    ∃ row,
      (room.granted pk access timestamp).1 = some row ∧
        LetsIn room.clients pk access timestamp row
          (room.granted pk access timestamp).2.clients := by
  refine ⟨_, rfl, ?_⟩
  unfold granted enterClient
  cases hFind : room.findClient pk with
  | some row =>
      rcases findClient_eq_some hFind with
        ⟨client, hRow, hKey⟩
      exact .known hRow hKey
  | none =>
      have hNew := findClient_eq_none hFind
      simp only [modifyClient, Table.modify_length_append]
      by_cases hFull : maxRoomClients ≤ room.clients.length
      · have hSome : room.clients ≠ [] := by
          rintro hEmpty
          rw [hEmpty] at hFull
          exact absurd hFull (by decide)
        rcases evictClient_mustGo hSome with
          ⟨victim, gone, hGoes, hEvict⟩
        simp only [if_pos hFull, hEvict]
        exact .replaced hNew
          (Nat.le_antisymm hBounded hFull) hGoes
      · simp only [if_neg hFull]
        exact .entered hNew (Nat.lt_of_not_le hFull)

/- A refused call changes no row, an accepted one its own. -/
theorem authenticate_logged
    {room room' : Room η}
    {pk : PublicKey} {password : Bytes} {timestamp : UInt32}
    {result : Option Nat}
    (hBounded : room.clients.length ≤ maxRoomClients)
    (hCall :
      room.authenticate pk password timestamp =
        (result, room')) :
    Logged room.clients pk (room.rightsFor password)
      timestamp result room'.clients := by
  rw [authenticate_eq] at hCall
  split at hCall
  · cases hCall
    exact rfl
  split at hCall
  · cases hCall
    rcases lockedOut_onlyFailures room pk with
      ⟨failures, hSame⟩
    rw [hSame]
    exact rfl
  rcases noted_onlyFailures room pk password with
    ⟨failures, hSame⟩
  rw [hSame] at hCall
  split at hCall
  · cases hCall
    exact rfl
  · have hBounded :
        { room with failures := failures }.clients.length ≤
          maxRoomClients :=
      hBounded
    rcases granted_letsIn hBounded pk
        (room.rightsFor password) timestamp with
      ⟨row, hRow, hLetsIn⟩
    rw [rightsFor] at hRow hLetsIn
    rw [hCall] at hRow hLetsIn
    subst hRow
    exact hLetsIn

theorem Logged.oneRowEach
    {clients clients' : List Client}
    {pk : PublicKey} {access : Access} {timestamp : UInt32}
    {result : Option Nat}
    (hLogged :
      Logged clients pk access timestamp result clients')
    (hOne : OneRowEach clients) :
    OneRowEach clients' := by
  cases result with
  | none =>
      rw [show clients' = clients from hLogged]
      exact hOne
  | some row =>
  cases hLogged with
  | known hRow hKey =>
      refine ⟨hOne.keyed.modify ?_ _, ?_⟩
      · exact fun _ => rfl
      · rw [List.length_modify]
        exact hOne.bounded
  | entered hNew hRoom =>
      refine ⟨hOne.keyed.append hNew, ?_⟩
      rw [List.length_append, List.length_singleton]
      exact hRoom
  | @replaced victim gone hNew hFull hGoes =>
      have hSub := List.eraseIdx_sublist clients victim
      refine ⟨(hOne.keyed.sublist hSub).append
        fun client hMem => hNew client (hSub.subset hMem), ?_⟩
      rcases List.getElem?_eq_some_iff.mp hGoes.here with
        ⟨hInside, -⟩
      rw [List.length_append, List.length_singleton,
        List.length_eraseIdx_of_lt hInside, ← hFull]
      omega

------------------------------------------------------------
-- Runs
------------------------------------------------------------

/- A call and its answer, or whatever lies between two. -/
inductive Visit where
| call (a : Attempt) (result : Option Nat)
| meanwhile

/- Calls come at any times; what lies between keeps the keys. -/
def Visited
    (room : Room η)
    (v : Visit)
    (room' : Room η) :
    Prop :=
  match v with
  | .call a result =>
      (room.atTime a.now).authenticate a.pk a.password
          a.timestamp =
        (result, room')
  | .meanwhile => room'.keys = room.keys

/- The step lemma. -/
theorem Visited.oneRowEach
    {room room' : Room η} {v : Visit}
    (hOne : OneRowEach room.clients)
    (hVisited : Visited room v room') :
    OneRowEach room'.clients := by
  cases v with
  | call a result =>
      have hBounded :
          (room.atTime a.now).clients.length ≤
            maxRoomClients :=
        hOne.bounded
      exact (authenticate_logged hBounded
        hVisited).oneRowEach hOne
  | meanwhile =>
      have hKeys : room'.keys = room.keys := hVisited
      refine ⟨?_, ?_⟩
      · have hKeyed : room.keys.Nodup := hOne.keyed
        rw [← hKeys] at hKeyed
        exact hKeyed
      · have hLength := congrArg List.length hKeys
        simp only [keys, List.length_map] at hLength
        rw [hLength]
        exact hOne.bounded

/-
  From an empty table on, and whatever happens in between,
  every login leaves one row for a key and no more rows than
  there may be. A refused one changes no row. One that is
  let in changes the rights and the time of its own row, or
  adds that row behind all others, where at most the one
  that must go is missing.
-/
theorem every_login_keeps_the_table
    {room room' : Room η}
    {ts : List (Transition (Room η) Visit)}
    (hEmpty : room.clients = [])
    (hRun : Run Visited room ts room') :
    OneRowEach room'.clients ∧
      ∀ t ∈ ts, ∀ a result,
        t.event = .call a result →
          Logged t.before.clients a.pk
            (t.before.rightsFor a.password) a.timestamp
            result t.after.clients := by
  have hStart : OneRowEach room.clients := by
    rw [hEmpty]
    exact ⟨List.nodup_nil, Nat.zero_le _⟩
  have hKeep :
      ∀ (s : Room η) (v : Visit) (s' : Room η),
        OneRowEach s.clients → Visited s v s' →
          OneRowEach s'.clients :=
    fun _ _ _ hOne hVisited => hVisited.oneRowEach hOne
  refine ⟨hRun.invariant hStart hKeep, ?_⟩
  intro t ht a result hCall
  have hBounded :
      (t.before.atTime a.now).clients.length ≤
        maxRoomClients :=
    (hRun.invariant_mem hStart hKeep ht).1.bounded
  have hVisited := hRun.step_of_mem ht
  rw [hCall] at hVisited
  have hLogged := authenticate_logged hBounded hVisited
  exact hLogged

------------------------------------------------------------
-- The Room At Work
------------------------------------------------------------

theorem keys_modifyClient
    (room : Room η)
    (row : Nat)
    {f : Client → Client}
    (hKey : ∀ client, (f client).pk = client.pk) :
    (room.modifyClient row f).keys = room.keys :=
  Table.map_modify hKey row

/- A login request is a call, and then moves a bookmark. -/
theorem login_visited
    (room : Room η)
    (pk : PublicKey)
    (plain : Bytes) :
    ∃ ts, Run Visited room ts (room.login pk plain).2 := by
  unfold login
  split
  · exact ⟨[], .start⟩
  simp only
  generalize hPassword :
    trimmed
        ((plain.drop loginRequestPrefixSize).take
          maxPassword) =
      password
  generalize readUint32 plain 0 = timestamp
  have hCall :
      Visited room
        (.call ⟨room.now, pk, password, timestamp⟩
          (room.authenticate pk password timestamp).1)
        (room.authenticate pk password timestamp).2 :=
    rfl
  generalize room.authenticate pk password timestamp =
    result at hCall ⊢
  rcases result with ⟨none | row, left⟩
  · exact ⟨_, .single hCall⟩
  · have hMark :
        Visited left .meanwhile
          (left.modifyClient row fun client =>
            { client with
              syncSeq :=
                left.seqFromTimestamp
                  (readUint32 plain 4) }) :=
      keys_modifyClient left row fun _ => rfl
    exact ⟨_, .step (.single hCall) hMark⟩

/- Whatever a room does, its clients are visited so. -/
theorem step_visited
    [CryptoCore]
    {room room' : Room η}
    {e : Event η} {calls : Calls}
    (hStep : Step room (e, calls) room') :
    ∃ ts, Run Visited room ts room' := by
  rcases (step_changes hStep).2.keys with
    hKeys | ⟨pk, plain, rfl, -, -⟩
  · have hMeanwhile : Visited room .meanwhile room' := hKeys
    exact ⟨_, .single hMeanwhile⟩
  · have hAnon :
        (room.onAnon pk plain).Ensures (fun _ => True)
          fun left => left = (room.login pk plain).2 := by
      unfold onAnon
      split
      next left hRefused =>
        rw [hRefused]
        exact rfl
      next row left hTaken =>
        rw [hTaken]
        refine Program.ensures_bind.mpr ?_
        exact (Program.ensures_trivial _).mono
          (fun _ h => h) fun _ _ => rfl
    rw [(hAnon.exec hStep).2]
    exact room.login_visited pk plain

theorem run_visited
    [CryptoCore]
    {room room' : Room η} {ts : List (Turn η)}
    (hRun : Run Step room ts room') :
    ∃ us, Run Visited room us room' := by
  induction hRun with
  | start => exact ⟨[], .start⟩
  | step _ hStep ih =>
      rcases ih with ⟨us, hUs⟩
      rcases step_visited hStep with ⟨vs, hVs⟩
      exact ⟨us ++ vs, hUs.trans hVs⟩

section Example

open Sample

/- The admin logged in longest ago, and stays. -/
example :
    (evictClient
      { quietRoom with
        clients :=
          [newClient (key 1) .admin 1,
            newClient (key 2) .guest 9,
            newClient (key 3) .guest 4,
            newClient (key 4) .readOnly 4] }).keys =
      [key 1, key 2, key 4] := by
  decide

def sharedRoom : Room Unit :=
  .create
    { adminPassword := ascii "a"
      guestPassword := ascii "g" } ()

/- The room when a call was answered. -/
def enter (room : Room Unit) (a : Attempt) : Room Unit :=
  ((room.atTime a.now).authenticate a.pk a.password
    a.timestamp).2

theorem enter_visited (room : Room Unit) (a : Attempt) :
    Visited room
      (.call a
        ((room.atTime a.now).authenticate a.pk a.password
          a.timestamp).1)
      (enter room a) :=
  rfl

def adminAttempt : Attempt := ⟨0, key 1, ascii "a", 5⟩

def guestAttempt : Attempt := ⟨0, key 2, ascii "g", 3⟩

/- The room with both of them in it. -/
def takenRoom : Room Unit :=
  enter (enter sharedRoom adminAttempt) guestAttempt

theorem a_replayed_login_changes_no_row :
    OneRowEach (enter takenRoom adminAttempt).clients ∧
      (enter takenRoom adminAttempt).clients =
        takenRoom.clients := by
  have hRefused := enter_visited takenRoom adminAttempt
  have hNone :
      ((takenRoom.atTime adminAttempt.now).authenticate
          adminAttempt.pk adminAttempt.password
          adminAttempt.timestamp).1 =
        none := by
    decide +kernel
  rw [hNone] at hRefused
  have hKept :=
    every_login_keeps_the_table rfl
      (((Run.single
        (enter_visited sharedRoom adminAttempt)).step
          (enter_visited _ guestAttempt)).step hRefused)
  exact ⟨hKept.1,
    hKept.2 _ (List.mem_append_right _ List.mem_cons_self)
      adminAttempt none rfl⟩

end Example

end Room

end MeshCore
