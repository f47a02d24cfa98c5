import MeshCore.Room.Restart

/-
  Replayed logins and commands, over runs with restarts.

  To one key a room is two guards, one for its logins and
  one for its commands. An eviction makes both forget; a
  restart makes the one for the commands forget.

  Key definitions include:
    * `Room.KeyChange`
    * `Room.logins`, `Room.commands`
    * `Room.Evicted`, `Room.HeedsReboots`

  Key facts include:
    * `Room.StandingChange.key`
    * `Room.loginGuard`, `Room.commandGuard`
    * `Room.accepted_logins_increase`
    * `Room.commands_in_order_iff`
-/

namespace MeshCore

namespace Room

variable {η : Type}

------------------------------------------------------------
-- One Key
------------------------------------------------------------

def Life.reboots : Life η → Bool
| .event _ _ => false
| .reboot _ _ => true

/-
  What a step does to the standing of one key: where it
  began, the login and the command that the key has made,
  whether the room was restarted, and where it ended.
-/
inductive KeyChange :
    Option Standing →
    Option UInt32 →
    Option UInt32 →
    Bool →
    Option Standing → Prop where
| gone
    (before : Option Standing)
    (reboots : Bool) :
    KeyChange before none none reboots none
| kept
    {old new : Standing}
    (hLogin : new.lastLogin = old.lastLogin)
    (hCommand : new.lastCommand = old.lastCommand) :
    KeyChange (some old) none none false (some new)
| commanded
    {old new : Standing} {timestamp : UInt32}
    (hNext : old.lastCommand ≤ timestamp)
    (hLogin : new.lastLogin = old.lastLogin)
    (hCommand : new.lastCommand = timestamp) :
    KeyChange (some old) none (some timestamp) false
      (some new)
| returned
    {old new : Standing} {timestamp : UInt32}
    (hNext : old.lastLogin < timestamp)
    (hLogin : new.lastLogin = timestamp)
    (hCommand : new.lastCommand = old.lastCommand) :
    KeyChange (some old) (some timestamp) none false
      (some new)
| entered
    {new : Standing} {timestamp : UInt32}
    (hLogin : new.lastLogin = timestamp)
    (hCommand : new.lastCommand = 0) :
    KeyChange none (some timestamp) none false (some new)
| restarted
    {old new : Standing}
    (hLogin : new.lastLogin = old.lastLogin)
    (hCommand : new.lastCommand = 0) :
    KeyChange (some old) none none true (some new)

/- A standing that nothing has changed. -/
theorem KeyChange.of_eq
    {before after : Option Standing}
    (hSame : after = before) :
    KeyChange before none none false after := by
  rw [hSame]
  cases before with
  | none => exact .gone none false
  | some old => exact .kept rfl rfl

/- A change of one row, as any key sees it. -/
theorem lookup_standings_modify
    {room room' : Room η} {pk : PublicKey} {row : Nat}
    {f : Standing → Standing}
    (hKeyed : Table.Keyed Standing.pk room.standings)
    (hKey : ∀ standing, (f standing).pk = standing.pk)
    (hRow : room.findClient pk = some row)
    (hStandings :
      room'.standings = room.standings.modify row f)
    (other : PublicKey) :
    room'.standingOf other =
      if pk = other then
        some (f (room.client row).standing)
      else room.standingOf other := by
  rcases standingOf_of_findClient hKeyed hRow with
    ⟨hAt, hIs⟩
  have hOwn : (room.client row).standing.pk = pk :=
    (Table.lookup_mem hIs).2
  have hModify :=
    Table.lookup_modify hKeyed hKey hAt other
  rw [standingOf, hStandings, hModify, hOwn]
  by_cases hSame : pk = other
  · rw [if_pos hSame, if_pos (beq_iff_eq.mpr hSame)]
  · rw [if_neg hSame,
      if_neg fun h => hSame (beq_iff_eq.mp h)]
    rfl

/- What is left of a key when some row had to go. -/
theorem lookup_standings_kept
    {rows kept : List Standing} {bound : Nat}
    (hKeyed : Table.Keyed Standing.pk rows)
    (hKept :
      (kept = rows ∧ rows.length < bound) ∨
        ∃ victim < rows.length,
          kept = rows.eraseIdx victim)
    (pk : PublicKey) :
    Table.lookup Standing.pk kept pk = none ∨
      Table.lookup Standing.pk kept pk =
        Table.lookup Standing.pk rows pk := by
  rcases hKept with ⟨rfl, -⟩ | ⟨victim, hLt, rfl⟩
  · exact .inr rfl
  · have hAt := List.getElem?_eq_getElem hLt
    by_cases hOwn : rows[victim].pk = pk
    · left
      rw [← hOwn]
      exact Table.lookup_eraseIdx_self hKeyed hAt
    · right
      exact Table.lookup_eraseIdx_of_ne hAt hOwn

theorem reboots_of_loginTime
    {room : Room η} {pk : PublicKey} {l : Life η}
    {timestamp : UInt32}
    (hLogin : room.loginTime pk l = some timestamp) :
    l.reboots = false := by
  cases l with
  | event e calls => rfl
  | reboot config host => cases hLogin

theorem reboots_of_commandTime
    {room : Room η} {pk : PublicKey} {l : Life η}
    {timestamp : UInt32}
    (hCommand : room.commandTime pk l = some timestamp) :
    l.reboots = false := by
  cases l with
  | event e calls => rfl
  | reboot config host => cases hCommand

/- What a step does, as one key sees it. -/
theorem StandingChange.key
    {room room' : Room η} {l : Life η}
    (hChange : StandingChange room room' l)
    (hKeyed : Table.Keyed Standing.pk room.standings)
    (pk : PublicKey) :
    KeyChange (room.standingOf pk) (room.loginTime pk l)
      (room.commandTime pk l) l.reboots
      (room'.standingOf pk) := by
  cases hChange with
  | same hLogin hCommand hStandings =>
      rw [hLogin, hCommand]
      apply KeyChange.of_eq
      rw [standingOf, hStandings]
      rfl
  | @commanded _ owner row timestamp hLogin hCommand hOthers
      hRow hNext hStandings =>
      have hAfter :=
        lookup_standings_modify
          (f := Standing.commanded timestamp)
          hKeyed (fun _ => rfl) hRow hStandings pk
      rw [hLogin]
      by_cases hOwn : owner = pk
      · subst hOwn
        rw [if_pos rfl] at hAfter
        rw [hCommand, reboots_of_commandTime hCommand,
          hAfter, (standingOf_of_findClient hKeyed hRow).2]
        exact .commanded hNext rfl rfl
      · rw [if_neg hOwn] at hAfter
        rw [hOthers pk (Ne.symm hOwn),
          reboots_of_commandTime hCommand]
        exact .of_eq hAfter
  | @returned _ owner row access timestamp hLogin hOthers
      hCommand hRow hNext hStandings =>
      have hAfter :=
        lookup_standings_modify
          (f := Standing.loggedIn access timestamp)
          hKeyed (fun _ => rfl) hRow hStandings pk
      rw [hCommand]
      by_cases hOwn : owner = pk
      · subst hOwn
        rw [if_pos rfl] at hAfter
        rw [hLogin, reboots_of_loginTime hLogin,
          hAfter, (standingOf_of_findClient hKeyed hRow).2]
        exact .returned hNext rfl rfl
      · rw [if_neg hOwn] at hAfter
        rw [hOthers pk (Ne.symm hOwn),
          reboots_of_loginTime hLogin]
        exact .of_eq hAfter
  | @entered _ owner kept access timestamp hLogin hOthers
      hCommand hNew hKept hStandings =>
      have hNone := standingOf_eq_none_iff.mpr hNew
      have hLeft := lookup_standings_kept hKeyed hKept pk
      rw [hCommand]
      by_cases hOwn : owner = pk
      · subst hOwn
        have hEmpty :
            Table.lookup Standing.pk kept owner = none :=
          hLeft.elim id fun h => h.trans hNone
        have hAfter :
            room'.standingOf owner =
              some
                { pk := owner
                  access := access
                  lastLogin := timestamp } := by
          rw [standingOf, hStandings]
          exact Table.lookup_append_self hEmpty
        rw [hLogin, reboots_of_loginTime hLogin, hNone,
          hAfter]
        exact .entered rfl rfl
      · have hAfter :
            room'.standingOf pk =
              Table.lookup Standing.pk kept pk := by
          rw [standingOf, hStandings]
          exact Table.lookup_append_of_ne hOwn
        rw [hOthers pk (Ne.symm hOwn),
          reboots_of_loginTime hLogin]
        rcases hLeft with hGone | hSame
        · rw [hAfter, hGone]
          exact .gone _ _
        · exact .of_eq (hAfter.trans hSame)
  | restarted hStandings =>
      have hAfter :
          room'.standingOf pk =
            (room.standingOf pk).map Standing.restored := by
        rw [standingOf, hStandings, standingOf, Table.lookup,
          Table.lookup, List.find?_map]
        rfl
      rw [hAfter]
      cases room.standingOf pk with
      | none => exact .gone none true
      | some old => exact .restarted rfl rfl

------------------------------------------------------------
-- The Two Guards
------------------------------------------------------------

abbrev Span (η : Type) :=
  Transition (Room η) (Life η)

/- A key that had a row has none after the step. -/
def Evicted (pk : PublicKey) (t : Span η) : Prop :=
  (t.before.standingOf pk).isSome ∧
    t.after.standingOf pk = none

def lastLogin (pk : PublicKey) (room : Room η) :
    Option UInt32 :=
  (room.standingOf pk).map Standing.lastLogin

def lastCommand (pk : PublicKey) (room : Room η) :
    Option UInt32 :=
  (room.standingOf pk).map Standing.lastCommand

/- A step that passes no stamp keeps a memory, or forgets. -/
def actOf
    (passes before after : Option UInt32) :
    Guard.Act UInt32 :=
  match passes with
  | some timestamp => .pass timestamp
  | none => if before = after then .idle else .forget

def loginAct (pk : PublicKey) (t : Span η) :
    Guard.Act UInt32 :=
  actOf (t.before.loginTime pk t.event)
    (lastLogin pk t.before) (lastLogin pk t.after)

def commandAct (pk : PublicKey) (t : Span η) :
    Guard.Act UInt32 :=
  actOf (t.before.commandTime pk t.event)
    (lastCommand pk t.before) (lastCommand pk t.after)

theorem step_actOf_none
    {R : UInt32 → UInt32 → Prop}
    (before after : Option UInt32) :
    Guard.Step R before (actOf none before after) after := by
  unfold actOf
  simp only
  split
  · rename_i hSame
    rw [hSame]
    exact .idle after
  · exact .forget before after

/- To a key the room is a guard of its logins. -/
theorem loginGuard
    {pk : PublicKey} {t : Span η}
    (hKey :
      KeyChange (t.before.standingOf pk)
        (t.before.loginTime pk t.event)
        (t.before.commandTime pk t.event) t.event.reboots
        (t.after.standingOf pk)) :
    Guard.Step (· < ·) (lastLogin pk t.before)
      (loginAct pk t) (lastLogin pk t.after) := by
  unfold loginAct
  cases hLogin : t.before.loginTime pk t.event with
  | none => exact step_actOf_none _ _
  | some timestamp =>
      rw [hLogin] at hKey
      unfold lastLogin
      generalize t.before.standingOf pk = before at hKey ⊢
      generalize t.after.standingOf pk = after at hKey ⊢
      generalize t.before.commandTime pk t.event = command
        at hKey
      generalize t.event.reboots = reboots at hKey
      cases hKey with
      | returned hNext hNew hCommand =>
          rw [Option.map_some, Option.map_some, hNew]
          apply Guard.Step.pass
          rintro g hIs
          cases hIs
          exact hNext
      | entered hNew hCommand =>
          rw [Option.map_none, Option.map_some, hNew]
          apply Guard.Step.pass
          exact nofun

/- And it is a guard of its commands. -/
theorem commandGuard
    {pk : PublicKey} {t : Span η}
    (hKey :
      KeyChange (t.before.standingOf pk)
        (t.before.loginTime pk t.event)
        (t.before.commandTime pk t.event) t.event.reboots
        (t.after.standingOf pk)) :
    Guard.Step (· ≤ ·) (lastCommand pk t.before)
      (commandAct pk t) (lastCommand pk t.after) := by
  unfold commandAct
  cases hCommand : t.before.commandTime pk t.event with
  | none => exact step_actOf_none _ _
  | some timestamp =>
      rw [hCommand] at hKey
      unfold lastCommand
      generalize t.before.standingOf pk = before at hKey ⊢
      generalize t.after.standingOf pk = after at hKey ⊢
      generalize t.before.loginTime pk t.event = login
        at hKey
      generalize t.event.reboots = reboots at hKey
      cases hKey with
      | commanded hNext hLogin hNew =>
          rw [Option.map_some, Option.map_some, hNew]
          apply Guard.Step.pass
          rintro g hIs
          cases hIs
          exact hNext

------------------------------------------------------------
-- What Is Forgotten
------------------------------------------------------------

def asLogins (pk : PublicKey) (t : Span η) :
    Guard.Turn UInt32 :=
  t.map (lastLogin pk) (loginAct pk)

def asCommands (pk : PublicKey) (t : Span η) :
    Guard.Turn UInt32 :=
  t.map (lastCommand pk) (commandAct pk)

/- What a step is to a key. -/
abbrev KeyStep (pk : PublicKey) (t : Span η) : Prop :=
  KeyChange (t.before.standingOf pk)
    (t.before.loginTime pk t.event)
    (t.before.commandTime pk t.event) t.event.reboots
    (t.after.standingOf pk)

/- A step that forgets passes nothing, and changes something. -/
theorem actOf_eq_forget
    {passes before after : Option UInt32}
    (hForget : actOf passes before after = .forget) :
    passes = none ∧ before ≠ after := by
  unfold actOf at hForget
  cases passes with
  | some timestamp => cases hForget
  | none =>
      simp only at hForget
      split at hForget
      · cases hForget
      · rename_i hChanged
        exact ⟨rfl, hChanged⟩

theorem losing_eq_some
    {t : Guard.Turn UInt32} {g : UInt32}
    (hLosing : Guard.losing t = some g) :
    t.event = .forget ∧ t.before = some g := by
  unfold Guard.losing at hLosing
  cases hEvent : t.event with
  | forget =>
      rw [hEvent] at hLosing
      exact ⟨rfl, hLosing⟩
  | _ =>
      rw [hEvent] at hLosing
      cases hLosing

/- Only an eviction makes a login forgotten. -/
theorem evicted_of_lost_login
    {pk : PublicKey} {t : Span η} {g : UInt32}
    (hKey : KeyStep pk t)
    (hLosing : Guard.losing (asLogins pk t) = some g) :
    Evicted pk t := by
  rcases losing_eq_some hLosing with ⟨hForget, hBefore⟩
  rcases actOf_eq_forget hForget with ⟨hNone, hChanged⟩
  unfold KeyStep at hKey
  unfold Evicted
  rw [hNone] at hKey
  unfold lastLogin at hChanged
  simp only [asLogins, Transition.map, lastLogin] at hBefore
  generalize t.before.standingOf pk = before at *
  generalize t.after.standingOf pk = after at *
  generalize t.before.commandTime pk t.event = command
    at hKey
  generalize t.event.reboots = reboots at hKey
  cases hKey with
  | gone =>
      rcases Option.map_eq_some_iff.mp hBefore with
        ⟨old, rfl, -⟩
      exact ⟨rfl, rfl⟩
  | kept hLogin hCommand =>
      exact absurd (congrArg some hLogin.symm) hChanged
  | commanded hNext hLogin hCommand =>
      exact absurd (congrArg some hLogin.symm) hChanged
  | restarted hLogin hCommand =>
      exact absurd (congrArg some hLogin.symm) hChanged

/- A command is forgotten by an eviction or a restart. -/
theorem reboots_of_lost_command
    {pk : PublicKey} {t : Span η} {g : UInt32}
    (hKey : KeyStep pk t)
    (hLosing : Guard.losing (asCommands pk t) = some g) :
    lastCommand pk t.before = some g ∧
      (Evicted pk t ∨ t.event.reboots = true) := by
  rcases losing_eq_some hLosing with ⟨hForget, hBefore⟩
  rcases actOf_eq_forget hForget with ⟨hNone, hChanged⟩
  refine ⟨hBefore, ?_⟩
  unfold KeyStep at hKey
  unfold Evicted
  rw [hNone] at hKey
  unfold lastCommand at hChanged
  simp only [asCommands, Transition.map, lastCommand]
    at hBefore
  generalize t.before.standingOf pk = before at *
  generalize t.after.standingOf pk = after at *
  generalize t.before.loginTime pk t.event = login at hKey
  generalize t.event.reboots = reboots at hKey ⊢
  cases hKey with
  | gone =>
      rcases Option.map_eq_some_iff.mp hBefore with
        ⟨old, rfl, -⟩
      exact .inl ⟨rfl, rfl⟩
  | kept hLogin hCommand =>
      exact absurd (congrArg some hCommand.symm) hChanged
  | returned hNext hLogin hCommand =>
      exact absurd (congrArg some hCommand.symm) hChanged
  | entered hLogin hCommand => cases hBefore
  | restarted hLogin hCommand => exact .inr rfl

/- The memory of the commands begins at zero, ever again. -/
theorem zero_of_forget
    {pk : PublicKey} {t : Span η} {g : UInt32}
    (hKey : KeyStep pk t)
    (hForget : commandAct pk t = .forget)
    (hAfter : lastCommand pk t.after = some g) :
    g = 0 := by
  rcases actOf_eq_forget hForget with ⟨hNone, hChanged⟩
  unfold KeyStep at hKey
  rw [hNone] at hKey
  unfold lastCommand at hChanged hAfter
  generalize t.before.standingOf pk = before at *
  generalize t.after.standingOf pk = after at *
  generalize t.before.loginTime pk t.event = login at hKey
  generalize t.event.reboots = reboots at hKey
  cases hKey with
  | gone => cases hAfter
  | kept hLogin hCommand =>
      exact absurd (congrArg some hCommand.symm) hChanged
  | returned hNext hLogin hCommand =>
      exact absurd (congrArg some hCommand.symm) hChanged
  | entered hLogin hCommand =>
      rw [← Option.some.inj hAfter]
      exact hCommand
  | restarted hLogin hCommand =>
      rw [← Option.some.inj hAfter]
      exact hCommand

/- What a restart forgets, unless there was nothing. -/
theorem lost_of_reboot
    {pk : PublicKey} {t : Span η} {g : UInt32}
    (hKey : KeyStep pk t)
    (hStays : ¬ Evicted pk t)
    (hReboots : t.event.reboots = true)
    (hBefore : lastCommand pk t.before = some g) :
    g = 0 ∨ Guard.losing (asCommands pk t) = some g := by
  by_cases hZero : g = 0
  · exact .inl hZero
  right
  unfold KeyStep at hKey
  unfold Evicted at hStays
  have hForget : commandAct pk t = .forget := by
    unfold commandAct
    rw [hReboots] at hKey
    unfold lastCommand at hBefore ⊢
    generalize t.before.standingOf pk = before at *
    generalize t.after.standingOf pk = after at *
    generalize t.before.loginTime pk t.event = login at hKey
    generalize t.before.commandTime pk t.event = command
      at hKey ⊢
    cases hKey with
    | gone =>
        rcases Option.map_eq_some_iff.mp hBefore with
          ⟨old, rfl, -⟩
        exact absurd ⟨rfl, rfl⟩ hStays
    | restarted hLogin hCommand =>
        unfold actOf
        simp only
        rw [hBefore, Option.map_some, hCommand]
        exact if_neg fun h => hZero (Option.some.inj h)
  unfold Guard.losing
  simp only [asCommands, Transition.map, hForget]
  exact hBefore

------------------------------------------------------------
-- Runs
------------------------------------------------------------

/- The stamps of the logins of a key that were accepted. -/
def logins
    (pk : PublicKey)
    (ts : List (Span η)) :
    List UInt32 :=
  ts.filterMap fun t => t.before.loginTime pk t.event

/- The stamps of the commands executed for a key. -/
def commands
    (pk : PublicKey)
    (ts : List (Span η)) :
    List UInt32 :=
  ts.filterMap fun t => t.before.commandTime pk t.event

/-
  No command that is executed after a restart is older than
  what the room held of the key when it was flushed.
-/
def HeedsReboots
    (pk : PublicKey)
    (ts : List (Span η)) :
    Prop :=
  ∀ pre t post,
    ts = pre ++ t :: post →
    ∀ timestamp,
      t.before.commandTime pk t.event = some timestamp →
      ∀ r ∈ pre,
        r.event.reboots = true →
        ∀ g, lastCommand pk r.before = some g →
          g ≤ timestamp

theorem passing_actOf
    {passes before after : Option UInt32} :
    Guard.passing
        ⟨before, actOf passes before after, after⟩ =
      passes := by
  unfold Guard.passing actOf
  cases passes with
  | some timestamp => rfl
  | none =>
      simp only
      by_cases hSame : before = after
      · rw [if_pos hSame]
      · rw [if_neg hSame]

theorem passed_asLogins
    (pk : PublicKey)
    (ts : List (Span η)) :
    Guard.passed (ts.map (asLogins pk)) = logins pk ts := by
  unfold Guard.passed logins
  rw [List.filterMap_map]
  exact List.filterMap_congr fun t _ => passing_actOf

theorem passed_asCommands
    (pk : PublicKey)
    (ts : List (Span η)) :
    Guard.passed (ts.map (asCommands pk)) =
      commands pk ts := by
  unfold Guard.passed commands
  rw [List.filterMap_map]
  exact List.filterMap_congr fun t _ => passing_actOf

section Lives

variable [CryptoCore]

/- Every step of a run is a step of each key. -/
theorem run_keyStep
    {room₀ room : Room η} {ts : List (Span η)}
    (hRun : Run Lives room₀ ts room)
    (hStocked : room₀.Stocked)
    (pk : PublicKey) :
    ∀ t ∈ ts, KeyStep pk t := by
  intro t ht
  have hBefore :=
    (hRun.invariant_mem hStocked
      (fun _ _ _ hKept hStep => lives_stocked hKept hStep)
      ht).1
  have hChange := lives_change hBefore (hRun.step_of_mem ht)
  exact hChange.key hBefore.keyed pk

/-
  Over any stretch of a run in which the row of a key is not
  evicted, restarts or not, every login of the key that is
  accepted is younger than all that were accepted before.
-/
theorem accepted_logins_increase
    {config : RoomConfig η} {host : η} {room : Room η}
    {pre ts : List (Span η)} {pk : PublicKey}
    (hRun : Run Lives (create config host) (pre ++ ts) room)
    (hStays : ∀ t ∈ ts, ¬ Evicted pk t) :
    (logins pk ts).Pairwise (· < ·) := by
  have hKeys := run_keyStep hRun (stocked_create _ _) pk
  rcases hRun.split with ⟨m, -, hLater⟩
  have hGuard :
      Run (Guard.Step (· < ·)) (lastLogin pk m)
        (ts.map (asLogins pk)) (lastLogin pk room) :=
    hLater.map fun t ht =>
      loginGuard (hKeys t (by simp [ht]))
  have hTrans : ∀ a b c : UInt32, a < b → b < c → a < c :=
    fun _ _ _ => UInt32.lt_trans
  rw [← passed_asLogins]
  apply Guard.pairwise_of_heeded hTrans hGuard
  intro earlier t later hSplit a hPass g hLost
  rcases List.mem_filterMap.mp hLost with
    ⟨lost, hMem, hLosing⟩
  have hThere : lost ∈ ts.map (asLogins pk) := by
    rw [hSplit]
    simp [hMem]
  rcases List.mem_map.mp hThere with ⟨u, hu, rfl⟩
  have hEvicted :=
    evicted_of_lost_login (hKeys u (by simp [hu])) hLosing
  exact absurd hEvicted (hStays u hu)

/-
  The commands executed for a key that stays are in order if
  and only if those after a restart heed what the restart
  has forgotten: nothing else can put them out of order.
-/
theorem commands_in_order_iff
    {config : RoomConfig η} {host : η} {room : Room η}
    {ts : List (Span η)} {pk : PublicKey}
    (hRun : Run Lives (create config host) ts room)
    (hStays : ∀ t ∈ ts, ¬ Evicted pk t) :
    (commands pk ts).Pairwise (· ≤ ·) ↔
      HeedsReboots pk ts := by
  have hKeys := run_keyStep hRun (stocked_create _ _) pk
  have hGuard :
      Run (Guard.Step (· ≤ ·)) none
        (ts.map (asCommands pk)) (lastCommand pk room) :=
    hRun.map fun t ht => commandGuard (hKeys t ht)
  rw [← passed_asCommands]
  constructor
  · intro hPairwise
    have hBot : ∀ a : UInt32, 0 ≤ a :=
      fun _ => UInt32.zero_le
    have hHeeded :=
      Guard.heeded_of_pairwise hBot hGuard nofun ?_ hPairwise
    · rintro pre t post rfl timestamp hCommand r hr
        hReboots g hBefore
      have hKey := hKeys r (by simp [hr])
      have hThere := hStays r (by simp [hr])
      rcases lost_of_reboot hKey hThere hReboots hBefore with
        rfl | hLosing
      · exact UInt32.zero_le
      · apply hHeeded (pre.map (asCommands pk))
          (asCommands pk t) (post.map (asCommands pk))
        · simp
        · exact passing_actOf.trans hCommand
        · exact List.mem_filterMap.mpr
            ⟨_, List.mem_map_of_mem hr, hLosing⟩
    · intro u hu hForget g hAfter
      rcases List.mem_map.mp hu with ⟨t, ht, rfl⟩
      exact zero_of_forget (hKeys t ht) hForget hAfter
  · intro hHeeds
    have hTrans :
        ∀ a b c : UInt32, a ≤ b → b ≤ c → a ≤ c :=
      fun _ _ _ => UInt32.le_trans
    apply Guard.pairwise_of_heeded hTrans hGuard
    intro earlier t later hSplit a hPass g hLost
    rcases List.map_eq_append_iff.mp hSplit with
      ⟨pre, rest, rfl, rfl, hRest⟩
    rcases List.map_eq_cons_iff.mp hRest with
      ⟨u, post, rfl, rfl, rfl⟩
    rcases List.mem_filterMap.mp hLost with
      ⟨lost, hMem, hLosing⟩
    rcases List.mem_map.mp hMem with ⟨r, hr, rfl⟩
    have hKey := hKeys r (by simp [hr])
    rcases reboots_of_lost_command hKey hLosing with
      ⟨hBefore, hEvicted | hReboots⟩
    · exact absurd hEvicted (hStays r (by simp [hr]))
    · exact hHeeds pre u post rfl a
        (passing_actOf.symm.trans hPass) r hr hReboots g
        hBefore

end Lives

section Example

open Sample

instance (pk : PublicKey) (t : Span η) :
    Decidable (Evicted pk t) :=
  inferInstanceAs (Decidable (_ ∧ _))

/- Sixty-four others log in, and then the first key again. -/
def crowdedLife : List (Span Unit) :=
  lifetime numbering (quietRoom, 1)
    ((some (loginOf 1 1 0) ::
        (List.range 64).map fun n =>
          some (loginOf (UInt8.ofNat (n + 2)) 2 0)) ++
      [some (loginOf 1 1 0)])

/- A login that was captured is accepted a second time. -/
theorem evicted_login_comes_back :
    (∃ room, Run Lives quietRoom crowdedLife room) ∧
      logins (key 1) crowdedLife = [1, 1] := by
  refine ⟨run_lifetime numbering (quietRoom, 1) _, ?_⟩
  decide +kernel

/- A key logs in twice, with a restart between. -/
def quietLife : List (Span Unit) :=
  lifetime numbering (quietRoom, 1)
    [some (loginOf 1 1 0), some (loginOf 2 1 0), none,
      some (loginOf 1 1 0), some (loginOf 1 5 0)]

theorem quiet_logins_increase :
    (logins (key 1) quietLife).Pairwise (· < ·) := by
  rcases run_lifetime numbering (quietRoom, 1) _ with
    ⟨room, hRun⟩
  have hWhole :
      Run Lives
        (create { guestPassword := ascii "g" } ())
        ([] ++ quietLife) room :=
    hRun
  exact accepted_logins_increase hWhole (by decide +kernel)

/- A room with an admin password. -/
def drivenRoom : Room Unit :=
  .create { adminPassword := ascii "a" } ()

def adminLogin : Event Unit :=
  .anon (key 1)
    (writeUint32 1 ++ writeUint32 0 ++ ascii "a")

def commandAt (timestamp : UInt32) : Event Unit :=
  .payload (.bare (key 1)) .txtMsg
    (writeUint32 timestamp ++
      (TextType.cli.value <<< 2) :: ascii "reboot")

/- Two commands, a restart, and the first command again. -/
def drivenLife : List (Span Unit) :=
  lifetime numbering (drivenRoom, 1)
    [some adminLogin, some (commandAt 50),
      some (commandAt 100), none, some (commandAt 50)]

/- The captured command is executed after the restart. -/
theorem captured_command_comes_back :
    (∃ room, Run Lives drivenRoom drivenLife room) ∧
      (∀ t ∈ drivenLife, ¬ Evicted (key 1) t) ∧
      commands (key 1) drivenLife = [50, 100, 50] := by
  refine ⟨run_lifetime numbering (drivenRoom, 1) _, ?_⟩
  decide +kernel

/- The same, but with a command that is new. -/
def patientLife : List (Span Unit) :=
  lifetime numbering (drivenRoom, 1)
    [some adminLogin, some (commandAt 50),
      some (commandAt 100), none, some (commandAt 101)]

theorem patient_commands_in_order_iff :
    (commands (key 1) patientLife).Pairwise (· ≤ ·) ↔
      HeedsReboots (key 1) patientLife := by
  rcases run_lifetime numbering (drivenRoom, 1) _ with
    ⟨room, hRun⟩
  have hWhole :
      Run Lives
        (create { adminPassword := ascii "a" } ())
        patientLife room :=
    hRun
  exact commands_in_order_iff hWhole (by decide +kernel)

end Example

end Room

end MeshCore
