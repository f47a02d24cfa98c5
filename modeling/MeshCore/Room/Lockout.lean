import MeshCore.Library.Run
import MeshCore.Library.Table
import MeshCore.Room.Rights

/-
  How long a key that guesses passwords is made to wait.

  The failures of all keys share one bounded table, so what
  is known of a key depends on the others: its entry may
  have to go when another key fails.

  Key definitions include:
    * `Room.Attempt`, `Room.Attempted`
    * `Room.strikes`, `Room.lapsed`, `Room.evicts`
    * `Room.strikesOf`, `Room.KeptWaiting`

  Key facts include:
    * `Room.attempt_other`
    * `Room.attempt_own`
    * `Room.lockout_holds`
-/

namespace MeshCore

namespace Room

variable {η : Type}

------------------------------------------------------------
-- Attempts
------------------------------------------------------------

/- A call of `authenticate`, and when it is made. -/
structure Attempt where
  now : Millis
  pk : PublicKey
  password : Bytes
  timestamp : UInt32

/- The room at the time of a call. -/
def atTime (room : Room η) (now : Millis) : Room η :=
  { room with now := now }

/- Time goes on, and a call is made and answered. -/
def Attempted
    (room : Room η)
    (e : Attempt × Option Nat)
    (room' : Room η) :
    Prop :=
  room.now ≤ e.1.now ∧
    (room.atTime e.1.now).authenticate e.1.pk
        e.1.password e.1.timestamp =
      (e.2, room')

abbrev Try (η : Type) :=
  Transition (Room η) (Attempt × Option Nat)

/- What is known of a key that failed. -/
def failureOf
    (room : Room η)
    (pk : PublicKey) :
    Option Failure :=
  Table.lookup Failure.pk room.failures pk

/-
  A wrong password that is looked at: the call is no replay,
  and its key is not made to wait.
-/
def strikes (room : Room η) (a : Attempt) : Bool :=
  ¬ room.replays a.pk a.timestamp ∧
    ¬ ((room.atTime a.now).lockedOut a.pk).1 ∧
    a.password ≠ [] ∧
    room.accessFor a.password = .none

/- The key had been locked, and has waited long enough. -/
def lapsed
    (room : Room η)
    (pk : PublicKey)
    (now : Millis) :
    Bool :=
  (room.failureOf pk).any fun failure =>
    failure.lockedUntil ≠ 0 ∧ failure.lockedUntil ≤ now

/- The entry that goes for a key without one. -/
def victimFor
    (room : Room η)
    (pk : PublicKey) :
    Option Failure :=
  if (room.failureOf pk).isNone ∧
      maxLoginFailures ≤ room.failures.length then
    room.failures[firstToExpire room.failures]?
  else none

/- The entry that has to go for a call to be noted. -/
def evicts (room : Room η) (a : Attempt) : Option Failure :=
  if room.strikes a then
    ((room.atTime a.now).lockedOut a.pk).2.victimFor a.pk
  else none

/- A call does not cost this key its entry. -/
def Spares (pk : PublicKey) (t : Try η) : Prop :=
  ∀ failure,
    t.before.evicts t.event.1 = some failure →
      failure.pk ≠ pk

/- A key gets in as a guest or as an admin. -/
def LetIn (pk : PublicKey) (t : Try η) : Prop :=
  t.event.1.pk = pk ∧
    t.event.2.isSome ∧
    t.before.accessFor t.event.1.password ≠ .none

/- A key finds that it has waited long enough. -/
def Served (pk : PublicKey) (t : Try η) : Prop :=
  t.event.1.pk = pk ∧ t.before.lapsed pk t.event.1.now

def Strikes (pk : PublicKey) (t : Try η) : Bool :=
  t.event.1.pk = pk ∧ t.before.strikes t.event.1

def strikesOf (pk : PublicKey) (ts : List (Try η)) : Nat :=
  ts.countP (Strikes pk)

/- A call is refused, and no row of the table changes. -/
def KeptWaiting (t : Try η) : Prop :=
  t.event.2 = none ∧ t.after.clients = t.before.clients

------------------------------------------------------------
-- What Is Known Of A Key
------------------------------------------------------------

theorem enterClient_failures
    (room : Room η)
    (pk : PublicKey) :
    (room.enterClient pk).2.failures = room.failures := by
  rcases enterClient_cases room pk with
    ⟨row, -, hEnter⟩ | ⟨-, kept, -, hEnter⟩
  · rw [hEnter]
  · rw [hEnter]

/- The failures that a login leaves. -/
theorem authenticate_failures
    (room : Room η)
    (pk : PublicKey)
    (password : Bytes)
    (timestamp : UInt32) :
    (room.authenticate pk password timestamp).2.failures =
      if room.replays pk timestamp then room.failures
      else if (room.lockedOut pk).1 then
        (room.lockedOut pk).2.failures
      else (room.noted pk password).failures := by
  rw [authenticate_eq]
  split
  · rfl
  · split
    · rfl
    · split
      · rfl
      · exact enterClient_failures _ pk

/- A lockout that has run out goes, and no other entry. -/
theorem lockedOut_other
    {room : Room η} {pk other : PublicKey}
    (hOther : other ≠ pk) :
    (room.lockedOut other).2.failureOf pk =
      room.failureOf pk := by
  unfold lockedOut
  split
  · rfl
  · split
    · exact Table.lookup_eraseP_of_ne hOther
    · rfl

theorem clearFailures_other
    {room : Room η} {pk other : PublicKey}
    (hOther : other ≠ pk) :
    (room.clearFailures other).failureOf pk =
      room.failureOf pk :=
  Table.lookup_eraseP_of_ne hOther

theorem failureOf_eq_none_iff
    {room : Room η} {pk : PublicKey} :
    room.failureOf pk = none ↔
      room.failures.findIdx? (·.pk == pk) = none := by
  unfold failureOf
  rw [Table.lookup_eq_none_iff, List.findIdx?_eq_none_iff]
  simp

theorem Failure.again_pk
    (room : Room η)
    (failure : Failure) :
    (Failure.again room failure).pk = failure.pk :=
  rfl

/- The failure of one key is noted on its own entry. -/
theorem noteFailure_failureOf
    {room : Room η} {pk other : PublicKey}
    (hSpared :
      ∀ failure,
        room.victimFor other = some failure →
          failure.pk ≠ pk) :
    (room.noteFailure other).failureOf pk =
      if other = pk then
        some (Failure.again room
          ((room.failureOf pk).getD { pk := pk }))
      else room.failureOf pk := by
  have hAgain := Failure.again_pk room
  unfold noteFailure
  cases hRow :
      room.failures.findIdx? (·.pk == other) with
  | some row =>
      simp only
      by_cases hSame : other = pk
      · subst hSame
        rw [if_pos rfl]
        have hFirst :=
          Table.lookup_modify_first hAgain hRow
        have hSome :
            room.failureOf other ≠ none := by
          rw [Ne, failureOf_eq_none_iff, hRow]
          exact nofun
        rcases Option.ne_none_iff_exists'.mp hSome with
          ⟨failure, hFailure⟩
        rw [hFailure]
        unfold failureOf at hFailure ⊢
        simp only
        rw [hFirst, hFailure]
        rfl
      · rw [if_neg hSame]
        rcases Table.getElem?_of_findIdx? hRow with
          ⟨failure, hAt, hKey⟩
        have hKey : failure.pk = other := eq_of_beq hKey
        exact Table.lookup_modify_of_ne hAgain hAt
          (hKey ▸ hSame)
  | none =>
      have hUnknown := failureOf_eq_none_iff.mpr hRow
      simp only
      generalize hKept :
        (if maxLoginFailures ≤ room.failures.length then
          room.failures.eraseIdx
            (firstToExpire room.failures)
        else room.failures) = kept
      have hSparedKept :
          Table.lookup Failure.pk kept pk =
            room.failureOf pk := by
        rw [← hKept]
        split
        · rename_i hFull
          cases hVictim :
              room.failures[firstToExpire
                room.failures]? with
          | none =>
              rw [List.getElem?_eq_none_iff] at hVictim
              rw [List.eraseIdx_of_length_le hVictim]
              rfl
          | some victim =>
              have hGoes :
                  room.victimFor other = some victim := by
                unfold victimFor
                rw [if_pos ⟨by rw [hUnknown]; rfl, hFull⟩]
                exact hVictim
              exact Table.lookup_eraseIdx_of_ne hVictim
                (hSpared victim hGoes)
        · rfl
      by_cases hSame : other = pk
      · subst hSame
        rw [if_pos rfl, hUnknown]
        rw [hUnknown] at hSparedKept
        exact Table.lookup_append_self hSparedKept
      · rw [if_neg hSame]
        have hAppend :
            Table.lookup Failure.pk
                (kept ++ [Failure.again room { pk := other }])
                pk =
              Table.lookup Failure.pk kept pk :=
          Table.lookup_append_of_ne hSame
        exact hAppend.trans hSparedKept

------------------------------------------------------------
-- One Attempt
------------------------------------------------------------

/- A lockout that has not run out is the whole answer. -/
theorem lockedOut_of_not_lapsed
    {room : Room η} {pk : PublicKey}
    (hLapsed : room.lapsed pk room.now = false) :
    room.lockedOut pk =
      ((room.failureOf pk).any fun failure =>
        room.now < failure.lockedUntil, room) := by
  have hFind :
      room.failures.find? (·.pk == pk) =
        room.failureOf pk :=
    rfl
  unfold lapsed at hLapsed
  unfold lockedOut
  rw [hFind]
  cases hFailure : room.failureOf pk with
  | none => rfl
  | some failure =>
      simp only [hFailure, Option.any_some,
        decide_eq_false_iff_not] at hLapsed
      simp only [if_neg hLapsed, Option.any_some]

theorem strikes_iff {room : Room η} {a : Attempt} :
    room.strikes a = true ↔
      room.replays a.pk a.timestamp = false ∧
        ((room.atTime a.now).lockedOut a.pk).1 = false ∧
        a.password ≠ [] ∧
        room.accessFor a.password = .none := by
  simp [strikes]

/- What another key does is no matter to this one. -/
theorem attempt_other
    {room room' : Room η} {a : Attempt}
    {answer : Option Nat} {pk : PublicKey}
    (hStep : Attempted room (a, answer) room')
    (hOther : a.pk ≠ pk)
    (hSpared :
      ∀ failure,
        room.evicts a = some failure → failure.pk ≠ pk) :
    room'.failureOf pk = room.failureOf pk := by
  have hLeft :=
    authenticate_failures (room.atTime a.now) a.pk
      a.password a.timestamp
  have hChecked :
      ((room.atTime a.now).lockedOut a.pk).2.failureOf pk =
        (room.atTime a.now).failureOf pk :=
    lockedOut_other hOther
  have hSame :
      (room.atTime a.now).failureOf pk =
        room.failureOf pk :=
    rfl
  rw [hStep.2] at hLeft
  unfold failureOf at hChecked hSame ⊢
  rw [hLeft]
  by_cases hReplay :
      (room.atTime a.now).replays a.pk a.timestamp = true
  · rw [if_pos hReplay]
    exact hSame
  rw [if_neg hReplay]
  by_cases hLocked :
      ((room.atTime a.now).lockedOut a.pk).1 = true
  · rw [if_pos hLocked]
    exact hChecked
  rw [if_neg hLocked]
  unfold noted
  simp only
  by_cases hWrong :
      (room.atTime a.now).accessFor a.password = .none
  · rw [if_pos hWrong]
    by_cases hEmpty : a.password = []
    · rw [if_neg (not_not.mpr hEmpty)]
      exact hChecked
    · rw [if_pos hEmpty]
      have hStrikes : room.strikes a = true := by
        rw [strikes_iff]
        exact ⟨Bool.eq_false_of_not_eq_true hReplay,
          Bool.eq_false_of_not_eq_true hLocked,
          hEmpty, hWrong⟩
      unfold evicts at hSpared
      rw [if_pos hStrikes] at hSpared
      have hNoted := noteFailure_failureOf hSpared
      rw [if_neg hOther] at hNoted
      exact hNoted.trans hChecked
  · rw [if_neg hWrong]
    exact (clearFailures_other hOther).trans hChecked

/- A right password that is looked at lets its key in. -/
theorem letIn_of_checked
    {room room' : Room η} {a : Attempt}
    {answer : Option Nat}
    (hStep : Attempted room (a, answer) room')
    (hReplay : room.replays a.pk a.timestamp = false)
    (hLocked :
      ((room.atTime a.now).lockedOut a.pk).1 = false)
    (hRight : room.accessFor a.password ≠ .none) :
    answer.isSome = true := by
  have hAnswer := hStep.2
  have hReplay :
      (room.atTime a.now).replays a.pk a.timestamp =
        false :=
    hReplay
  have hRight :
      (room.atTime a.now).accessFor a.password ≠ .none :=
    hRight
  simp only [authenticate_eq, hReplay, hLocked, hRight,
    Bool.false_eq_true, if_false, false_and] at hAnswer
  rw [← (Prod.mk.inj hAnswer).1]
  rfl

/-
  What a key does itself: a strike is noted on its entry,
  and the rest leaves the entry, unless the key is let in or
  has waited long enough.
-/
theorem attempt_own
    {room room' : Room η} {a : Attempt}
    {answer : Option Nat}
    (hStep : Attempted room (a, answer) room')
    (hSpared :
      ∀ failure,
        room.evicts a = some failure → failure.pk ≠ a.pk)
    (hServed : room.lapsed a.pk a.now = false)
    (hRefused :
      ¬ (answer.isSome ∧
        room.accessFor a.password ≠ .none)) :
    room'.failureOf a.pk =
      if room.strikes a then
        some (Failure.again (room.atTime a.now)
          ((room.failureOf a.pk).getD { pk := a.pk }))
      else room.failureOf a.pk := by
  have hLeft :=
    authenticate_failures (room.atTime a.now) a.pk
      a.password a.timestamp
  have hSame :
      ((room.atTime a.now).lockedOut a.pk).2 =
        room.atTime a.now := by
    rw [lockedOut_of_not_lapsed hServed]
  rw [hStep.2] at hLeft
  by_cases hReplay : room.replays a.pk a.timestamp = true
  · have hNo : ¬ room.strikes a = true := by
      rw [strikes_iff, hReplay]
      exact fun hBoth => nomatch hBoth.1
    rw [if_neg hNo]
    have hReplay :
        (room.atTime a.now).replays a.pk a.timestamp =
          true :=
      hReplay
    rw [if_pos hReplay] at hLeft
    rw [failureOf, hLeft]
    rfl
  have hFresh :
      ¬ (room.atTime a.now).replays a.pk a.timestamp =
        true :=
    hReplay
  rw [if_neg hFresh] at hLeft
  by_cases hLocked :
      ((room.atTime a.now).lockedOut a.pk).1 = true
  · have hNo : ¬ room.strikes a = true := by
      rw [strikes_iff, hLocked]
      exact fun hBoth => nomatch hBoth.2.1
    rw [if_neg hNo]
    rw [if_pos hLocked, hSame] at hLeft
    rw [failureOf, hLeft]
    rfl
  rw [if_neg hLocked] at hLeft
  have hFalse := Bool.eq_false_of_not_eq_true hReplay
  have hOpen := Bool.eq_false_of_not_eq_true hLocked
  by_cases hWrong : room.accessFor a.password = .none
  · have hWrong' :
        (room.atTime a.now).accessFor a.password = .none :=
      hWrong
    simp only [noted, if_pos hWrong', hSame] at hLeft
    by_cases hEmpty : a.password = []
    · have hNo : ¬ room.strikes a = true := by
        rw [strikes_iff]
        exact fun hAll => hAll.2.2.1 hEmpty
      rw [if_neg hNo]
      rw [if_neg (not_not.mpr hEmpty)] at hLeft
      rw [failureOf, hLeft]
      rfl
    · have hStrikes : room.strikes a = true :=
        strikes_iff.mpr ⟨hFalse, hOpen, hEmpty, hWrong⟩
      rw [if_pos hStrikes]
      rw [if_pos hEmpty] at hLeft
      unfold evicts at hSpared
      rw [if_pos hStrikes, hSame] at hSpared
      have hNoted := noteFailure_failureOf hSpared
      rw [if_pos rfl] at hNoted
      unfold failureOf at hNoted ⊢
      rw [hLeft]
      exact hNoted
  · exact absurd
      ⟨letIn_of_checked hStep hFalse hOpen hWrong, hWrong⟩
      hRefused

/- While it is locked a key is kept waiting. -/
theorem attempt_waiting
    {room room' : Room η} {a : Attempt}
    {answer : Option Nat} {failure : Failure}
    (hStep : Attempted room (a, answer) room')
    (hFailure : room.failureOf a.pk = some failure)
    (hEarly : a.now < failure.lockedUntil) :
    answer = none ∧
      room' = room.atTime a.now := by
  have hServed :
      (room.atTime a.now).lapsed a.pk a.now = false := by
    have hSame :
        (room.atTime a.now).failureOf a.pk = some failure :=
      hFailure
    rw [lapsed, hSame]
    simp [UInt64.not_le.mpr hEarly]
  have hLocked :
      (room.atTime a.now).lockedOut a.pk =
        (true, room.atTime a.now) := by
    rw [lockedOut_of_not_lapsed hServed]
    have hSame :
        (room.atTime a.now).failureOf a.pk = some failure :=
      hFailure
    rw [hSame]
    exact Prod.ext (decide_eq_true hEarly) rfl
  have hAnswer := hStep.2
  rw [authenticate_eq, hLocked] at hAnswer
  simp only [if_true, ite_self] at hAnswer
  rcases Prod.mk.inj hAnswer with ⟨hNone, hRoom⟩
  exact ⟨hNone.symm, hRoom.symm⟩

------------------------------------------------------------
-- Runs
------------------------------------------------------------

theorem Failure.again_count
    (room : Room η)
    (failure : Failure) :
    (Failure.again room failure).count.toNat =
      min (failure.count.toNat + 1) 255 := by
  have hByte := failure.count.toNat_lt
  unfold Failure.again
  simp only
  split
  · rename_i hBelow
    have hBelow : failure.count.toNat < 255 := hBelow
    rw [UInt8.toNat_add]
    have hOne : (1 : UInt8).toNat = 1 := rfl
    omega
  · rename_i hFull
    have hFull : ¬ failure.count.toNat < 255 := hFull
    omega

theorem attempted_config
    {room room' : Room η} {e : Attempt × Option Nat}
    (hStep : Attempted room e room') :
    room'.config = room.config := by
  have hOnly := authenticate_onlyLogins
    (room.atTime e.1.now) e.1.pk e.1.password e.1.timestamp
  rw [hStep.2] at hOnly
  exact hOnly.config

theorem attempted_now
    {room room' : Room η} {e : Attempt × Option Nat}
    (hStep : Attempted room e room') :
    room'.now = e.1.now := by
  have hAnswer := hStep.2
  rcases authenticate_cases (room.atTime e.1.now) e.1.pk
      e.1.password e.1.timestamp with
    ⟨noted, ⟨failures, rfl⟩, hRefused | ⟨access, hLet⟩⟩
  · rw [hRefused] at hAnswer
    rw [← (Prod.mk.inj hAnswer).2]
    rfl
  · rw [hLet] at hAnswer
    rw [← (Prod.mk.inj hAnswer).2]
    rcases enterClient_cases
        { room.atTime e.1.now with failures := failures }
        e.1.pk with
      ⟨row, -, hEnter⟩ | ⟨-, kept, -, hEnter⟩
    · rw [hEnter]
      rfl
    · rw [hEnter]
      rfl

theorem strikesOf_snoc
    (pk : PublicKey)
    (ts : List (Try η))
    (t : Try η) :
    strikesOf pk (ts ++ [t]) =
      strikesOf pk ts + if Strikes pk t then 1 else 0 := by
  unfold strikesOf
  rw [List.countP_append, List.countP_singleton]

/- Calls over which the strikes of a key add up. -/
structure AddsUp (pk : PublicKey) (t : Try η) : Prop where
  spares : Spares pk t
  refused : ¬ LetIn pk t
  waits : ¬ Served pk t

/- What one such call leaves on the entry of the key. -/
theorem attempt_addsUp
    {pk : PublicKey} {t : Try η}
    (hStep : Attempted t.before t.event t.after)
    (hAddsUp : AddsUp pk t) :
    t.after.failureOf pk =
      if Strikes pk t then
        some (Failure.again (t.before.atTime t.event.1.now)
          ((t.before.failureOf pk).getD { pk := pk }))
      else t.before.failureOf pk := by
  by_cases hOwn : t.event.1.pk = pk
  · subst hOwn
    have hStrikes :
        Strikes t.event.1.pk t =
          t.before.strikes t.event.1 := by
      simp [Strikes]
    rw [hStrikes]
    apply attempt_own hStep hAddsUp.spares
    · have hServed := hAddsUp.waits
      unfold Served at hServed
      simpa using hServed
    · have hRefused := hAddsUp.refused
      unfold LetIn at hRefused
      simpa using hRefused
  · have hNo : ¬ Strikes pk t = true := by
      simp [Strikes, hOwn]
    rw [if_neg hNo]
    exact attempt_other hStep hOwn hAddsUp.spares

/- The entry has counted every strike that adds up. -/
theorem run_strikes
    {room₀ room : Room η} {ts : List (Try η)}
    {pk : PublicKey}
    (hRun : Run Attempted room₀ ts room)
    (hAddsUp : ∀ t ∈ ts, AddsUp pk t) :
    strikesOf pk ts = 0 ∨
      ∃ failure,
        room.failureOf pk = some failure ∧
          min (strikesOf pk ts) 255 ≤
            failure.count.toNat := by
  induction hRun with
  | start => exact .inl rfl
  | @step ts room room' e hRun hStep ih =>
      have hEarlier := ih fun t ht => hAddsUp t (by simp [ht])
      have hLast :=
        attempt_addsUp (t := ⟨room, e, room'⟩) hStep
          (hAddsUp _ (by simp))
      rw [strikesOf_snoc]
      by_cases hStrikes :
          Strikes pk (⟨room, e, room'⟩ : Try η) = true
      · right
        rw [if_pos hStrikes] at hLast ⊢
        refine ⟨_, hLast, ?_⟩
        rw [Failure.again_count]
        rcases hEarlier with hZero | ⟨failure, hIs, hCount⟩
        · omega
        · rw [hIs, Option.getD_some]
          omega
      · rw [if_neg hStrikes] at hLast ⊢
        simp only at hLast
        rw [hLast, Nat.add_zero]
        exact hEarlier

/- The strike that is one too many locks its key. -/
theorem last_strike_locks
    {room₀ : Room η} {span : List (Try η)} {last : Try η}
    {pk : PublicKey}
    (hRun : Run Attempted room₀ (span ++ [last]) last.after)
    (hAddsUp : ∀ t ∈ span ++ [last], AddsUp pk t)
    (hLast : Strikes pk last = true)
    (hMany :
      room₀.config.maxLoginAttempts.toNat ≤
        strikesOf pk (span ++ [last])) :
    ∃ failure,
      last.after.failureOf pk = some failure ∧
        failure.lockedUntil =
          last.event.1.now + room₀.config.loginLockout := by
  rcases hRun.split_last with ⟨hSpan, hStep, -⟩
  have hEntry :=
    attempt_addsUp hStep (hAddsUp last (by simp))
  rw [if_pos hLast] at hEntry
  refine ⟨_, hEntry, ?_⟩
  have hConfig : last.before.config = room₀.config :=
    hSpan.invariant
      (I := fun room => room.config = room₀.config) rfl
      fun _ _ _ hSame hStep =>
        (attempted_config hStep).trans hSame
  have hCount :
      room₀.config.maxLoginAttempts.toNat ≤
        (Failure.again
          (last.before.atTime last.event.1.now)
          ((last.before.failureOf pk).getD
            { pk := pk })).count.toNat := by
    have hByte := room₀.config.maxLoginAttempts.toNat_lt
    rcases run_strikes hRun hAddsUp with
      hZero | ⟨failure, hIs, hCount⟩
    · rw [hZero] at hMany
      omega
    · rw [hEntry] at hIs
      cases hIs
      omega
  have hLocks :
      last.before.config.maxLoginAttempts ≤
        (Failure.again
          (last.before.atTime last.event.1.now)
          ((last.before.failureOf pk).getD
            { pk := pk })).count := by
    rw [hConfig]
    exact UInt8.le_iff_toNat_le.mpr hCount
  rw [← hConfig]
  unfold Failure.again at hLocks ⊢
  exact if_pos hLocks

/-
  A lockout holds until its time, where its entry is spared:
  the calls of the key are refused, and the others leave the
  entry alone.
-/
theorem lockout_lasts
    {room₀ room : Room η} {ts : List (Try η)}
    {pk : PublicKey} {failure : Failure}
    (hRun : Run Attempted room₀ ts room)
    (hSpares : ∀ t ∈ ts, Spares pk t)
    (hLocked : room₀.failureOf pk = some failure)
    (hEarly : room.now < failure.lockedUntil) :
    room.failureOf pk = some failure := by
  induction hRun with
  | start => exact hLocked
  | @step ts room room' e hRun hStep ih =>
      rw [attempted_now hStep] at hEarly
      have hBefore : room.now < failure.lockedUntil :=
        UInt64.lt_of_le_of_lt hStep.1 hEarly
      have hEntry :=
        ih (fun t ht => hSpares t (by simp [ht])) hBefore
      by_cases hOwn : e.1.pk = pk
      · subst hOwn
        rcases attempt_waiting hStep hEntry hEarly with
          ⟨-, rfl⟩
        exact hEntry
      · have hOther :=
          attempt_other hStep hOwn
            (hSpares ⟨room, e, room'⟩ (by simp))
        exact hOther.trans hEntry

/-
  Where no entry of the key has to go, a key whose strikes
  add up to the limit is kept waiting for all the time that
  a lockout takes, whatever the other keys do.
-/
theorem lockout_holds
    {room₀ room : Room η} {span later : List (Try η)}
    {last : Try η} {pk : PublicKey}
    (hRun :
      Run Attempted room₀ (span ++ last :: later) room)
    (hAddsUp : ∀ t ∈ span ++ [last], AddsUp pk t)
    (hSpares : ∀ t ∈ later, Spares pk t)
    (hLast : Strikes pk last = true)
    (hMany :
      room₀.config.maxLoginAttempts.toNat ≤
        strikesOf pk (span ++ [last]))
    (hTime :
      last.event.1.now.toNat +
          room₀.config.loginLockout.toNat <
        2 ^ 64) :
    ∀ t ∈ later,
      t.event.1.pk = pk →
      t.event.1.now.toNat <
        last.event.1.now.toNat +
          room₀.config.loginLockout.toNat →
      KeptWaiting t := by
  rintro t ht rfl hEarly
  rcases hRun.split_cons with ⟨hSpan, hStep, hLater⟩
  rcases last_strike_locks (.snoc hSpan hStep) hAddsUp
      hLast hMany with
    ⟨failure, hLocked, hUntil⟩
  have hUntil :
      failure.lockedUntil.toNat =
        last.event.1.now.toNat +
          room₀.config.loginLockout.toNat := by
    rw [hUntil, UInt64.toNat_add]
    exact Nat.mod_eq_of_lt hTime
  have hWaits : t.event.1.now < failure.lockedUntil := by
    rw [UInt64.lt_iff_toNat_lt, hUntil]
    exact hEarly
  rcases hLater.before_of_mem ht with
    ⟨pre, post, hSplit, hBefore⟩
  have hTry := hLater.step_of_mem ht
  have hStill : t.before.failureOf t.event.1.pk = some failure := by
    apply lockout_lasts hBefore
    · intro u hu
      exact hSpares u (by simp [hSplit, hu])
    · exact hLocked
    · exact UInt64.lt_of_le_of_lt hTry.1 hWaits
  rcases attempt_waiting hTry hStill hWaits with
    ⟨hNone, hSame⟩
  constructor
  · exact hNone
  · rw [hSame]
    rfl

------------------------------------------------------------
-- Scripts
------------------------------------------------------------

/- What calls are answered. -/
def tries (room : Room η) : List Attempt → List (Try η)
| [] => []
| a :: more =>
    let result :=
      (room.atTime a.now).authenticate a.pk a.password
        a.timestamp
    ⟨room, (a, result.1), result.2⟩ ::
      tries result.2 more

/- Calls that are made in time are a run. -/
theorem run_tries
    {room : Room η} {attempts : List Attempt}
    (hTimes :
      ∀ t ∈ tries room attempts,
        t.before.now ≤ t.event.1.now) :
    ∃ room', Run Attempted room (tries room attempts) room' := by
  induction attempts generalizing room with
  | nil => exact ⟨room, .start⟩
  | cons a more ih =>
      have hFirst :=
        hTimes _ (List.mem_cons_self (l := tries _ more))
      rcases ih fun t ht =>
          hTimes t (List.mem_cons_of_mem _ ht) with
        ⟨room', hRest⟩
      exact ⟨room',
        (Run.single ⟨hFirst, rfl⟩).trans hRest⟩

section Example

open Sample

instance (pk : PublicKey) (t : Try η) :
    Decidable (LetIn pk t) :=
  inferInstanceAs (Decidable (_ ∧ _ ∧ _))

instance (pk : PublicKey) (t : Try η) :
    Decidable (Served pk t) :=
  inferInstanceAs (Decidable (_ ∧ _))

instance (t : Try η) : Decidable (KeptWaiting t) :=
  inferInstanceAs (Decidable (_ ∧ _))

def tryOf
    (n : UInt8)
    (now : Millis)
    (password : Bytes) :
    Attempt :=
  { now := now
    pk := key n
    password := password
    timestamp := 1 }

/- A room that locks a key for its second wrong password. -/
def strictRoom : Room Unit :=
  .create
    { guestPassword := ascii "g"
      maxLoginAttempts := 2 } ()

/- One key is locked, and then some others are. -/
def crowd (others : Nat) : List (Try Unit) :=
  tries strictRoom
    ([tryOf 1 0 (ascii "x"), tryOf 1 0 (ascii "x")] ++
      (List.range others).flatMap (fun n =>
        List.replicate 2
          (tryOf (UInt8.ofNat (n + 2)) 1 (ascii "x"))) ++
      [tryOf 1 2 (ascii "g")])

theorem crowd_is_run (others : Nat)
    (hTimes :
      ∀ t ∈ crowd others, t.before.now ≤ t.event.1.now) :
    ∃ room, Run Attempted strictRoom (crowd others) room :=
  run_tries hTimes

/-
  A key is locked at zero, and gets in two milliseconds
  later: the others have filled the table with lockouts, and
  its own was the one to go.
-/
theorem lockout_is_shaken_off :
    (∃ room, Run Attempted strictRoom (crowd 32) room) ∧
      (∀ t ∈ (crowd 32).take 2,
        ¬ LetIn (key 1) t ∧ ¬ Served (key 1) t) ∧
      strictRoom.config.maxLoginAttempts.toNat ≤
        strikesOf (key 1) ((crowd 32).take 2) ∧
      (∀ t ∈ (crowd 32).take 2, t.event.1.now = 0) ∧
      ∃ t ∈ (crowd 32).drop 2,
        t.event.1.pk = key 1 ∧
          t.event.1.now.toNat <
            strictRoom.config.loginLockout.toNat ∧
          ¬ KeptWaiting t := by
  have hAll :
      (∀ t ∈ crowd 32, t.before.now ≤ t.event.1.now) ∧
      (∀ t ∈ (crowd 32).take 2,
        ¬ LetIn (key 1) t ∧ ¬ Served (key 1) t) ∧
      strictRoom.config.maxLoginAttempts.toNat ≤
        strikesOf (key 1) ((crowd 32).take 2) ∧
      (∀ t ∈ (crowd 32).take 2, t.event.1.now = 0) ∧
      ∃ t ∈ (crowd 32).drop 2,
        t.event.1.pk = key 1 ∧
          t.event.1.now.toNat <
            strictRoom.config.loginLockout.toNat ∧
          ¬ KeptWaiting t := by
    decide +kernel
  exact ⟨crowd_is_run 32 hAll.1, hAll.2⟩

theorem spares_of_evicts
    {pk : PublicKey} {t : Try η}
    (hNone : t.before.evicts t.event.1 = none) :
    Spares pk t := by
  intro failure hSome
  rw [hNone] at hSome
  cases hSome

/- The call that locks the key. -/
def secondTry : Try Unit :=
  (crowd 1).get ⟨1, by decide⟩

/- The call with the right password, in vain. -/
def lastTry : Try Unit :=
  (crowd 1).get ⟨4, by decide⟩

/- One other key leaves the lockout as it is. -/
theorem small_crowd_waits : KeptWaiting lastTry := by
  rcases crowd_is_run 1 (by decide +kernel) with
    ⟨room, hRun⟩
  have hSpan :
      ∀ t ∈ (crowd 1).take 1 ++ [secondTry],
        t.before.evicts t.event.1 = none ∧
          ¬ LetIn (key 1) t ∧ ¬ Served (key 1) t := by
    decide +kernel
  have hLater :
      ∀ t ∈ (crowd 1).drop 2,
        t.before.evicts t.event.1 = none := by
    decide +kernel
  have hSplit :
      Run Attempted strictRoom
        ((crowd 1).take 1 ++ secondTry :: (crowd 1).drop 2)
        room :=
    hRun
  have hAddsUp :
      ∀ t ∈ (crowd 1).take 1 ++ [secondTry],
        AddsUp (key 1) t := by
    intro t ht
    rcases hSpan t ht with ⟨hNone, hRefused, hWaits⟩
    exact ⟨spares_of_evicts hNone, hRefused, hWaits⟩
  have hSpares :
      ∀ t ∈ (crowd 1).drop 2, Spares (key 1) t := by
    intro t ht
    exact spares_of_evicts (hLater t ht)
  have hMember : lastTry ∈ (crowd 1).drop 2 :=
    List.get_mem ((crowd 1).drop 2) ⟨2, by decide⟩
  exact lockout_holds hSplit hAddsUp hSpares
    (by decide +kernel) (by decide +kernel)
    (by decide +kernel) lastTry hMember
    (by decide +kernel) (by decide +kernel)

end Example

end Room

end MeshCore
