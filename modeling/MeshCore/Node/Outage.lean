import MeshCore.Node.Durability
import MeshCore.Node.PowerCut

/-
  The program on a disk that can lose its power. What its
  loop calls its files is what is in the data directory; and
  when the power fails, in the middle of a save or not, the
  contacts are those of the last save or of the one that was
  being made, and the board is that of one of the last two
  or of that one: the last save of the board is only synced
  with the directory by the next save of the contacts.

  Key definitions include:
    * `Process.flushFiles`
    * `Powered`, `Powered.Step`, `Powered.Fails`

  Key facts include:
    * `Process.flushFiles_guards`
    * `Powered.step_saves`
    * `Powered.power_cut_costs_one_save`
-/

namespace MeshCore

open Program

------------------------------------------------------------
-- Both Files
------------------------------------------------------------

namespace Process

/- One after the other, whatever comes of the first. -/
def flushFiles
    (p : Process)
    (n : Nat) :
    DataM (Option (Bool × Bool)) := do
  let contacts ←
    Store.flushFile n p.node.2.store.writeContacts
  match contacts with
  | none => return none
  | some contacts =>
      let room ← Room.flushFile n p.node.1.writeState
      match room with
      | none => return none
      | some room => return some (contacts, room)

/- What is in doubt while the files are written. -/
structure InDoubt
    (p : Process)
    (s s' : DataFolder) :
    Prop where
  contacts :
    ∀ x ∈ s'.later .contacts,
      x ∈ s.later .contacts ∨ x = p.written.contacts
  room :
    ∀ x ∈ s'.later .room,
      x ∈ s.later .room ∨ x = p.written.room

/- Both were written, and the directory was synced. -/
structure Placed
    (p : Process)
    (s s' : DataFolder) :
    Prop where
  contacts : s'.now .contacts = p.written.contacts
  room : s'.now .room = p.written.room
  contactsLater :
    ∀ x ∈ s'.later .contacts, x = p.written.contacts
  roomLater :
    ∀ x ∈ s'.later .room,
      x = s.now .room ∨ x = p.written.room

section Flush

variable {d : DataDisk} {s m s' : DataFolder}
variable {p : Process}

theorem inDoubt_of_toward
    (hNow : ∀ t, s.now t ∈ s.later t)
    {blob : Bytes}
    (hBlob : p.written.contacts = some blob)
    (hToward : Toward s .contacts blob s') :
    p.InDoubt s s' where
  contacts := by
    intro x hx
    rcases DataDir.later_of_toward hNow hToward hx with
      hOld | ⟨-, rfl⟩
    · exact .inl hOld
    · exact .inr hBlob.symm
  room := by
    intro x hx
    rcases DataDir.later_of_toward hNow hToward hx with
      hOld | ⟨hOther, -⟩
    · exact .inl hOld
    · cases hOther

/- The board, after the contacts. -/
theorem InDoubt.room_toward
    (hNow : ∀ t, m.now t ∈ m.later t)
    {blob : Bytes}
    (hBlob : p.written.room = some blob)
    (hDoubt : p.InDoubt s m)
    (hToward : Toward m .room blob s') :
    p.InDoubt s s' where
  contacts := by
    intro x hx
    rcases DataDir.later_of_toward hNow hToward hx with
      hOld | ⟨hOther, -⟩
    · exact hDoubt.contacts x hOld
    · cases hOther
  room := by
    intro x hx
    rcases DataDir.later_of_toward hNow hToward hx with
      hOld | ⟨-, rfl⟩
    · exact hDoubt.room x hOld
    · exact .inr hBlob.symm

/- The sync that is made with the contacts is enough. -/
theorem placed_of_came
    {calls more : List DataCall}
    {contacts room : Bytes}
    (hNow : ∀ t, m.now t ∈ m.later t)
    (hContacts : p.written.contacts = some contacts)
    (hRoom : p.written.room = some room)
    (hFirst : Came s .contacts contacts calls (some true) m)
    (hThen : Came m .room room more (some true) s')
    (hSettled : settled (calls ++ more) = true) :
    p.Placed s s' := by
  have hNotRoom : DataFile.contacts ≠ .room := by simp
  have hNotContacts : DataFile.room ≠ .contacts := by simp
  have hHere := hThen.toward.now_of_ne hNotRoom
  have hBoard := hFirst.toward.now_of_ne hNotContacts
  rw [settled_append, Bool.or_eq_true] at hSettled
  exact
    { contacts := by
        rw [hHere, hFirst.now_self, hContacts]
      room := by rw [hThen.now_self, hRoom]
      contactsLater := by
        intro x hx
        rcases hSettled with hSettled | hSettled
        · rcases DataDir.later_of_toward hNow hThen.toward
              hx with
            hOld | ⟨hOther, -⟩
          · rw [hFirst.later_of_settled hSettled] at hOld
            rw [show x = m.now .contacts from hOld,
              hFirst.now_self, hContacts]
          · cases hOther
        · rw [hThen.later_of_settled hSettled] at hx
          rw [show x = s'.now .contacts from hx, hHere,
            hFirst.now_self, hContacts]
      roomLater := by
        intro x hx
        rcases hSettled with hSettled | hSettled
        · rcases DataDir.later_of_toward hNow hThen.toward
              hx with
            hOld | ⟨-, rfl⟩
          · rw [hFirst.later_of_settled hSettled] at hOld
            rw [show x = m.now .room from hOld]
            exact .inl hBoard
          · exact .inr hRoom.symm
        · rw [hThen.later_of_settled hSettled] at hx
          rw [show x = s'.now .room from hx,
            hThen.now_self]
          exact .inr hRoom.symm }

/-
  Wherever it is stopped no more is in doubt than what was
  and what is written; and once both are written it is known
  what a power cut may leave.
-/
theorem flushFiles_guards
    (p : Process) (n : Nat)
    (hHolds : d.Holds s) :
    (p.flushFiles n).Guards Disk.Does
      (fun d' => ∃ s', d'.Holds s' ∧ p.InDoubt s s')
      (fun calls ok d' =>
        ok = some (true, true) → settled calls = true →
          ∃ s', d'.Holds s' ∧ p.Placed s s')
      d := by
  rw [flushFiles, guards_bind]
  apply
    (replaceFile_guards true n .contacts
      p.node.2.store.writeContacts hHolds).mono
  · rintro d' ⟨m, hHoldsM, hToward⟩
    exact ⟨m, hHoldsM,
      inDoubt_of_toward hHolds.now_mem rfl hToward⟩
  · rintro calls contacts d₁ ⟨m, hHoldsM, hFirst⟩
    have hDoubt : p.InDoubt s m :=
      inDoubt_of_toward hHolds.now_mem rfl hFirst.toward
    cases contacts with
    | none =>
        exact ⟨⟨m, hHoldsM, hDoubt⟩, fun h => by cases h⟩
    | some contacts =>
        change
          (Room.flushFile n p.node.1.writeState >>=
            _).Guards _ _ _ d₁
        rw [guards_bind]
        apply
          (replaceFile_guards false n .room
            p.node.1.writeState hHoldsM).mono
        · rintro d' ⟨s', hHolds', hToward⟩
          exact ⟨s', hHolds',
            hDoubt.room_toward hHoldsM.now_mem rfl hToward⟩
        · rintro more room d₂ ⟨s', hHolds', hThen⟩
          have hDoubt' : p.InDoubt s s' :=
            hDoubt.room_toward hHoldsM.now_mem rfl
              hThen.toward
          cases room with
          | none =>
              exact ⟨⟨s', hHolds', hDoubt'⟩,
                fun h => by cases h⟩
          | some room =>
              refine ⟨⟨s', hHolds', hDoubt'⟩, ?_⟩
              rintro hBoth hSettled
              cases hBoth
              rw [List.append_nil] at hSettled
              exact ⟨s', hHolds',
                placed_of_came hHoldsM.now_mem rfl rfl
                  hFirst hThen hSettled⟩

end Flush

end Process

------------------------------------------------------------
-- The Program On Its Disk
------------------------------------------------------------

/- A process, and the data directory it works on. -/
structure Powered where
  process : Process
  disk : DataDisk

namespace Powered

/- A turn of the loop, and what it asks of the disk. -/
structure Turn where
  moment : Moment
  rounds : Nat := 1
  calls : List DataCall := []

section Steps

variable [CryptoCore]
variable (airtimeUs : Nat → UInt32)
variable (sign : PrivateKey → Bytes → Signature)

/- Whether a turn saves. -/
def Due (p : Process) (m : Moment) : Prop :=
  (p.work airtimeUs sign m).admin.rebootDue = false ∧
    p.nextFlush ≤ m.now

/- What it finds of the disk is what becomes of its saves. -/
def Step (x : Powered) (t : Turn) (x' : Powered) : Prop :=
  x.process.Step airtimeUs sign t.moment x'.process ∧
    (Due airtimeUs sign x.process t.moment →
      Gets Disk.Does
        ((x.process.work airtimeUs sign
          t.moment).flushFiles t.rounds)
        x.disk t.calls
        (.done (some
          (t.moment.contactsStored, t.moment.roomStored)))
        x'.disk) ∧
    (¬ Due airtimeUs sign x.process t.moment →
      t.calls = [] ∧ x'.disk = x.disk)

/-
  The power fails: between two turns, or in the middle of
  what the next one saves.
-/
def Fails
    (x : Powered)
    (m : Moment)
    (d : DataDisk) :
    Prop :=
  ∃ rounds calls rest between,
    Gets Disk.Does
      ((x.process.work airtimeUs sign m).flushFiles rounds)
      x.disk calls rest between ∧
    Disk.PowerCut between d

/- What is on the disk is what the process thinks there is. -/
structure Mirrors (x : Powered) : Prop where
  contacts :
    x.disk.reads (.file .contacts) =
      x.process.files.contacts
  room : x.disk.reads (.file .room) = x.process.files.room

/- Nothing was saved between the two. -/
structure Idle (x x' : Powered) : Prop where
  files : x'.process.files = x.process.files
  nextFlush : x'.process.nextFlush = x.process.nextFlush
  disk : x'.disk = x.disk

omit [CryptoCore] in
theorem Idle.trans
    {x x' x'' : Powered}
    (hFirst : x.Idle x')
    (hThen : x'.Idle x'') :
    x.Idle x'' where
  files := hThen.files.trans hFirst.files
  nextFlush := hThen.nextFlush.trans hFirst.nextFlush
  disk := hThen.disk.trans hFirst.disk

/- Nothing fails in a turn. -/
def Turn.Succeeds (t : Turn) : Prop :=
  Process.CanSave t.moment ∧
    (t.calls ≠ [] → settled t.calls = true)

/-
  The turn `t` was the last that saved. What a power cut may
  leave in place of its contacts is nothing else, and in
  place of its board the one before.
-/
structure LastSave
    (ts : List (Transition Powered Turn))
    (x : Powered)
    (pre : List (Transition Powered Turn))
    (t : Transition Powered Turn)
    (post : List (Transition Powered Turn)) :
    Prop where
  split : ts = pre ++ t :: post
  early :
    ∀ u ∈ post,
      u.event.moment.now <
        t.event.moment.now +
          t.before.process.config.flushEvery
  files : x.process.files = t.after.process.files
  readsBack :
    Process.ReadsBack t.after.process.files
      (t.before.process.work airtimeUs sign
        t.event.moment).node
  folder :
    ∃ s, x.disk.Holds s ∧
      (∀ y ∈ s.later .contacts,
        y = t.after.process.files.contacts) ∧
      ∀ y ∈ s.later .room,
        y = t.before.process.files.room ∨
          y = t.after.process.files.room

/-
  What a power cut leaves of the files, where `t` was the
  last turn that saved and `new` was being saved.
-/
structure Left
    (t : Transition Powered Turn)
    (new : Files)
    (d : DataDisk) :
    Prop where
  contacts :
    d.reads (.file .contacts) =
        t.after.process.files.contacts ∨
      d.reads (.file .contacts) = new.contacts
  room :
    d.reads (.file .room) = t.before.process.files.room ∨
      d.reads (.file .room) = t.after.process.files.room ∨
        d.reads (.file .room) = new.room

/- What a run keeps. -/
structure Stands (c : LoopConfig) (x : Powered) : Prop where
  folder : ∃ s, x.disk.Holds s
  mirrors : x.Mirrors
  sound : x.process.node.Sound
  config : x.process.config = c

variable {airtimeUs sign}
variable {c : LoopConfig}
variable {x x' : Powered}

/- To save is to ask for something. -/
omit [CryptoCore] in
theorem calls_of_flush
    {p : Process} {n : Nat} {d d' : DataDisk}
    {calls : List DataCall} {ok : Option (Bool × Bool)}
    (hGets :
      Gets Disk.Does (p.flushFiles n) d calls (.done ok)
        d') :
    calls ≠ [] := by
  rintro rfl
  generalize hq : (Program.done ok : DataM _) = q at hGets
  cases hGets
  cases hq

/- A turn leaves all as it was, or saves both files. -/
theorem step_saves
    {t : Turn}
    (hStands : Stands c x)
    (hStep : Step airtimeUs sign x t x')
    (hSucceeds : t.Succeeds)
    (hGoing : x'.process.looping = true) :
    Stands c x' ∧
      ((t.moment.now < x.process.nextFlush ∧ Idle x x') ∨
        (x.process.nextFlush ≤ t.moment.now ∧
          x'.process.nextFlush =
            t.moment.now + x.process.config.flushEvery ∧
          LastSave airtimeUs sign [⟨x, t, x'⟩] x' []
            ⟨x, t, x'⟩ [])) := by
  rcases hStep with ⟨⟨⟨-, hTime⟩, hTurn⟩, hDue, hIdle⟩
  rcases Process.goes_turn airtimeUs sign hTime with
    ⟨es, -, hGoes⟩
  rw [hTurn] at hGoes
  have hSound := Process.sound_of_goes hGoes hStands.sound
  have hConfig : x'.process.config = c := by
    rcases hGoes with ⟨ts, us, -, hWired⟩
    exact hWired.config.trans hStands.config
  rw [← hTurn] at hGoing
  have hStays := (Process.turn_of_going hGoing).1
  have hFlush :=
    Process.flush_of_turn hSucceeds.1 hGoing
  rw [hTurn] at hFlush
  rcases hFlush with
    ⟨hEarly, hFiles, hNext⟩ | ⟨hLate, hFiles, hNext⟩
  · have hSame : x'.disk = x.disk :=
      (hIdle fun h =>
        UInt64.not_le.mpr hEarly h.2).2
    refine ⟨?_, .inl ⟨hEarly, hFiles, hNext, hSame⟩⟩
    exact
      { folder := by
          rw [hSame]
          exact hStands.folder
        mirrors := by
          constructor
          · rw [hSame, hFiles]
            exact hStands.mirrors.contacts
          · rw [hSame, hFiles]
            exact hStands.mirrors.room
        sound := hSound
        config := hConfig }
  · have hGets := hDue ⟨hStays, hLate⟩
    rw [hSucceeds.1.1, hSucceeds.1.2] at hGets
    rcases hStands.folder with ⟨s, hHolds⟩
    rcases
      ((x.process.work airtimeUs sign
        t.moment).flushFiles_guards t.rounds hHolds).ends
          hGets rfl (hSucceeds.2 (calls_of_flush hGets)) with
      ⟨s', hHolds', hPlaced⟩
    have hRoom : s.now .room = x.process.files.room := by
      rw [← hHolds.files.now, hStands.mirrors.room]
    refine ⟨?_, .inr ⟨hLate, hNext, ?_⟩⟩
    · exact
        { folder := ⟨s', hHolds'⟩
          mirrors := by
            constructor
            · rw [hHolds'.files.now, hFiles,
                hPlaced.contacts]
            · rw [hHolds'.files.now, hFiles, hPlaced.room]
          sound := hSound
          config := hConfig }
    · exact
        { split := rfl
          early := by simp
          files := rfl
          readsBack := by
            dsimp only
            rw [hFiles]
            exact
              Process.readsBack_work hStands.sound hTime
          folder := by
            refine ⟨s', hHolds', ?_, ?_⟩
            · intro y hy
              rw [hPlaced.contactsLater y hy, hFiles]
            · intro y hy
              rw [hFiles, ← hRoom]
              exact hPlaced.roomLater y hy }

/- Only the last turn of a loop may have left it. -/
theorem going_of_run
    {ts : List (Transition Powered Turn)}
    (hRun : Run (Step airtimeUs sign) x ts x')
    (hGoing : x'.process.looping = true) :
    ∀ t ∈ ts, t.after.process.looping = true := by
  induction hRun with
  | start => simp
  | step _ hStep ih =>
      rw [List.forall_mem_append]
      refine ⟨ih hStep.1.1.1, ?_⟩
      intro t ht
      rw [List.mem_singleton.mp ht]
      exact hGoing

/-
  However many turns it made, its files are in the directory
  and there was a last turn that saved.
-/
theorem exists_lastSave
    {ts : List (Transition Powered Turn)}
    (hFirst : x.process.nextFlush = 0)
    (hStands : Stands c x)
    (hRun : Run (Step airtimeUs sign) x ts x')
    (hSucceed : ∀ t ∈ ts, t.event.Succeeds)
    (hGoing : x'.process.looping = true)
    (hSome : ts ≠ []) :
    Stands c x' ∧
      ∃ pre t post,
        LastSave airtimeUs sign ts x' pre t post := by
  have hAll :
      ∀ t ∈ ts,
        t.event.Succeeds ∧
          t.after.process.looping = true :=
    fun t ht =>
      ⟨hSucceed t ht, going_of_run hRun hGoing t ht⟩
  have hDue :
      ∃ t ∈ ts,
        t.before.process.nextFlush ≤ t.event.moment.now := by
    rcases List.exists_cons_of_ne_nil hSome with
      ⟨t, rest, rfl⟩
    refine ⟨t, List.mem_cons_self, ?_⟩
    rw [hRun.split_first.1, hFirst]
    exact UInt64.zero_le
  rcases Run.exists_last hDue with
    ⟨pre, t, post, rfl, hLate, hNone⟩
  rcases hRun.split_cons with ⟨hBefore, hStep, hAfter⟩
  rw [List.forall_mem_append, List.forall_mem_cons] at hAll
  rcases hAll with ⟨hAllPre, hHere, hAllPost⟩
  have hThere : Stands c t.before :=
    hBefore.invariant_of_forall hStands hAllPre
      fun _ _ _ hx hStep hNow =>
        (step_saves hx hStep hNow.1 hNow.2).1
  rcases step_saves hThere hStep hHere.1 hHere.2 with
    ⟨hThen, ⟨hEarly, -⟩ | ⟨-, hNext, hSaved⟩⟩
  · exact absurd hLate (UInt64.not_le.mpr hEarly)
  -- what it wrote is not touched after it
  have hKeep :
      ∀ y u y',
        (Stands c y ∧ t.after.Idle y) →
          Step airtimeUs sign y u y' →
          ((u.Succeeds ∧ y'.process.looping = true) ∧
            ¬ y.process.nextFlush ≤ u.moment.now) →
          Stands c y' ∧ t.after.Idle y' := by
    rintro y u y' ⟨hy, hIdle⟩ hStep ⟨hNow, hEarly⟩
    rcases step_saves hy hStep hNow.1 hNow.2 with
      ⟨hy', ⟨-, hMore⟩ | ⟨hLate, -⟩⟩
    · exact ⟨hy', hIdle.trans hMore⟩
    · exact absurd hLate hEarly
  have hStart : Stands c t.after ∧ t.after.Idle t.after :=
    ⟨hThen, rfl, rfl, rfl⟩
  have hQuiet :
      ∀ u ∈ post,
        (u.event.Succeeds ∧
            u.after.process.looping = true) ∧
          ¬ u.before.process.nextFlush ≤
            u.event.moment.now :=
    fun u hu => ⟨hAllPost u hu, hNone u hu⟩
  rcases hAfter.invariant_of_forall hStart hQuiet hKeep with
    ⟨hEnd, hIdle⟩
  refine ⟨hEnd, pre, t, post, ?_⟩
  exact
    { split := rfl
      early := by
        intro u hu
        rw [← hNext,
          ← (hAfter.invariant_mem_of_forall hStart hQuiet
            hKeep hu).1.2.nextFlush]
        exact UInt64.not_le.mp (hNone u hu)
      files := hIdle.files
      readsBack := hSaved.readsBack
      folder := by
        rw [hIdle.disk]
        exact hSaved.folder }

/-
  When the power fails, between two turns or in the middle
  of what the next one saves, a new program finds the
  contacts of the last save or those just written, and the
  board of one of the last two saves or the one just
  written. All of them read back.
-/
theorem power_cut_costs_one_save
    {ts : List (Transition Powered Turn)}
    {m : Moment} {d : DataDisk}
    (hFirst : x.process.nextFlush = 0)
    (hStands : Stands c x)
    (hRun : Run (Step airtimeUs sign) x ts x')
    (hSucceed : ∀ t ∈ ts, t.event.Succeeds)
    (hGoing : x'.process.looping = true)
    (hSome : ts ≠ [])
    (hTime : x'.process.device.now ≤ m.now)
    (hFails : x'.Fails airtimeUs sign m d) :
    ∃ pre t post,
      LastSave airtimeUs sign ts x' pre t post ∧
      Left t (x'.process.work airtimeUs sign m).written d ∧
      (pre = [] ∧ t.before = x ∨
        ∃ before u between,
          LastSave airtimeUs sign pre t.before before u
            between) ∧
      Process.ReadsBack
        (x'.process.work airtimeUs sign m).written
        (x'.process.work airtimeUs sign m).node := by
  rcases exists_lastSave hFirst hStands hRun hSucceed hGoing
      hSome with
    ⟨hEnd, pre, t, post, hLast⟩
  rcases hLast.folder with ⟨s, hHolds, hContacts, hRoom⟩
  rcases hFails with
    ⟨rounds, calls, rest, between, hGets, hCut⟩
  rcases
    ((x'.process.work airtimeUs sign m).flushFiles_guards
      rounds hHolds).gets hGets with
    ⟨sm, hBetween, hDoubt⟩
  rcases hBetween.powerCut hCut with ⟨s', hHolds', hFallen⟩
  refine ⟨pre, t, post, hLast, ⟨?_, ?_⟩, ?_,
    Process.readsBack_work hEnd.sound hTime⟩
  · rw [hHolds'.files.now]
    exact
      (hDoubt.contacts _ (hFallen.now _)).imp_left
        (hContacts _)
  · rw [hHolds'.files.now]
    rcases hDoubt.room _ (hFallen.now _) with hOld | hNew
    · exact (hRoom _ hOld).imp_right .inl
    · exact .inr (.inr hNew)
  · rw [hLast.split] at hRun hSucceed
    rcases hRun.split_cons with ⟨hBefore, hStep, -⟩
    by_cases hNone : pre = []
    · subst hNone
      exact .inl ⟨rfl, hBefore.eq_of_nil⟩
    · right
      exact
        (exists_lastSave hFirst hStands hBefore
          (fun u hu =>
            hSucceed u (List.mem_append_left _ hu))
          hStep.1.1.1 hNone).2

end Steps

section Example

open Process Sample

/- The program that was started, in an empty directory. -/
def booted : Powered where
  process := started
  disk := DataDir.emptyDir

theorem stands_booted : Stands started.config booted where
  folder := ⟨_, DataDir.holds_emptyDir⟩
  mirrors := ⟨rfl, rfl⟩
  sound := sound_started
  config := rfl

/- What its first turn saves. -/
def firstSave : DataM (Option (Bool × Bool)) :=
  (started.work Traffic.shortAirtimeUs blankSign
    { now := 1 }).flushFiles 1

def saved : Powered where
  process :=
    started.turn Traffic.shortAirtimeUs blankSign
      { now := 1 }
  disk := (run Disk.calm firstSave booted.disk).2

/- Its second does not save. -/
def idled : Powered where
  process := afterTurns
  disk := saved.disk

def bothTurns : List (Transition Powered Turn) :=
  [⟨booted,
      { moment := { now := 1 }
        calls := trace Disk.calm firstSave booted.disk },
      saved⟩,
    ⟨saved, { moment := { now := 2 } }, idled⟩]

theorem bothTurns_run :
    Run (Step Traffic.shortAirtimeUs blankSign) booted
      bothTurns idled := by
  refine .step (.step .start ?_) ?_
  · refine ⟨⟨by decide, rfl⟩, ?_, ?_⟩
    · intro _
      have hGets :=
        gets_run Disk.calm_does firstSave booted.disk
      have hBoth :
          (run Disk.calm firstSave booted.disk).1 =
            some (true, true) := by
        decide
      rw [hBoth] at hGets
      exact hGets
    · intro hNot
      exact absurd
        ⟨by decide, by decide +kernel⟩ hNot
  · refine ⟨⟨by decide, rfl⟩, ?_, ?_⟩
    · intro hDue
      exact absurd hDue.2 (by decide)
    · exact fun _ => ⟨rfl, rfl⟩

theorem bothTurns_succeed :
    ∀ t ∈ bothTurns, t.event.Succeeds := by
  rw [bothTurns, List.forall_mem_cons,
    List.forall_mem_singleton]
  refine ⟨⟨⟨rfl, rfl⟩, fun _ => ?_⟩, ⟨rfl, rfl⟩, ?_⟩
  · decide
  · intro hSome
    exact absurd rfl hSome

theorem entries_idled :
    idled.disk.entries ∈ idled.disk.maybe := by
  have hGets :=
    gets_run Disk.calm_does firstSave booted.disk
  rcases
    (flushFiles_guards _ 1 DataDir.holds_emptyDir).gets
      hGets with
    ⟨s, hHolds, -⟩
  exact hHolds.files.entries

/- The power fails before the third turn. -/
theorem first_outage_costs_nothing :
    ∃ pre t post,
      LastSave Traffic.shortAirtimeUs blankSign bothTurns
          idled pre t post ∧
        Left t
          (idled.process.work Traffic.shortAirtimeUs
            blankSign { now := 3 }).written
          idled.disk.dark ∧
        (pre = [] ∧ t.before = booted ∨
          ∃ before u between,
            LastSave Traffic.shortAirtimeUs blankSign pre
              t.before before u between) ∧
        ReadsBack
          (idled.process.work Traffic.shortAirtimeUs
            blankSign { now := 3 }).written
          (idled.process.work Traffic.shortAirtimeUs
            blankSign { now := 3 }).node :=
  power_cut_costs_one_save rfl stands_booted bothTurns_run
    bothTurns_succeed (by decide) (by simp [bothTurns])
    (by decide)
    ⟨1, [], _, _, .here _ _,
      Disk.powerCut_dark entries_idled⟩

end Example

end Powered

end MeshCore
