import MeshCore.Identity.Keys
import MeshCore.Library.Run

/-
  The data directory of a node over its life: it starts, it
  saves its files, it is stopped in the middle of either,
  and the power fails, in the middle of either or at rest.

  Whatever happens a file that is replaced is whole; and
  what was saved when the directory was synced is lost only
  to a later save. A key that was made is the node's for
  good, once a save has synced the directory.

  Key definitions include:
    * `DataDir.Task`, `DataDir.Happening`
    * `DataDir.Step`, `DataDir.Turns`

  Key facts include:
    * `DataDir.folder_of_step`
    * `DataDir.files_are_whole`
    * `DataDir.saved_is_never_lost`
    * `DataDir.never_somebody_else`
-/

namespace MeshCore

namespace DataDir

open Program

------------------------------------------------------------
-- What Happens To It
------------------------------------------------------------

/- The files that are replaced, and by what. -/
inductive Save where
| contacts
| room
| overrides
deriving DecidableEq, Repr

def Save.file : Save → DataFile
| .contacts => .contacts
| .room => .room
| .overrides => .overrides

def Save.work
    (n : Nat)
    (blob : Bytes) :
    Save → DataM (Option Bool)
| .contacts => Store.flushFile n blob
| .room => Room.flushFile n blob
| .overrides => Platform.writeAtomicFile n .overrides blob

inductive Task where
| start (n : Nat) (seed : Seed)
| save (what : Save) (n : Nat) (blob : Bytes)

/-
  A start comes up or does not, and a save is told to have
  been made or not. Either may be stopped in the middle, by
  the power or not, and the power may fail between them.
-/
inductive Happening where
| start
    (n : Nat) (seed : Seed)
    (calls : List DataCall)
    (came : Option Store)
| save
    (what : Save) (n : Nat) (blob : Bytes)
    (calls : List DataCall)
    (ok : Bool)
| stopped (task : Task)
| cut (task : Task)
| powerCut

/- Whether the power fails. -/
def Happening.cuts : Happening → Bool
| .cut _ => true
| .powerCut => true
| _ => false

/- A save that was made, and whose directory was synced. -/
def Happening.settles : Happening → Bool
| .save _ _ _ calls ok => ok && settled calls
| _ => false

/- What is being saved in it, made or not. -/
def Happening.writes : Happening → Option (DataFile × Bytes)
| .save what _ blob _ _ => some (what.file, blob)
| .stopped (.save what _ blob) => some (what.file, blob)
| .cut (.save what _ blob) => some (what.file, blob)
| _ => none

section Steps

variable (unfold : Seed → PublicKey × PrivateKey)

/- Some of the calls of a task, and perhaps all. -/
def Task.Gets (d : DataDisk) : Task → DataDisk → Prop
| .start n seed, d' =>
    ∃ calls rest,
      Program.Gets Disk.Does
        (Store.loadOrCreate unfold n seed) d calls rest d'
| .save what n blob, d' =>
    ∃ calls rest,
      Program.Gets Disk.Does (what.work n blob) d calls rest
        d'

def Step (d : DataDisk) : Happening → DataDisk → Prop
| .start n seed calls came, d' =>
    Program.Gets Disk.Does (Store.loadOrCreate unfold n seed)
      d calls (.done (some came)) d'
| .save what n blob calls ok, d' =>
    Program.Gets Disk.Does (what.work n blob) d calls
      (.done (some ok)) d'
| .stopped task, d' => task.Gets unfold d d'
| .cut task, d' =>
    ∃ m, task.Gets unfold d m ∧ Disk.PowerCut m d'
| .powerCut, d' => Disk.PowerCut d d'

/- What a task that is stopped makes of the folder. -/
def Task.Leaves (s : DataFolder) : Task → DataFolder → Prop
| .start _ _, s' => Booted s s'
| .save what _ blob, s' => Toward s what.file blob s'

/- What is to come of each of it. -/
def Turns (s : DataFolder) : Happening → DataFolder → Prop
| .start _ _ _ came, s' =>
    Booted s s' ∧
      ∀ store, came = some store →
        CameUp unfold s s' store
| .save what _ blob calls ok, s' =>
    Came s what.file blob calls (some ok) s'
| .stopped task, s' => task.Leaves s s'
| .cut task, s' => ∃ m, task.Leaves s m ∧ m.Fallen s'
| .powerCut, s' => s.Fallen s'

end Steps

------------------------------------------------------------
-- The Folder
------------------------------------------------------------

section Folder

variable {unfold : Seed → PublicKey × PrivateKey}
variable {d d' : DataDisk} {s s' : DataFolder}

/- Each save keeps to the same guarantee. -/
theorem Save.guards
    (what : Save) (n : Nat) (blob : Bytes)
    (hHolds : d.Holds s) :
    (what.work n blob).Guards Disk.Does
      (HoldsToward s what.file blob)
      (HoldsAfter s what.file blob) d := by
  cases what with
  | contacts =>
      exact replaceFile_guards true n _ blob hHolds
  | room => exact replaceFile_guards false n _ blob hHolds
  | overrides => exact writeAtomicFile_guards n _ blob hHolds

theorem Task.leaves_of_gets
    (hUnfold : ∀ seed, seedOf (unfold seed).2 = seed)
    {task : Task}
    (hHolds : d.Holds s)
    (hGets : task.Gets unfold d d') :
    ∃ s', d'.Holds s' ∧ task.Leaves s s' := by
  cases task with
  | start n seed =>
      rcases hGets with ⟨calls, rest, hGets⟩
      exact
        (Store.loadOrCreate_guards hUnfold n seed
          hHolds).gets hGets
  | save what n blob =>
      rcases hGets with ⟨calls, rest, hGets⟩
      exact (what.guards n blob hHolds).gets hGets

/- Whatever happens to the disk happens to the folder. -/
theorem folder_of_step
    (hUnfold : ∀ seed, seedOf (unfold seed).2 = seed)
    {e : Happening}
    (hHolds : d.Holds s)
    (hStep : Step unfold d e d') :
    ∃ s', d'.Holds s' ∧ Turns unfold s e s' := by
  cases e with
  | start n seed calls came =>
      rcases
        (Store.loadOrCreate_guards hUnfold n seed
          hHolds).ends hStep with
        ⟨s', hHolds', hBooted, hCame⟩
      refine ⟨s', hHolds', hBooted, ?_⟩
      intro store hStore
      exact hCame store (congrArg some hStore)
  | save what n blob calls ok =>
      exact (what.guards n blob hHolds).ends hStep
  | stopped task =>
      exact task.leaves_of_gets hUnfold hHolds hStep
  | cut task =>
      rcases hStep with ⟨m, hGets, hCut⟩
      rcases task.leaves_of_gets hUnfold hHolds hGets with
        ⟨between, hBetween, hLeaves⟩
      rcases hBetween.powerCut hCut with
        ⟨s', hHolds', hFallen⟩
      exact ⟨s', hHolds', between, hLeaves, hFallen⟩
  | powerCut => exact hHolds.powerCut hStep

/- No more comes in doubt than is being saved. -/
theorem later_of_toward
    {t : DataFile} {blob : Bytes}
    (hNow : ∀ t, s.now t ∈ s.later t)
    (hToward : Toward s t blob s')
    {t' : DataFile} {x : Option Bytes}
    (hx : x ∈ s'.later t') :
    x ∈ s.later t' ∨ (t' = t ∧ x = some blob) := by
  have hPut :
      ∀ x ∈ (s.put t blob).later t',
        x ∈ s.later t' ∨ (t' = t ∧ x = some blob) := by
    intro x hx
    by_cases hThis : t' = t
    · subst hThis
      rw [Folder.later_put_self] at hx
      exact hx.imp_right fun h => ⟨rfl, h⟩
    · rw [Folder.later_put_of_ne s hThis] at hx
      exact .inl hx
  rcases hToward with rfl | rfl | rfl
  · exact .inl hx
  · exact hPut x hx
  · have hx : x = (s.put t blob).now t' := hx
    rw [hx]
    by_cases hThis : t' = t
    · subst hThis
      exact .inr ⟨rfl, Folder.now_put_self _ _ _⟩
    · rw [Folder.now_put_of_ne s hThis]
      exact .inl (hNow t')

theorem later_of_booted (hBooted : Booted s s') :
    s'.later = s.later := by
  rcases hBooted with
    rfl | ⟨-, ⟨left, rfl⟩ | ⟨sk, rfl⟩⟩
  · rfl
  · rfl
  · rfl

theorem later_of_leaves
    {task : Task}
    (hNow : ∀ t, s.now t ∈ s.later t)
    (hLeaves : task.Leaves s s')
    {t : DataFile} {x : Option Bytes}
    (hx : x ∈ s'.later t) :
    x ∈ s.later t ∨
      ∃ blob,
        (Happening.stopped task).writes = some (t, blob) ∧
          x = some blob := by
  cases task with
  | start n seed =>
      rw [later_of_booted hLeaves] at hx
      exact .inl hx
  | save what n blob =>
      rcases later_of_toward hNow hLeaves hx with
        hOld | ⟨rfl, rfl⟩
      · exact .inl hOld
      · exact .inr ⟨blob, rfl, rfl⟩

theorem later_of_turns
    {e : Happening}
    (hNow : ∀ t, s.now t ∈ s.later t)
    (hTurns : Turns unfold s e s')
    {t : DataFile} {x : Option Bytes}
    (hx : x ∈ s'.later t) :
    x ∈ s.later t ∨
      ∃ blob,
        e.writes = some (t, blob) ∧ x = some blob := by
  cases e with
  | start n seed calls came =>
      rw [later_of_booted hTurns.1] at hx
      exact .inl hx
  | save what n blob calls ok =>
      rcases later_of_toward hNow hTurns.toward hx with
        hOld | ⟨rfl, rfl⟩
      · exact .inl hOld
      · exact .inr ⟨blob, rfl, rfl⟩
  | stopped task => exact later_of_leaves hNow hTurns hx
  | cut task =>
      rcases hTurns with ⟨m, hLeaves, hFallen⟩
      rw [hFallen.later t] at hx
      have hFell := hFallen.now t
      rw [← show x = s'.now t from hx] at hFell
      cases task with
      | start n seed =>
          exact later_of_leaves hNow hLeaves hFell
      | save what n blob =>
          exact later_of_leaves hNow hLeaves hFell
  | powerCut =>
      rw [hTurns.later t] at hx
      have hFell := hTurns.now t
      rw [← show x = s'.now t from hx] at hFell
      exact .inl hFell

------------------------------------------------------------
-- An Empty Directory
------------------------------------------------------------

/- A scheme whose public key is the seed. -/
def plainly (seed : Seed) : PublicKey × PrivateKey :=
  (seed, copyInto packetPrivateKeySize
    (seed.toList ++ seed.toList))

theorem seedOf_plainly (seed : Seed) :
    seedOf (plainly seed).2 = seed := by
  rw [seedOf, plainly, toList_copyInto_of_length]
  · exact copyInto_toList_append _ _
  · rw [List.length_append, Vector.length_toList]
    rfl

def emptyDir : DataDisk where
  inodes _ := { born := .lone .key }
  next := 0
  entries _ := none
  maybe := {fun _ => none}

def emptyFolder : DataFolder where
  now _ := none
  later _ := {none}
  alone _ := none
  kept _ := false
  held := true

theorem holds_emptyDir : emptyDir.Holds emptyFolder where
  files := by
    constructor <;> simp [emptyDir, emptyFolder, Disk.reads]
  lone := by
    constructor <;> simp [emptyDir, emptyFolder, Disk.reads]

def firstStore : Store where
  selfPk := Vector.replicate packetSeedSize 7
  selfSk := Vector.replicate packetPrivateKeySize 7

/- A first start, where nothing fails. -/
def firstStart : DataM (Option (Option Store)) :=
  Store.loadOrCreate plainly 1
    (Vector.replicate packetSeedSize 7)

def keyWritten : DataDisk :=
  (run Disk.calm firstStart emptyDir).2

theorem firstStart_step :
    Step plainly emptyDir
      (.start 1 (Vector.replicate packetSeedSize 7)
        (trace Disk.calm firstStart emptyDir)
        (some firstStore))
      keyWritten :=
  gets_run Disk.calm_does firstStart emptyDir

/- And a first save. -/
def firstSave : DataM (Option Bool) :=
  Save.overrides.work 1 [1]

def firstSaved : DataDisk :=
  (run Disk.calm firstSave keyWritten).2

def firstSaving : Happening :=
  .save .overrides 1 [1]
    (trace Disk.calm firstSave keyWritten) true

theorem firstSave_step :
    Step plainly keyWritten firstSaving firstSaved :=
  gets_run Disk.calm_does firstSave keyWritten

/- A second one has begun when the power fails. -/
def begun : DataDisk :=
  firstSaved.link (.temporary .overrides)

def torn : DataDisk :=
  { begun.dark with
    inodes := fun i =>
      { begun.dark.inodes i with
        content :=
          if (begun.inodes i).synced then
            (begun.inodes i).content
          else [9] } }

theorem torn_step :
    Step plainly firstSaved (.cut (.save .overrides 1 [2]))
      torn := by
  refine ⟨begun, ?_, ?_⟩
  · exact
      ⟨[⟨.truncate (.temporary .overrides), some 2⟩], _,
      .call (.inr ⟨rfl, rfl, rfl⟩) (.here _ _)⟩
  · exact
      { entries := .inr ⟨_, rfl, rfl⟩
        maybe := rfl
        next := rfl
        born := fun _ => rfl
        synced := fun _ => rfl
        kept := fun _ hSynced => if_pos hSynced }

def secondStart : DataM (Option (Option Store)) :=
  Store.loadOrCreate plainly 1
    (Vector.replicate packetSeedSize 8)

/- And it is started again, by chance on another seed. -/
def afterwards : List (Transition DataDisk Happening) :=
  [⟨firstSaved, .cut (.save .overrides 1 [2]), torn⟩,
    ⟨torn,
      .start 1 (Vector.replicate packetSeedSize 8)
        (trace Disk.calm secondStart torn)
        (some firstStore),
      torn⟩]

theorem afterwards_run :
    Run (Step plainly) keyWritten
      (⟨keyWritten, firstSaving, firstSaved⟩ ::
        afterwards)
      torn :=
  .step (.step (.step .start firstSave_step) torn_step)
    (gets_run Disk.calm_does secondStart torn)

------------------------------------------------------------
-- What Is Saved
------------------------------------------------------------

/- A file is as it was, or whole as it was to be saved. -/
theorem files_are_whole
    (hUnfold : ∀ seed, seedOf (unfold seed).2 = seed)
    {ts : List (Transition DataDisk Happening)}
    (hHolds : d.Holds s)
    (hRun : Run (Step unfold) d ts d') :
    ∃ s', d'.Holds s' ∧
      ∀ t, ∀ x ∈ s'.later t,
        x ∈ s.later t ∨
          ∃ u ∈ ts, ∃ blob,
            u.event.writes = some (t, blob) ∧
              x = some blob := by
  induction hRun with
  | start => exact ⟨s, hHolds, fun _ _ hx => .inl hx⟩
  | @step ts d d' e _ hStep ih =>
      rcases ih with ⟨m, hBefore, hWhole⟩
      rcases folder_of_step hUnfold hBefore hStep with
        ⟨s', hHolds', hTurns⟩
      refine ⟨s', hHolds', ?_⟩
      intro t x hx
      rcases later_of_turns hBefore.now_mem hTurns hx with
        hOld | ⟨blob, hWrites, rfl⟩
      · rcases hWhole t x hOld with hOld | ⟨u, hu, hThis⟩
        · exact .inl hOld
        · exact .inr ⟨u, List.mem_append_left _ hu, hThis⟩
      · exact .inr ⟨_, List.mem_append_right _
          (List.mem_singleton_self _), blob, hWrites, rfl⟩

/-
  What is there when a save has synced the directory is lost
  only to a later save of the same file: after any number of
  restarts, stops and power cuts it is there, whole, or what
  was to be saved since.
-/
theorem saved_is_never_lost
    (hUnfold : ∀ seed, seedOf (unfold seed).2 = seed)
    {pre post : List (Transition DataDisk Happening)}
    {m m' : DataDisk}
    {what : Save} {n : Nat} {blob : Bytes}
    {calls : List DataCall}
    (hHolds : d.Holds s)
    (hRun :
      Run (Step unfold) d
        (pre ++ ⟨m, .save what n blob calls true, m'⟩ ::
          post) d')
    (hSettled : settled calls = true) :
    m'.reads (.file what.file) = some blob ∧
      ∀ t,
        d'.reads (.file t) = m'.reads (.file t) ∨
          ∃ u ∈ post, ∃ more,
            u.event.writes = some (t, more) ∧
              d'.reads (.file t) = some more := by
  rcases hRun.split_cons with ⟨hBefore, hSave, hAfter⟩
  rcases files_are_whole hUnfold hHolds hBefore with
    ⟨sm, hHoldsM, -⟩
  rcases folder_of_step hUnfold hHoldsM hSave with
    ⟨sm', hHoldsM', hCame⟩
  have hPlaced : sm' = (sm.put what.file blob).settle := by
    rw [Turns, Came, if_pos rfl, if_pos hSettled] at hCame
    exact hCame
  rcases files_are_whole hUnfold hHoldsM' hAfter with
    ⟨s', hHolds', hWhole⟩
  refine ⟨?_, ?_⟩
  · rw [hHoldsM'.files.now, hPlaced]
    exact Folder.now_put_self _ _ _
  · intro t
    have hThere := hHolds'.now_mem t
    rw [← hHolds'.files.now t] at hThere
    rcases hWhole t _ hThere with hOld | hNew
    · left
      rw [hHoldsM'.files.now]
      rw [hPlaced] at hOld ⊢
      exact hOld
    · exact .inr hNew

theorem first_save_outlives_the_power :
    firstSaved.reads (.file .overrides) = some [1] ∧
      ∀ t,
        torn.reads (.file t) = firstSaved.reads (.file t) ∨
          ∃ u ∈ afterwards, ∃ more,
            u.event.writes = some (t, more) ∧
              torn.reads (.file t) = some more :=
  saved_is_never_lost seedOf_plainly holds_emptyDir
    ((Run.single firstStart_step).trans afterwards_run) rfl

------------------------------------------------------------
-- What A Node Is
------------------------------------------------------------

/- The key is in its file, and on the disk. -/
structure Keyed (s : DataFolder) (sk : PrivateKey) :
    Prop where
  alone : s.alone .key = some sk.toList
  kept : s.kept .key = true

/- A start does not touch a key that is there. -/
theorem eq_of_booted
    {sk : PrivateKey}
    (hKeyed : Keyed s sk)
    (hBooted : Booted s s') :
    s' = s := by
  rcases hBooted with rfl | ⟨hNone, -⟩
  · rfl
  · rw [hKeyed.alone] at hNone
    cases hNone

/- Nor does a save; it may make it stay. -/
theorem Keyed.toward
    {sk : PrivateKey} {t : DataFile} {blob : Bytes}
    (hKeyed : Keyed s sk)
    (hToward : Toward s t blob s') :
    Keyed s' sk ∧ (s.held = true → s'.held = true) := by
  rcases hToward with rfl | rfl | rfl
  · exact ⟨hKeyed, id⟩
  · exact ⟨⟨hKeyed.alone, hKeyed.kept⟩, id⟩
  · exact ⟨⟨hKeyed.alone, hKeyed.kept⟩, fun _ => rfl⟩

theorem Keyed.leaves
    {sk : PrivateKey} {task : Task}
    (hKeyed : Keyed s sk)
    (hLeaves : task.Leaves s s') :
    Keyed s' sk ∧ (s.held = true → s'.held = true) := by
  cases task with
  | start n seed =>
      rw [eq_of_booted hKeyed hLeaves]
      exact ⟨hKeyed, id⟩
  | save what n blob => exact hKeyed.toward hLeaves

/- Where its name is held, it outlives the power. -/
theorem Keyed.fallen
    {sk : PrivateKey}
    (hKeyed : Keyed s sk)
    (hHeld : s.held = true)
    (hFallen : s.Fallen s') :
    Keyed s' sk ∧ s'.held = true := by
  have hAlone := hFallen.alone hHeld _ hKeyed.kept
  rw [hKeyed.alone] at hAlone
  refine ⟨⟨hAlone, ?_⟩, hFallen.held⟩
  rw [hFallen.kept, hAlone]
  rfl

/-
  A key outlives whatever happens, where a power cut finds
  its name held; and a save that settles holds it.
-/
theorem Keyed.turns
    {sk : PrivateKey} {e : Happening}
    (hKeyed : Keyed s sk)
    (hCuts : e.cuts = true → s.held = true)
    (hTurns : Turns unfold s e s') :
    Keyed s' sk ∧
      (s.held = true ∨ e.settles = true →
        s'.held = true) := by
  cases e with
  | start n seed calls came =>
      rw [eq_of_booted hKeyed hTurns.1]
      exact ⟨hKeyed, fun h => h.resolve_right (by simp
        [Happening.settles])⟩
  | save what n blob calls ok =>
      rcases hKeyed.toward hTurns.toward with
        ⟨hKeyed', hStays⟩
      refine ⟨hKeyed', ?_⟩
      rintro (hHeld | hSettles)
      · exact hStays hHeld
      · rcases Bool.and_eq_true_iff.mp hSettles with
          ⟨rfl, hSettled⟩
        rw [Turns, Came, if_pos rfl, if_pos hSettled]
          at hTurns
        rw [hTurns]
        rfl
  | stopped task =>
      rcases hKeyed.leaves hTurns with ⟨hKeyed', hStays⟩
      exact ⟨hKeyed', fun h => hStays (h.resolve_right (by
        simp [Happening.settles]))⟩
  | cut task =>
      rcases hTurns with ⟨m, hLeaves, hFallen⟩
      rcases hKeyed.leaves hLeaves with ⟨hKeyed', hStays⟩
      rcases hKeyed'.fallen (hStays (hCuts rfl)) hFallen with
        ⟨hKeyed'', hHeld⟩
      exact ⟨hKeyed'', fun _ => hHeld⟩
  | powerCut =>
      rcases hKeyed.fallen (hCuts rfl) hTurns with
        ⟨hKeyed', hHeld⟩
      exact ⟨hKeyed', fun _ => hHeld⟩

/- The power does not fail before a save has settled. -/
def SettledFirst
    (ts : List (Transition DataDisk Happening)) :
    Prop :=
  ∀ pre u post, ts = pre ++ u :: post →
    u.event.cuts = true →
      ∃ v ∈ pre, v.event.settles = true

theorem SettledFirst.of_append
    {ts us : List (Transition DataDisk Happening)}
    (hFirst : SettledFirst (ts ++ us)) :
    SettledFirst ts := by
  rintro pre u post rfl
  exact hFirst pre u (post ++ us) (by simp)

theorem keyed_of_run
    (hUnfold : ∀ seed, seedOf (unfold seed).2 = seed)
    {sk : PrivateKey}
    {ts : List (Transition DataDisk Happening)}
    (hHolds : d.Holds s)
    (hKeyed : Keyed s sk)
    (hFirst : SettledFirst ts)
    (hRun : Run (Step unfold) d ts d') :
    ∃ s', d'.Holds s' ∧ Keyed s' sk ∧
      ((∃ u ∈ ts, u.event.settles = true) →
        s'.held = true) := by
  induction hRun with
  | start => exact ⟨s, hHolds, hKeyed, by simp⟩
  | @step ts d d' e _ hStep ih =>
      rcases ih hFirst.of_append with
        ⟨m, hBefore, hKeyedM, hHeld⟩
      rcases folder_of_step hUnfold hBefore hStep with
        ⟨s', hHolds', hTurns⟩
      have hCuts : e.cuts = true → m.held = true :=
        fun hCut => hHeld (hFirst ts _ [] rfl hCut)
      rcases hKeyedM.turns hCuts hTurns with
        ⟨hKeyed', hHeld'⟩
      refine ⟨s', hHolds', hKeyed', ?_⟩
      rintro ⟨u, hu, hSettles⟩
      rcases List.mem_append.mp hu with hu | hu
      · exact hHeld' (.inl (hHeld ⟨u, hu, hSettles⟩))
      · rw [List.mem_singleton.mp hu] at hSettles
        exact hHeld' (.inr hSettles)

/-
  A node that made its key comes up as the same one ever
  after, and its key stays in its file: after any number of
  restarts, stops and power cuts, the first of which came
  when a save had synced the directory.
-/
theorem never_somebody_else
    (hUnfold : ∀ seed, seedOf (unfold seed).2 = seed)
    {ts : List (Transition DataDisk Happening)}
    {m : DataDisk}
    {n : Nat} {seed : Seed} {calls : List DataCall}
    {store : Store}
    (hHolds : d.Holds s)
    (hNone : d.reads (.lone .key) = none)
    (hStart :
      Step unfold d (.start n seed calls (some store)) m)
    (hRun : Run (Step unfold) m ts d')
    (hFirst : SettledFirst ts) :
    d'.reads (.lone .key) = some store.selfSk.toList ∧
      ∀ u ∈ ts, ∀ n' seed' calls' store',
        u.event = .start n' seed' calls' (some store') →
          store'.selfPk = store.selfPk ∧
            store'.selfSk = store.selfSk := by
  rcases folder_of_step hUnfold hHolds hStart with
    ⟨sm, hHoldsM, -, hCame⟩
  rcases hCame store rfl with ⟨hAlone, hPair, hKept⟩
  have hKeyed : Keyed sm store.selfSk := by
    refine ⟨hAlone, hKept ?_⟩
    rw [← hHolds.lone.alone]
    exact hNone
  refine ⟨?_, ?_⟩
  · rcases keyed_of_run hUnfold hHoldsM hKeyed hFirst
        hRun with
      ⟨s', hHolds', hKeyed', -⟩
    rw [hHolds'.lone.alone]
    exact hKeyed'.alone
  · intro u hu n' seed' calls' store' hAgain
    rcases List.append_of_mem hu with ⟨pre, post, rfl⟩
    rcases hRun.split_cons with ⟨hBefore, hStep, -⟩
    rcases keyed_of_run hUnfold hHoldsM hKeyed
        hFirst.of_append hBefore with
      ⟨sb, hHoldsB, hKeyedB, -⟩
    rw [hAgain] at hStep
    rcases folder_of_step hUnfold hHoldsB hStep with
      ⟨sa, -, hBooted, hCame'⟩
    rw [eq_of_booted hKeyedB hBooted] at hCame'
    rcases hCame' store' rfl with ⟨hAlone', hPair', -⟩
    rw [hKeyedB.alone] at hAlone'
    have hSk : store'.selfSk = store.selfSk :=
      (Vector.toList_inj.mp (Option.some.inj hAlone')).symm
    refine ⟨?_, hSk⟩
    rw [hSk] at hPair'
    exact
      (Prod.mk.inj hPair').1.trans (Prod.mk.inj hPair).1.symm

theorem first_node_stays_itself :
    torn.reads (.lone .key) =
        some firstStore.selfSk.toList ∧
      ∀ u ∈
          (⟨keyWritten, firstSaving, firstSaved⟩ :
            Transition DataDisk Happening) :: afterwards,
        ∀ n seed calls store,
          u.event = .start n seed calls (some store) →
            store.selfPk = firstStore.selfPk ∧
              store.selfSk = firstStore.selfSk := by
  apply never_somebody_else seedOf_plainly holds_emptyDir rfl
    firstStart_step afterwards_run
  rintro (_ | ⟨_, pre⟩) u post hSplit hCuts
  · cases hSplit
    cases hCuts
  · rw [← (List.cons.inj hSplit).1]
    exact ⟨_, List.mem_cons_self, rfl⟩

end Folder

end DataDir

end MeshCore
