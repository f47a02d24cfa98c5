import MeshCore.Library.Crash
import Mathlib.Data.Set.Image
import Mathlib.Logic.Function.Basic

/-
  A directory of files on a disk that can lose its power.

  What was written to a file and not synced may come back as
  anything. What was done to the directory and not synced
  may have reached the disk or not, each change by itself;
  so beside the directory as it stands there is the set of
  those that a power cut may leave.

  A folder is what such a directory is for: under each name
  one content, and the contents that a power cut may put in
  its place. Some files are replaced, and some, alone, are
  written where they are kept.

  Key definitions include:
    * `Disk`, `DiskOp`, `Disk.Does`, `Disk.calm`
    * `Disk.PowerCut`, `Disk.dark`
    * `Folder`, `Folder.Fallen`
    * `Disk.Holds`

  Key facts include:
    * `Disk.Holds.overwrite`, `Disk.Holds.rename`
    * `Disk.Holds.syncDir`
    * `Disk.Holds.powerCut`
    * `Disk.Holds.create`, `Disk.Holds.scribble`,
      `Disk.Holds.keep`
-/

------------------------------------------------------------
-- Disks
------------------------------------------------------------

/- The names in a directory, and the files they stand for. -/
abbrev Dir (N : Type) := N → Option Nat

namespace Dir

variable {N : Type} [DecidableEq N]

/- One file, from a name to another. -/
def move (dir : Dir N) (old new : N) (i : Nat) : Dir N :=
  Function.update (Function.update dir new (some i)) old none

@[simp] theorem move_old
    (dir : Dir N) (old new : N) (i : Nat) :
    move dir old new i old = none := by
  rw [move, Function.update_self]

theorem move_new
    (dir : Dir N) {old new : N} (hNames : new ≠ old)
    (i : Nat) :
    move dir old new i new = some i := by
  rw [move, Function.update_of_ne hNames,
    Function.update_self]

theorem move_other
    (dir : Dir N) {old new name : N}
    (hOld : name ≠ old) (hNew : name ≠ new)
    (i : Nat) :
    move dir old new i name = dir name := by
  rw [move, Function.update_of_ne hOld,
    Function.update_of_ne hNew]

end Dir

/-
  A file. It remembers the name it was created under, and
  whether all it holds has reached the disk.
-/
structure Inode (N β : Type) where
  born : N
  content : List β := []
  synced : Bool := false

structure Disk (N β : Type) where
  inodes : Nat → Inode N β
  next : Nat
  entries : Dir N
  maybe : Set (Dir N)

/- What came of a write: a part of it, perhaps. -/
inductive WriteAns where
| wrote (n : Nat)
| interrupted
| failed
deriving DecidableEq, Repr

/-
  What is asked of the system. To sync the directory is to
  open it, to sync it and to close it.
-/
inductive DiskOp (N β : Type) where
| makeDir
| access (name : N)
| read (name : N)
| create (name : N)
| truncate (name : N)
| chmod (fd : Nat)
| write (fd : Nat) (data : List β)
| fsync (fd : Nat)
| close (fd : Nat)
| unlink (name : N)
| rename (old new : N)
| syncDir

@[reducible] def DiskOp.Ans {N β : Type} :
    DiskOp N β → Type
| .makeDir => Bool
| .access _ => Bool
| .read _ => Option (List β)
| .create _ => Option Nat
| .truncate _ => Option Nat
| .chmod _ => Bool
| .write _ _ => WriteAns
| .fsync _ => Bool
| .close _ => Bool
| .unlink _ => Bool
| .rename _ _ => Bool
| .syncDir => Bool

namespace Disk

variable {N β : Type}

/- What is read under a name. -/
def reads (d : Disk N β) (name : N) : Option (List β) :=
  (d.entries name).map fun i => (d.inodes i).content

def setInode
    (d : Disk N β)
    (i : Nat)
    (inode : Inode N β) :
    Disk N β :=
  { d with inodes := Function.update d.inodes i inode }

@[simp] theorem inodes_setInode_self
    (d : Disk N β) (i : Nat) (inode : Inode N β) :
    (d.setInode i inode).inodes i = inode :=
  Function.update_self _ _ _

section Names

variable [DecidableEq N]

/- A change of the directory that may not be on the disk. -/
def change (d : Disk N β) (f : Dir N → Dir N) : Disk N β :=
  { d with
    entries := f d.entries
    maybe := d.maybe ∪ f '' d.maybe }

/- A new file, empty. -/
def link (d : Disk N β) (name : N) : Disk N β :=
  { (d.setInode d.next { born := name }).change fun dir =>
      Function.update dir name (some d.next) with
    next := d.next + 1 }

theorem entries_link (d : Disk N β) (name : N) :
    (d.link name).entries name = some d.next :=
  Function.update_self _ _ _

theorem content_link (d : Disk N β) (name : N) :
    ((d.link name).inodes d.next).content = [] := by
  change ((d.setInode d.next _).inodes d.next).content = []
  rw [inodes_setInode_self]

def unlink (d : Disk N β) (name : N) : Disk N β :=
  d.change fun dir => Function.update dir name none

/- In one step, as the system promises. -/
def rename
    (d : Disk N β)
    (old new : N)
    (i : Nat) :
    Disk N β :=
  d.change fun dir => Dir.move dir old new i

def append (d : Disk N β) (i : Nat) (data : List β) :
    Disk N β :=
  d.setInode i
    { d.inodes i with
      content := (d.inodes i).content ++ data
      synced := false }

def empty (d : Disk N β) (i : Nat) : Disk N β :=
  d.setInode i
    { d.inodes i with
      content := []
      synced := false }

def sync (d : Disk N β) (i : Nat) : Disk N β :=
  d.setInode i { d.inodes i with synced := true }

def syncDir (d : Disk N β) : Disk N β :=
  { d with maybe := {d.entries} }

/-
  What each operation may do, and how it may be answered.
  All of them may fail; a failed write has perhaps written.
-/
def Does (d : Disk N β) :
    (op : DiskOp N β) → op.Ans → Disk N β → Prop
| .makeDir, _, d' => d' = d
| .access name, there, d' =>
    there = (d.entries name).isSome ∧ d' = d
| .read name, found, d' =>
    (found = none ∨ found = d.reads name) ∧ d' = d
| .create _, none, d' => d' = d
| .create name, some fd, d' =>
    d.entries name = none ∧ fd = d.next ∧ d' = d.link name
| .truncate _, none, d' => d' = d
| .truncate name, some fd, d' =>
    (d.entries name = some fd ∧ d' = d.empty fd) ∨
      (d.entries name = none ∧ fd = d.next ∧
        d' = d.link name)
| .chmod _, _, d' => d' = d
| .write fd data, .wrote n, d' =>
    n ≤ data.length ∧ d' = d.append fd (data.take n)
| .write _ _, .interrupted, d' => d' = d
| .write fd _, .failed, d' =>
    ∃ junk, d' = d.append fd junk
| .fsync fd, true, d' => d' = d.sync fd
| .fsync _, false, d' => d' = d
| .close _, _, d' => d' = d
| .unlink name, true, d' => d' = d.unlink name
| .unlink _, false, d' => d' = d
| .rename old new, true, d' =>
    ∃ i, d.entries old = some i ∧ d' = d.rename old new i
| .rename _ _, false, d' => d' = d
| .syncDir, true, d' => d' = d.syncDir
| .syncDir, false, d' => d' = d

/- A disk on which nothing fails. -/
def calm :
    Program.Handler (DiskOp N β) DiskOp.Ans (Disk N β)
| .makeDir, d => (true, d)
| .access name, d => ((d.entries name).isSome, d)
| .read name, d => (d.reads name, d)
| .create name, d =>
    match d.entries name with
    | none => (some d.next, d.link name)
    | some _ => (none, d)
| .truncate name, d =>
    match d.entries name with
    | none => (some d.next, d.link name)
    | some fd => (some fd, d.empty fd)
| .chmod _, d => (true, d)
| .write fd data, d =>
    (.wrote data.length, d.append fd (data.take data.length))
| .fsync fd, d => (true, d.sync fd)
| .close _, d => (true, d)
| .unlink name, d => (true, d.unlink name)
| .rename old new, d =>
    match d.entries old with
    | none => (false, d)
    | some i => (true, d.rename old new i)
| .syncDir, d => (true, d.syncDir)

theorem calm_does (op : DiskOp N β) (d : Disk N β) :
    d.Does op (calm op d).1 (calm op d).2 := by
  cases op with
  | makeDir => rfl
  | access name => exact ⟨rfl, rfl⟩
  | read name => exact ⟨.inr rfl, rfl⟩
  | create name =>
      cases hName : d.entries name with
      | none => simp [calm, Does, hName]
      | some fd => simp [calm, Does, hName]
  | truncate name =>
      cases hName : d.entries name with
      | none => simp [calm, Does, hName]
      | some fd => simp [calm, Does, hName]
  | chmod fd => rfl
  | write fd data => exact ⟨le_refl _, rfl⟩
  | fsync fd => rfl
  | close fd => rfl
  | unlink name => rfl
  | rename old new =>
      cases hName : d.entries old with
      | none => simp [calm, Does, hName]
      | some i => simp [calm, Does, hName]
  | syncDir => rfl

end Names

/-
  The power fails: the directory is one of those it may be,
  and a file that was not synced holds anything.
-/
structure PowerCut (d d' : Disk N β) : Prop where
  entries : d'.entries ∈ d.maybe
  maybe : d'.maybe = {d'.entries}
  next : d'.next = d.next
  born : ∀ i, (d'.inodes i).born = (d.inodes i).born
  synced : ∀ i, (d'.inodes i).synced = true
  kept :
    ∀ i, (d.inodes i).synced = true →
      (d'.inodes i).content = (d.inodes i).content

/- It fails, and nothing that was in doubt is lost. -/
def dark (d : Disk N β) : Disk N β :=
  { d with
    inodes := fun i => { d.inodes i with synced := true }
    maybe := {d.entries} }

theorem powerCut_dark
    {d : Disk N β}
    (hEntries : d.entries ∈ d.maybe) :
    PowerCut d d.dark where
  entries := hEntries
  maybe := rfl
  next := rfl
  born _ := rfl
  synced _ := rfl
  kept _ _ := rfl

end Disk

------------------------------------------------------------
-- Folders
------------------------------------------------------------

/-
  A file is written under one name and kept under another;
  or, alone, written where it is kept.
-/
inductive FileName (T : Type) where
| file (t : T)
| temporary (t : T)
| lone (t : T)
deriving DecidableEq

/- The name that the file under a name was created under. -/
def FileName.origin {T : Type} : FileName T → FileName T
| .file t => .temporary t
| .temporary t => .temporary t
| .lone t => .lone t

/-
  What is there now, and what a power cut may leave; and of
  the files that are alone what is read now, whether it is
  on the disk, and whether a power cut leaves what is.
-/
structure Folder (T β : Type) where
  now : T → Option (List β)
  later : T → Set (Option (List β))
  alone : T → Option (List β)
  kept : T → Bool
  held : Bool

namespace Folder

variable {T β : Type}

variable [DecidableEq T]

/- New contents, which may not be there later. -/
def put (s : Folder T β) (t : T) (data : List β) :
    Folder T β :=
  { s with
    now := Function.update s.now t (some data)
    later :=
      Function.update s.later t
        (s.later t ∪ {some data}) }

theorem now_put_self
    (s : Folder T β) (t : T) (data : List β) :
    (s.put t data).now t = some data :=
  Function.update_self _ _ _

theorem now_put_of_ne
    (s : Folder T β) {t t' : T} (hNe : t' ≠ t)
    (data : List β) :
    (s.put t data).now t' = s.now t' :=
  Function.update_of_ne hNe _ _

theorem later_put_self
    (s : Folder T β) (t : T) (data : List β) :
    (s.put t data).later t = s.later t ∪ {some data} :=
  Function.update_self _ _ _

theorem later_put_of_ne
    (s : Folder T β) {t t' : T} (hNe : t' ≠ t)
    (data : List β) :
    (s.put t data).later t' = s.later t' :=
  Function.update_of_ne hNe _ _

theorem later_put
    (s : Folder T β) (t t' : T) (data : List β) :
    s.later t' ⊆ (s.put t data).later t' := by
  intro x hx
  by_cases hThis : t' = t
  · subst hThis
    rw [later_put_self]
    exact .inl hx
  · rwa [later_put_of_ne s hThis]

/- What was written where it is kept, or what is left. -/
def scribble
    (s : Folder T β)
    (t : T)
    (data : Option (List β)) :
    Folder T β :=
  { s with alone := Function.update s.alone t data }

@[simp] theorem scribble_scribble
    (s : Folder T β) (t : T) (data more : Option (List β)) :
    (s.scribble t data).scribble t more =
      s.scribble t more := by
  rw [scribble, scribble, scribble, Function.update_idem]

theorem scribble_same (s : Folder T β) (t : T) :
    s.scribble t (s.alone t) = s := by
  rw [scribble, Function.update_eq_self]

@[simp] theorem alone_scribble_self
    (s : Folder T β) (t : T) (data : Option (List β)) :
    (s.scribble t data).alone t = data :=
  Function.update_self _ _ _

/- It is on the disk, as far as the directory is. -/
def keep (s : Folder T β) (t : T) : Folder T β :=
  { s with
    kept := Function.update s.kept t true
    held := false }

@[simp] theorem alone_keep (s : Folder T β) (t : T) :
    (s.keep t).alone = s.alone :=
  rfl

theorem kept_keep_self (s : Folder T β) (t : T) :
    (s.keep t).kept t = true :=
  Function.update_self _ _ _

/-
  After a power cut: one of the contents that were in doubt,
  and of the files that are alone what was held; and nothing
  is in doubt any more.
-/
structure Fallen (s s' : Folder T β) : Prop where
  now : ∀ t, s'.now t ∈ s.later t
  later : ∀ t, s'.later t = {s'.now t}
  alone :
    s.held = true →
      ∀ t, s.kept t = true → s'.alone t = s.alone t
  kept : ∀ t, s'.kept t = (s'.alone t).isSome
  held : s'.held = true

/- What is there is there to stay. -/
def settle (s : Folder T β) : Folder T β :=
  { s with later := fun t => {s.now t}, held := true }

end Folder

namespace Disk

variable {T β : Type}

/-
  The disk holds the files of the folder that are replaced.
  Whatever directory a power cut may leave, those under
  their names are synced, and the one being written is none
  of them.
-/
structure HoldsFiles
    (d : Disk (FileName T) β)
    (s : Folder T β) : Prop where
  entries : d.entries ∈ d.maybe
  now : ∀ t, d.reads (.file t) = s.now t
  later :
    ∀ dir ∈ d.maybe, ∀ t,
      (dir (.file t)).map (fun i => (d.inodes i).content) ∈
        s.later t
  synced :
    ∀ dir ∈ d.maybe, ∀ t i,
      dir (.file t) = some i → (d.inodes i).synced = true
  old :
    ∀ dir ∈ d.maybe, ∀ name i,
      dir name = some i → i < d.next
  born :
    ∀ dir ∈ d.maybe, ∀ name i,
      dir name = some i →
        (d.inodes i).born = name.origin
  apart :
    ∀ dir ∈ d.maybe, ∀ t i,
      dir (.file t) = some i → dir (.temporary t) ≠ some i
  spare :
    ∀ dir ∈ d.maybe, ∀ t i,
      dir (.file t) = some i →
        d.entries (.temporary t) ≠ some i

/- And those that are alone. -/
structure HoldsAlone
    (d : Disk (FileName T) β)
    (s : Folder T β) : Prop where
  alone : ∀ t, d.reads (.lone t) = s.alone t
  kept :
    ∀ t, s.kept t = true →
      ∃ i, d.entries (.lone t) = some i ∧
        (d.inodes i).synced = true
  held :
    s.held = true →
      ∀ t, s.kept t = true →
        ∀ dir ∈ d.maybe,
          dir (.lone t) = d.entries (.lone t)

/- The disk holds what is in the folder. -/
structure Holds
    (d : Disk (FileName T) β)
    (s : Folder T β) : Prop where
  files : d.HoldsFiles s
  lone : d.HoldsAlone s

section Files

variable {d : Disk (FileName T) β} {s : Folder T β}

theorem reads_eq
    {inodes : Nat → Inode (FileName T) β}
    {dir : Dir (FileName T)} {name : FileName T}
    (hSame :
      ∀ i, dir name = some i → inodes i = d.inodes i) :
    (dir name).map (fun i => (inodes i).content) =
      (dir name).map fun i => (d.inodes i).content := by
  apply Option.map_congr
  intro i hName
  rw [hSame i hName]

theorem inodes_setInode_of_ne
    {i j : Nat} (hNe : j ≠ i)
    (inode : Inode (FileName T) β) :
    (d.setInode i inode).inodes j = d.inodes j :=
  Function.update_of_ne hNe _ _

namespace HoldsFiles

/- Of those that are alone it says nothing. -/
theorem congr
    {s' : Folder T β}
    (hFiles : d.HoldsFiles s)
    (hNow : s'.now = s.now)
    (hLater : s'.later = s.later) :
    d.HoldsFiles s' where
  entries := hFiles.entries
  now := by
    rw [hNow]
    exact hFiles.now
  later := by
    rw [hLater]
    exact hFiles.later
  synced := hFiles.synced
  old := hFiles.old
  born := hFiles.born
  apart := hFiles.apart
  spare := hFiles.spare

/- A file that is under none of their names may change. -/
theorem setInode
    (hFiles : d.HoldsFiles s)
    {i : Nat}
    (hNone :
      ∀ dir ∈ d.maybe, ∀ t, dir (.file t) ≠ some i)
    {inode : Inode (FileName T) β}
    (hBorn :
      ∀ dir ∈ d.maybe, ∀ name, dir name = some i →
        inode.born = (d.inodes i).born) :
    (d.setInode i inode).HoldsFiles s := by
  have hSame :
      ∀ dir ∈ d.maybe, ∀ t j, dir (.file t) = some j →
        (d.setInode i inode).inodes j = d.inodes j := by
    intro dir hDir t j hFile
    apply inodes_setInode_of_ne
    rintro rfl
    exact hNone dir hDir t hFile
  exact
    { entries := hFiles.entries
      now := by
        intro t
        rw [← hFiles.now t]
        exact reads_eq (hSame _ hFiles.entries t)
      later := by
        intro dir hDir t
        rw [reads_eq (hSame dir hDir t)]
        exact hFiles.later dir hDir t
      synced := by
        intro dir hDir t j hFile
        rw [hSame dir hDir t j hFile]
        exact hFiles.synced dir hDir t j hFile
      old := hFiles.old
      born := by
        intro dir hDir name j hName
        rw [← hFiles.born dir hDir name j hName]
        by_cases hThis : j = i
        · subst hThis
          rw [inodes_setInode_self]
          exact hBorn dir hDir name hName
        · rw [inodes_setInode_of_ne hThis]
      apart := hFiles.apart
      spare := hFiles.spare }

/- What is under another name may change. -/
theorem overwrite
    (hFiles : d.HoldsFiles s)
    {name : FileName T} {i : Nat}
    (hLoose : ∀ t, name ≠ .file t)
    (hThere : d.entries name = some i)
    {inode : Inode (FileName T) β}
    (hBorn : inode.born = (d.inodes i).born) :
    (d.setInode i inode).HoldsFiles s := by
  apply hFiles.setInode
  · intro dir hDir t hFile
    have hHere :=
      hFiles.born d.entries hFiles.entries _ i hThere
    rw [hFiles.born dir hDir _ i hFile] at hHere
    cases name with
    | file t' => exact hLoose t' rfl
    | temporary t' =>
        cases hHere
        exact hFiles.spare dir hDir t i hFile hThere
    | lone t' => cases hHere
  · exact fun _ _ _ _ => hBorn

/-
  A change that leaves them alone, and makes up none but new
  ones.
-/
theorem change
    (hFiles : d.HoldsFiles s)
    {f : Dir (FileName T) → Dir (FileName T)}
    {n : Nat}
    (hNext : d.next ≤ n)
    (hSame : ∀ dir t, f dir (.file t) = dir (.file t))
    (hOthers :
      ∀ dir name i, (∀ t, name ≠ .file t) →
        f dir name = some i →
          dir name = some i ∨
            (d.next ≤ i ∧ i < n ∧
              (d.inodes i).born = name.origin)) :
    { d.change f with next := n }.HoldsFiles s := by
  have hCases :
      ∀ dir ∈ (d.change f).maybe,
        ∃ before ∈ d.maybe,
          (∀ t, dir (.file t) = before (.file t)) ∧
          ∀ name i, (∀ t, name ≠ .file t) →
            dir name = some i →
              before name = some i ∨
                (d.next ≤ i ∧ i < n ∧
                  (d.inodes i).born = name.origin) := by
    rintro _ (hDir | ⟨dir, hDir, rfl⟩)
    · exact ⟨_, hDir, fun _ => rfl, fun _ _ _ h => .inl h⟩
    · exact ⟨dir, hDir, hSame dir, hOthers dir⟩
  exact
    { entries := .inr ⟨d.entries, hFiles.entries, rfl⟩
      now := by
        intro t
        rw [← hFiles.now t]
        change
          (f d.entries (.file t)).map _ =
            (d.entries (.file t)).map _
        rw [hSame]
        rfl
      later := by
        intro dir hDir t
        rcases hCases dir hDir with ⟨before, hIn, hFile, -⟩
        rw [hFile]
        exact hFiles.later before hIn t
      synced := by
        intro dir hDir t i hName
        rcases hCases dir hDir with ⟨before, hIn, hFile, -⟩
        rw [hFile] at hName
        exact hFiles.synced before hIn t i hName
      old := by
        intro dir hDir name i hName
        rcases hCases dir hDir with
          ⟨before, hIn, hFile, hOld⟩
        by_cases hThis : ∃ t, name = .file t
        · rcases hThis with ⟨t, rfl⟩
          rw [hFile] at hName
          exact (hFiles.old before hIn _ i hName).trans_le
            hNext
        · rcases hOld name i (not_exists.mp hThis) hName with
            hOld | ⟨-, hNew, -⟩
          · exact (hFiles.old before hIn _ i hOld).trans_le
              hNext
          · exact hNew
      born := by
        intro dir hDir name i hName
        rcases hCases dir hDir with
          ⟨before, hIn, hFile, hOld⟩
        by_cases hThis : ∃ t, name = .file t
        · rcases hThis with ⟨t, rfl⟩
          rw [hFile] at hName
          exact hFiles.born before hIn _ i hName
        · rcases hOld name i (not_exists.mp hThis) hName with
            hOld | ⟨-, -, hBorn⟩
          · exact hFiles.born before hIn name i hOld
          · exact hBorn
      apart := by
        intro dir hDir t i hName hTemporary
        rcases hCases dir hDir with
          ⟨before, hIn, hFile, hOld⟩
        rw [hFile] at hName
        rcases hOld _ i (by simp) hTemporary with
          hOld | ⟨hNew, -⟩
        · exact hFiles.apart before hIn t i hName hOld
        · have hBefore := hFiles.old before hIn _ i hName
          omega
      spare := by
        intro dir hDir t i hName hTemporary
        rcases hCases dir hDir with ⟨before, hIn, hFile, -⟩
        rw [hFile] at hName
        rcases hOthers _ _ i (by simp) hTemporary with
          hOld | ⟨hNew, -⟩
        · exact hFiles.spare before hIn t i hName hOld
        · have hBefore := hFiles.old before hIn _ i hName
          omega }

theorem syncDir (hFiles : d.HoldsFiles s) :
    d.syncDir.HoldsFiles s.settle := by
  have hHere :
      ∀ dir ∈ d.syncDir.maybe, dir ∈ d.maybe := by
    rintro _ rfl
    exact hFiles.entries
  exact
    { entries := rfl
      now := hFiles.now
      later := by
        rintro _ rfl t
        exact hFiles.now t
      synced := fun dir hDir =>
        hFiles.synced dir (hHere dir hDir)
      old := fun dir hDir => hFiles.old dir (hHere dir hDir)
      born := fun dir hDir =>
        hFiles.born dir (hHere dir hDir)
      apart := fun dir hDir =>
        hFiles.apart dir (hHere dir hDir)
      spare := fun dir hDir =>
        hFiles.spare dir (hHere dir hDir) }

section Names

variable [DecidableEq T]

/- A new file, of another name. -/
theorem link
    (hFiles : d.HoldsFiles s)
    {name : FileName T}
    (hLoose : ∀ t, name ≠ .file t) :
    (d.link name).HoldsFiles s := by
  have hFresh :
      ∀ dir ∈ d.maybe, ∀ name,
        dir name ≠ some d.next := by
    intro dir hDir name hName
    exact absurd (hFiles.old dir hDir name _ hName)
      (Nat.lt_irrefl _)
  have hSet :
      (d.setInode d.next { born := name }).HoldsFiles s :=
    hFiles.setInode
      (fun dir hDir t => hFresh dir hDir (.file t))
      (fun dir hDir name hName =>
        absurd hName (hFresh dir hDir name))
  apply hSet.change (Nat.le_succ d.next)
  · intro dir t
    exact Function.update_of_ne (hLoose t).symm _ _
  · intro dir name' i _ hName
    by_cases hThis : name' = name
    · subst hThis
      rw [Function.update_self] at hName
      cases hName
      refine
        .inr ⟨Nat.le_refl _, Nat.lt_succ_self _, ?_⟩
      rw [inodes_setInode_self]
      cases name' with
      | file t => exact absurd rfl (hLoose t)
      | temporary t => rfl
      | lone t => rfl
    · rw [Function.update_of_ne hThis] at hName
      exact .inl hName

/- Another name goes. -/
theorem unlink
    (hFiles : d.HoldsFiles s)
    {name : FileName T}
    (hLoose : ∀ t, name ≠ .file t) :
    (d.unlink name).HoldsFiles s := by
  refine
    hFiles.change
      (f := fun dir => Function.update dir name none)
      (Nat.le_refl d.next) ?_ ?_
  · intro dir t
    exact Function.update_of_ne (hLoose t).symm _ _
  · intro dir name' i _ hName
    by_cases hThis : name' = name
    · subst hThis
      rw [Function.update_self] at hName
      cases hName
    · rw [Function.update_of_ne hThis] at hName
      exact .inl hName

/-
  What was written, and is synced, is put in place: it is
  there now, and a power cut may leave it or what was there.
-/
theorem rename
    (hFiles : d.HoldsFiles s)
    {t : T} {i : Nat} {data : List β}
    (hTemporary : d.entries (.temporary t) = some i)
    (hSynced : (d.inodes i).synced = true)
    (hContent : (d.inodes i).content = data) :
    (d.rename (.temporary t) (.file t) i).HoldsFiles
      (s.put t data) := by
  have hBornHere :=
    hFiles.born _ hFiles.entries _ i hTemporary
  have hFile : ∀ (dir : Dir (FileName T)) (t' : T),
      t' ≠ t →
        dir.move (.temporary t) (.file t) i (.file t') =
          dir (.file t') := by
    intro dir t' hNe
    exact dir.move_other (by simp) (by simp [hNe]) i
  have hTemp : ∀ (dir : Dir (FileName T)) (t' : T),
      t' ≠ t →
        dir.move (.temporary t) (.file t) i
            (.temporary t') =
          dir (.temporary t') := by
    intro dir t' hNe
    exact dir.move_other (by simp [hNe]) (by simp) i
  have hPlace : ∀ dir : Dir (FileName T),
      dir.move (.temporary t) (.file t) i (.file t) =
        some i :=
    fun dir => dir.move_new (by simp) i
  have hMaybe :
      ∀ dir ∈
          (d.rename (.temporary t) (.file t) i).maybe,
        dir ∈ d.maybe ∨
          ∃ before ∈ d.maybe,
            dir =
              before.move (.temporary t) (.file t) i := by
    rintro _ (hDir | ⟨before, hDir, rfl⟩)
    · exact .inl hDir
    · exact .inr ⟨before, hDir, rfl⟩
  exact
    { entries := .inr ⟨d.entries, hFiles.entries, rfl⟩
      now := by
        intro t'
        change
          (Dir.move d.entries (.temporary t) (.file t) i
              (.file t')).map _ = _
        by_cases hThis : t' = t
        · subst hThis
          rw [hPlace, Folder.now_put_self, ← hContent]
          rfl
        · rw [hFile _ _ hThis, Folder.now_put_of_ne s hThis,
            ← hFiles.now t']
          rfl
      later := by
        intro _ hIn t'
        rcases hMaybe _ hIn with hDir | ⟨dir, hDir, rfl⟩
        · exact s.later_put t t' data
            (hFiles.later _ hDir t')
        · by_cases hThis : t' = t
          · subst hThis
            rw [hPlace, Folder.later_put_self, ← hContent]
            exact .inr rfl
          · rw [hFile _ _ hThis,
              Folder.later_put_of_ne s hThis]
            exact hFiles.later dir hDir t'
      synced := by
        intro _ hIn t' j hName
        rcases hMaybe _ hIn with hDir | ⟨dir, hDir, rfl⟩
        · exact hFiles.synced _ hDir t' j hName
        · by_cases hThis : t' = t
          · subst hThis
            rw [hPlace] at hName
            cases hName
            exact hSynced
          · rw [hFile _ _ hThis] at hName
            exact hFiles.synced dir hDir t' j hName
      old := by
        intro _ hIn name j hName
        rcases hMaybe _ hIn with hDir | ⟨dir, hDir, rfl⟩
        · exact hFiles.old _ hDir name j hName
        · by_cases hGone : name = .temporary t
          · subst hGone
            rw [Dir.move_old] at hName
            cases hName
          by_cases hThis : name = .file t
          · subst hThis
            rw [hPlace] at hName
            cases hName
            exact hFiles.old _ hFiles.entries _ i hTemporary
          · rw [Dir.move_other _ hGone hThis] at hName
            exact hFiles.old dir hDir name j hName
      born := by
        intro _ hIn name j hName
        rcases hMaybe _ hIn with hDir | ⟨dir, hDir, rfl⟩
        · exact hFiles.born _ hDir name j hName
        · by_cases hGone : name = .temporary t
          · subst hGone
            rw [Dir.move_old] at hName
            cases hName
          by_cases hThis : name = .file t
          · subst hThis
            rw [hPlace] at hName
            cases hName
            exact hBornHere
          · rw [Dir.move_other _ hGone hThis] at hName
            exact hFiles.born dir hDir name j hName
      apart := by
        intro _ hIn t' j hName
        rcases hMaybe _ hIn with hDir | ⟨dir, hDir, rfl⟩
        · exact hFiles.apart _ hDir t' j hName
        · by_cases hThis : t' = t
          · subst hThis
            rw [Dir.move_old]
            simp
          · rw [hFile _ _ hThis] at hName
            rw [hTemp _ _ hThis]
            exact hFiles.apart dir hDir t' j hName
      spare := by
        intro dir hIn t' j hName
        change Dir.move d.entries _ _ i _ ≠ some j
        by_cases hThis : t' = t
        · subst hThis
          rw [Dir.move_old]
          simp
        · rw [hTemp _ _ hThis]
          rcases hMaybe _ hIn with
            hDir | ⟨before, hDir, rfl⟩
          · exact hFiles.spare dir hDir t' j hName
          · rw [hFile _ _ hThis] at hName
            exact hFiles.spare before hDir t' j hName }

end Names

end HoldsFiles

namespace HoldsAlone

theorem setInode
    (hLone : d.HoldsAlone s)
    {i : Nat}
    (hNone : ∀ t, d.entries (.lone t) ≠ some i)
    (inode : Inode (FileName T) β) :
    (d.setInode i inode).HoldsAlone s := by
  have hSame :
      ∀ t j, d.entries (.lone t) = some j →
        (d.setInode i inode).inodes j = d.inodes j := by
    intro t j hThere
    apply inodes_setInode_of_ne
    rintro rfl
    exact hNone t hThere
  exact
    { alone := by
        intro t
        rw [← hLone.alone t]
        exact reads_eq (hSame t)
      kept := by
        intro t hKept
        rcases hLone.kept t hKept with ⟨j, hThere, hSynced⟩
        refine ⟨j, hThere, ?_⟩
        rw [hSame t j hThere]
        exact hSynced
      held := hLone.held }

/- A change of the directory that leaves them alone. -/
theorem change
    (hLone : d.HoldsAlone s)
    {f : Dir (FileName T) → Dir (FileName T)}
    {n : Nat}
    (hSame : ∀ dir t, f dir (.lone t) = dir (.lone t)) :
    { d.change f with next := n }.HoldsAlone s where
  alone := by
    intro t
    rw [← hLone.alone t]
    change
      (f d.entries (.lone t)).map _ =
        (d.entries (.lone t)).map _
    rw [hSame]
    rfl
  kept := by
    intro t hKept
    rcases hLone.kept t hKept with ⟨i, hThere, hSynced⟩
    exact ⟨i, (hSame _ t).trans hThere, hSynced⟩
  held := by
    intro hHeld t hKept dir hDir
    have hHere := hLone.held hHeld t hKept
    rcases hDir with hDir | ⟨before, hDir, rfl⟩
    · exact (hHere dir hDir).trans (hSame _ t).symm
    · exact ((hSame before t).trans (hHere before hDir)).trans
        (hSame _ t).symm

end HoldsAlone

------------------------------------------------------------
-- What Is Done To A Disk
------------------------------------------------------------

namespace Holds

theorem now_mem (hHolds : d.Holds s) (t : T) :
    s.now t ∈ s.later t := by
  rw [← hHolds.files.now t]
  exact hHolds.files.later _ hHolds.files.entries t

/- What is being written beside the others may change. -/
theorem overwrite
    (hHolds : d.Holds s)
    {t : T} {i : Nat}
    (hTemporary : d.entries (.temporary t) = some i)
    {inode : Inode (FileName T) β}
    (hBorn : inode.born = (d.inodes i).born) :
    (d.setInode i inode).Holds s where
  files := hHolds.files.overwrite (by simp) hTemporary hBorn
  lone := by
    apply hHolds.lone.setInode
    intro t' hThere
    have hHere :=
      hHolds.files.born _ hHolds.files.entries _ i
        hTemporary
    rw [hHolds.files.born _ hHolds.files.entries _ i hThere]
      at hHere
    cases hHere

/- The directory is synced, and nothing is in doubt. -/
theorem syncDir (hHolds : d.Holds s) :
    d.syncDir.Holds s.settle where
  files := hHolds.files.syncDir
  lone :=
    { alone := hHolds.lone.alone
      kept := hHolds.lone.kept
      held := by
        rintro - t - _ rfl
        rfl }

/-
  The power fails: what comes back is one of the contents
  that were in doubt, and no longer is.
-/
theorem powerCut
    {d' : Disk (FileName T) β}
    (hHolds : d.Holds s)
    (hCut : PowerCut d d') :
    ∃ s', d'.Holds s' ∧ Folder.Fallen s s' := by
  have hIn : ∀ dir ∈ d'.maybe, dir = d'.entries := by
    intro dir hDir
    rwa [hCut.maybe] at hDir
  refine
    ⟨{ now := fun t => d'.reads (.file t)
       later := fun t => {d'.reads (.file t)}
       alone := fun t => d'.reads (.lone t)
       kept := fun t => (d'.reads (.lone t)).isSome
       held := true },
      { files := ?_, lone := ?_ }, ?_⟩
  · exact
      { entries := by
          rw [hCut.maybe]
          rfl
        now := fun _ => rfl
        later := by
          intro dir hDir t
          rw [hIn dir hDir]
          rfl
        synced := fun _ _ _ i _ => hCut.synced i
        old := by
          intro dir hDir name i hName
          rw [hIn dir hDir] at hName
          rw [hCut.next]
          exact hHolds.files.old _ hCut.entries name i hName
        born := by
          intro dir hDir name i hName
          rw [hIn dir hDir] at hName
          rw [hCut.born]
          exact hHolds.files.born _ hCut.entries name i hName
        apart := by
          intro dir hDir t i hFile
          rw [hIn dir hDir] at hFile ⊢
          exact hHolds.files.apart _ hCut.entries t i hFile
        spare := by
          intro dir hDir t i hFile
          rw [hIn dir hDir] at hFile
          exact hHolds.files.apart _ hCut.entries t i hFile }
  · exact
      { alone := fun _ => rfl
        kept := by
          intro t hThere
          rcases Option.isSome_iff_exists.mp hThere with
            ⟨data, hData⟩
          rcases Option.map_eq_some_iff.mp hData with
            ⟨i, hName, -⟩
          exact ⟨i, hName, hCut.synced i⟩
        held := by
          intro _ t _ dir hDir
          rw [hIn dir hDir] }
  · exact
      { now := by
          intro t
          have hLater :=
            hHolds.files.later _ hCut.entries t
          have hSame :
              d'.reads (.file t) =
                (d'.entries (.file t)).map fun i =>
                  (d.inodes i).content := by
            apply Option.map_congr
            intro i hFile
            exact hCut.kept i
              (hHolds.files.synced _ hCut.entries t i hFile)
          rw [← hSame] at hLater
          exact hLater
        later := fun _ => rfl
        alone := by
          intro hHeld t hKept
          rcases hHolds.lone.kept t hKept with
            ⟨i, hThere, hSynced⟩
          have hHere :=
            hHolds.lone.held hHeld t hKept _ hCut.entries
          rw [← hHolds.lone.alone t]
          change
            (d'.entries (.lone t)).map _ =
              (d.entries (.lone t)).map _
          rw [hHere, hThere]
          exact congrArg some (hCut.kept i hSynced)
        kept := fun _ => rfl
        held := rfl }

section Names

variable [DecidableEq T]

/- What was being written is given up. -/
theorem unlink (hHolds : d.Holds s) (t : T) :
    (d.unlink (.temporary t)).Holds s where
  files := hHolds.files.unlink (by simp)
  lone :=
    hHolds.lone.change
      (f := fun dir =>
        Function.update dir (.temporary t) none)
      (fun _ _ => Function.update_of_ne (by simp) _ _)

/- Opened, there is an empty file beside the old one. -/
theorem truncate
    {d' : Disk (FileName T) β} {fd : Nat}
    (hHolds : d.Holds s)
    (t : T)
    (hDoes :
      d.Does (.truncate (.temporary t)) (some fd) d') :
    d'.Holds s ∧
      d'.entries (.temporary t) = some fd ∧
        (d'.inodes fd).content = [] := by
  rcases hDoes with ⟨hThere, rfl⟩ | ⟨-, rfl, rfl⟩
  · refine ⟨hHolds.overwrite hThere rfl, hThere, ?_⟩
    rw [empty, inodes_setInode_self]
  · have hFresh :
        ∀ t', d.entries (.lone t') ≠ some d.next := by
      intro t' hName
      exact absurd
        (hHolds.files.old _ hHolds.files.entries _ _ hName)
        (Nat.lt_irrefl _)
    refine ⟨⟨hHolds.files.link (by simp), ?_⟩,
      d.entries_link _, d.content_link _⟩
    apply (hHolds.lone.setInode hFresh _).change
    exact fun _ _ => Function.update_of_ne (by simp) _ _

/- What was written beside the others is put in place. -/
theorem rename
    (hHolds : d.Holds s)
    {t : T} {i : Nat} {data : List β}
    (hTemporary : d.entries (.temporary t) = some i)
    (hSynced : (d.inodes i).synced = true)
    (hContent : (d.inodes i).content = data) :
    (d.rename (.temporary t) (.file t) i).Holds
      (s.put t data) where
  files := hHolds.files.rename hTemporary hSynced hContent
  lone := by
    have hMoved :
        (d.rename (.temporary t) (.file t) i).HoldsAlone
          s :=
      hHolds.lone.change fun dir t' =>
        dir.move_other (by simp) (by simp) i
    exact
      { alone := hMoved.alone
        kept := hMoved.kept
        held := hMoved.held }

/- A file that is alone and not known to be kept changes. -/
theorem scribble
    (hHolds : d.Holds s)
    {t : T} {i : Nat}
    (hThere : d.entries (.lone t) = some i)
    (hLoose : s.kept t = false)
    {inode : Inode (FileName T) β}
    (hBorn : inode.born = (d.inodes i).born) :
    (d.setInode i inode).Holds
      (s.scribble t (some inode.content)) where
  files :=
    (hHolds.files.overwrite (by simp) hThere hBorn).congr
      rfl rfl
  lone := by
    have hOthers :
        ∀ t', t' ≠ t → ∀ j,
          d.entries (.lone t') = some j →
            (d.setInode i inode).inodes j = d.inodes j := by
      intro t' hNe j hName
      apply inodes_setInode_of_ne
      rintro rfl
      have hHere :=
        hHolds.files.born _ hHolds.files.entries _ j hThere
      rw [hHolds.files.born _ hHolds.files.entries _ j hName]
        at hHere
      exact hNe (FileName.lone.inj hHere)
    exact
      { alone := by
          intro t'
          change
            _ =
              Function.update s.alone t
                (some inode.content) t'
          by_cases hThis : t' = t
          · subst hThis
            rw [Function.update_self]
            change
              (d.entries (.lone t')).map (fun j =>
                ((d.setInode i inode).inodes j).content) = _
            rw [hThere, Option.map_some,
              inodes_setInode_self]
          · rw [Function.update_of_ne hThis,
              ← hHolds.lone.alone t']
            exact reads_eq (hOthers t' hThis)
        kept := by
          intro t' hKept
          have hNe : t' ≠ t := by
            rintro rfl
            rw [show s.kept t' = true from hKept] at hLoose
            cases hLoose
          rcases hHolds.lone.kept t' hKept with
            ⟨j, hName, hSynced⟩
          refine ⟨j, hName, ?_⟩
          rw [hOthers t' hNe j hName]
          exact hSynced
        held := hHolds.lone.held }

/- The name of one goes, or comes to stand for another. -/
theorem changeLone
    (hHolds : d.Holds s)
    {t : T}
    (hLoose : s.kept t = false)
    (there : Option Nat)
    {n : Nat}
    (hFiles :
      { d.change fun dir =>
          Function.update dir (.lone t) there with
        next := n }.HoldsFiles s) :
    { d.change fun dir =>
          Function.update dir (.lone t) there with
        next := n }.Holds
      (s.scribble t
        (there.map fun i => (d.inodes i).content)) where
  files := hFiles.congr rfl rfl
  lone := by
    have hOthers :
        ∀ (dir : Dir (FileName T)) (t' : T), t' ≠ t →
          Function.update dir (.lone t) there (.lone t') =
            dir (.lone t') := by
      intro dir t' hNe
      exact Function.update_of_ne (by simp [hNe]) _ _
    have hKeptNe :
        ∀ t', s.kept t' = true → t' ≠ t := by
      rintro t' hKept rfl
      rw [hKept] at hLoose
      cases hLoose
    exact
      { alone := by
          intro t'
          change
            (Function.update d.entries (.lone t) there
                (.lone t')).map _ =
              Function.update s.alone t _ t'
          by_cases hThis : t' = t
          · subst hThis
            rw [Function.update_self, Function.update_self]
            rfl
          · rw [hOthers _ _ hThis,
              Function.update_of_ne hThis,
              ← hHolds.lone.alone t']
            rfl
        kept := by
          intro t' hKept
          rcases hHolds.lone.kept t' hKept with
            ⟨i, hThere, hSynced⟩
          exact
            ⟨i, (hOthers _ t' (hKeptNe t' hKept)).trans
              hThere, hSynced⟩
        held := by
          intro hHeld t' hKept dir hDir
          have hNe := hKeptNe t' hKept
          have hHere := hHolds.lone.held hHeld t' hKept
          have hNow := hOthers d.entries t' hNe
          rcases hDir with hDir | ⟨before, hDir, rfl⟩
          · exact (hHere dir hDir).trans hNow.symm
          · exact
              ((hOthers before t' hNe).trans
                (hHere before hDir)).trans hNow.symm }

/- One is created, where there was none. -/
theorem create
    (hHolds : d.Holds s)
    {t : T}
    (hNone : d.entries (.lone t) = none) :
    s.kept t = false ∧
      (d.link (.lone t)).Holds (s.scribble t (some [])) := by
  have hLoose : s.kept t = false := by
    cases hKept : s.kept t with
    | false => rfl
    | true =>
        rcases hHolds.lone.kept t hKept with ⟨i, hThere, -⟩
        rw [hNone] at hThere
        cases hThere
  have hFresh :
      ∀ t', d.entries (.lone t') ≠ some d.next := by
    intro t' hName
    exact absurd
      (hHolds.files.old _ hHolds.files.entries _ _ hName)
      (Nat.lt_irrefl _)
  have hSet :
      (d.setInode d.next { born := .lone t }).Holds s :=
    { files :=
        hHolds.files.setInode
          (fun dir hDir t' hName =>
            absurd (hHolds.files.old dir hDir _ _ hName)
              (Nat.lt_irrefl _))
          (fun dir hDir name hName =>
            absurd (hHolds.files.old dir hDir _ _ hName)
              (Nat.lt_irrefl _))
      lone := hHolds.lone.setInode hFresh _ }
  refine ⟨hLoose, ?_⟩
  have hChanged :=
    hSet.changeLone hLoose (some d.next)
      (hHolds.files.link (by simp))
  rw [Option.map_some, inodes_setInode_self] at hChanged
  exact hChanged

/- One that was not known to be kept goes. -/
theorem erase
    (hHolds : d.Holds s)
    {t : T}
    (hLoose : s.kept t = false) :
    (d.unlink (.lone t)).Holds (s.scribble t none) :=
  hHolds.changeLone hLoose none
    (hHolds.files.unlink (by simp))

/- One that is written and synced is kept. -/
theorem keep
    (hHolds : d.Holds s)
    {t : T} {i : Nat}
    (hThere : d.entries (.lone t) = some i)
    (hSynced : (d.inodes i).synced = true) :
    d.Holds (s.keep t) where
  files := hHolds.files.congr rfl rfl
  lone :=
    { alone := hHolds.lone.alone
      kept := by
        intro t' hKept
        by_cases hThis : t' = t
        · subst hThis
          exact ⟨i, hThere, hSynced⟩
        · change
            Function.update s.kept t true t' = true at hKept
          rw [Function.update_of_ne hThis] at hKept
          exact hHolds.lone.kept t' hKept
      held := by
        intro hHeld
        cases hHeld }

end Names

end Holds

end Files

end Disk
