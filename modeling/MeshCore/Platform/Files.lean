import MeshCore.Defines
import MeshCore.Library.Disk
import MeshCore.Library.Run

/-
  How a file is replaced: written beside the old one, synced
  and renamed. Each step may fail, a write may be partial or
  interrupted, and the power may fail before any step.

  The overlay, the contacts and the state of the room are
  replaced by three functions, which do not give up in the
  same way; the last does not sync the directory.

  Key definitions include:
    * `FileM`
    * `writeLoop`, `writeFile`
    * `Platform.writeAtomicFile`, `Store.flushFile`,
      `Room.flushFile`
    * `Toward`, `Came`

  Key facts include:
    * `writeLoop_guards`
    * `writeAtomicFile_guards`, `replaceFile_guards`
-/

namespace MeshCore

/- Work on the files of one directory. -/
abbrev FileM (T : Type) :=
  Program (DiskOp (FileName T) UInt8) DiskOp.Ans

abbrev FileCall (T : Type) :=
  Program.Answered (DiskOp (FileName T) UInt8) DiskOp.Ans

------------------------------------------------------------
-- The Functions
------------------------------------------------------------

section Functions

variable {T : Type}

/-
  Until all is written, at most `n` rounds. Interrupted, it
  goes round again; it is none while it goes round.
-/
def writeLoop
    (fd : Nat) :
    Nat → Bytes → FileM T (Option Bool)
| _, [] => return some true
| 0, _ :: _ => return none
| n + 1, b :: data => do
    let ans ←
      (.perform (DiskOp.write fd (b :: data)) :
        FileM T WriteAns)
    match ans with
    | .interrupted => writeLoop fd n (b :: data)
    | .failed => return some false
    | .wrote m => writeLoop fd n ((b :: data).drop m)

/- The end of `writeContacts` and of `writeState`. -/
def writeFile
    (n : Nat)
    (name : FileName T)
    (blob : Bytes) :
    FileM T (Option Bool) := do
  let opened ←
    (.perform (DiskOp.truncate name) : FileM T (Option Nat))
  match opened with
  | none => return some false
  | some fd =>
      let wrote ← writeLoop fd n blob
      match wrote with
      | none => return none
      | some false =>
          let _ ←
            (.perform (DiskOp.close fd) : FileM T Bool)
          return some false
      | some true =>
          let synced ←
            (.perform (DiskOp.fsync fd) : FileM T Bool)
          if !synced then
            let _ ←
              (.perform (DiskOp.close fd) : FileM T Bool)
            return some false
          let closed ←
            (.perform (DiskOp.close fd) : FileM T Bool)
          return some closed

/- Beside the old file, and then over it. -/
def replaceFile
    (syncs : Bool)
    (n : Nat)
    (t : T)
    (blob : Bytes) :
    FileM T (Option Bool) := do
  let wrote ← writeFile n (.temporary t) blob
  match wrote with
  | none => return none
  | some false =>
      let _ ←
        (.perform (DiskOp.unlink (.temporary t)) :
          FileM T Bool)
      return some false
  | some true =>
      let renamed ←
        (.perform (DiskOp.rename (.temporary t) (.file t)) :
          FileM T Bool)
      if !renamed then
        let _ ←
          (.perform (DiskOp.unlink (.temporary t)) :
            FileM T Bool)
        return some false
      if syncs then
        let _ ← (.perform DiskOp.syncDir : FileM T Bool)
        return some true
      return some true

/- A file that is not synced is given up without a close. -/
def Platform.writeAtomicFile
    (n : Nat)
    (t : T)
    (data : Bytes) :
    FileM T (Option Bool) := do
  let opened ←
    (.perform (DiskOp.truncate (.temporary t)) :
      FileM T (Option Nat))
  match opened with
  | none => return some false
  | some fd =>
      let wrote ← writeLoop fd n data
      match wrote with
      | none => return none
      | some false =>
          let _ ←
            (.perform (DiskOp.close fd) : FileM T Bool)
          let _ ←
            (.perform (DiskOp.unlink (.temporary t)) :
              FileM T Bool)
          return some false
      | some true =>
          let synced ←
            (.perform (DiskOp.fsync fd) : FileM T Bool)
          if !synced then
            let _ ←
              (.perform (DiskOp.unlink (.temporary t)) :
                FileM T Bool)
            return some false
          let closed ←
            (.perform (DiskOp.close fd) : FileM T Bool)
          if !closed then
            let _ ←
              (.perform (DiskOp.unlink (.temporary t)) :
                FileM T Bool)
            return some false
          let renamed ←
            (.perform
              (DiskOp.rename (.temporary t) (.file t)) :
              FileM T Bool)
          if !renamed then
            let _ ←
              (.perform (DiskOp.unlink (.temporary t)) :
                FileM T Bool)
            return some false
          let _ ← (.perform DiskOp.syncDir : FileM T Bool)
          return some true

end Functions

/- The files in the data directory. -/
inductive DataFile where
| contacts
| room
| overrides
| key
deriving DecidableEq, Repr

def Store.flushFile
    (n : Nat)
    (blob : Bytes) :
    FileM DataFile (Option Bool) :=
  replaceFile true n .contacts blob

def Room.flushFile
    (n : Nat)
    (blob : Bytes) :
    FileM DataFile (Option Bool) :=
  replaceFile false n .room blob

------------------------------------------------------------
-- Guarantees
------------------------------------------------------------

section Guarantees

open Program

variable {T : Type}

/- Whether the directory was synced. -/
def settled (calls : List (FileCall T)) : Bool :=
  calls.any fun c =>
    match c with
    | ⟨.syncDir, true⟩ => true
    | _ => false

@[simp] theorem settled_append
    (calls more : List (FileCall T)) :
    settled (calls ++ more) =
      (settled calls || settled more) :=
  List.any_append

/- What has been written beside the old file. -/
def Beside
    (s : Folder T UInt8)
    (t : T)
    (fd : Nat)
    (d : Disk (FileName T) UInt8)
    (written : Bytes) :
    Prop :=
  d.Holds s ∧ d.entries (.temporary t) = some fd ∧
    (d.inodes fd).content = written

theorem Beside.append
    {s : Folder T UInt8} {t : T} {fd : Nat}
    (d : Disk (FileName T) UInt8)
    (written more : Bytes)
    (hBeside : Beside s t fd d written) :
    Beside s t fd (d.append fd more) (written ++ more) := by
  rcases hBeside with ⟨hHolds, hThere, rfl⟩
  refine ⟨hHolds.overwrite hThere rfl, hThere, ?_⟩
  rw [Disk.append, Disk.inodes_setInode_self]

variable [DecidableEq T]

/- What may be on the folder while a file is replaced. -/
def Toward
    (s : Folder T UInt8)
    (t : T)
    (blob : Bytes)
    (s' : Folder T UInt8) :
    Prop :=
  s' = s ∨ s' = s.put t blob ∨ s' = (s.put t blob).settle

/- What is there when it is over, or goes on for ever. -/
def Came
    (s : Folder T UInt8)
    (t : T)
    (blob : Bytes)
    (calls : List (FileCall T))
    (ok : Option Bool)
    (s' : Folder T UInt8) :
    Prop :=
  if ok = some true then
    s' =
      if settled calls then (s.put t blob).settle
      else s.put t blob
  else s' = s

section Came

variable {s s' : Folder T UInt8} {t : T} {blob : Bytes}
variable {calls : List (FileCall T)} {ok : Option Bool}

theorem Came.toward (hCame : Came s t blob calls ok s') :
    Toward s t blob s' := by
  rw [Came] at hCame
  split_ifs at hCame
  · exact .inr (.inr hCame)
  · exact .inr (.inl hCame)
  · exact .inl hCame

/- No other file is touched. -/
theorem Toward.now_of_ne
    {t' : T}
    (hToward : Toward s t blob s')
    (hNe : t' ≠ t) :
    s'.now t' = s.now t' := by
  rcases hToward with rfl | rfl | rfl
  · rfl
  · exact Folder.now_put_of_ne s hNe _
  · exact Folder.now_put_of_ne s hNe _

theorem Came.now_self
    (hCame : Came s t blob calls (some true) s') :
    s'.now t = some blob := by
  rw [Came, if_pos rfl] at hCame
  split_ifs at hCame
  · rw [hCame]
    exact Folder.now_put_self _ _ _
  · rw [hCame]
    exact Folder.now_put_self _ _ _

/- Once the directory is synced nothing is in doubt. -/
theorem Came.later_of_settled
    (hCame : Came s t blob calls (some true) s')
    (hSettled : settled calls = true)
    (t' : T) :
    s'.later t' = {s'.now t'} := by
  rw [Came, if_pos rfl, if_pos hSettled] at hCame
  rw [hCame]
  rfl

end Came

/-
  Whatever appending keeps, the loop keeps; and once all is
  written all of it has been appended.
-/
theorem writeLoop_guards
    {P : Disk (FileName T) UInt8 → Bytes → Prop}
    {fd : Nat}
    (hAppend :
      ∀ d written more, P d written →
        P (d.append fd more) (written ++ more))
    (n : Nat) (data : Bytes) {written : Bytes}
    {d : Disk (FileName T) UInt8}
    (hHere : P d written) :
    (writeLoop fd n data).Guards Disk.Does
      (fun d' => ∃ so, P d' so)
      (fun calls ok d' =>
        settled calls = false ∧
          ∃ so, P d' so ∧
            (ok = some true → so = written ++ data))
      d := by
  induction n generalizing d data written with
  | zero =>
      cases data with
      | nil =>
          exact ⟨⟨_, hHere⟩, rfl, _, hHere, fun _ =>
            (List.append_nil _).symm⟩
      | cons b data =>
          exact ⟨⟨_, hHere⟩, rfl, _, hHere, fun h => by
            cases h⟩
  | succ n ih =>
      cases data with
      | nil =>
          exact ⟨⟨_, hHere⟩, rfl, _, hHere, fun _ =>
            (List.append_nil _).symm⟩
      | cons b data =>
          refine ⟨⟨_, hHere⟩, ?_⟩
          intro ans d' hDoes
          cases ans with
          | interrupted =>
              cases hDoes
              exact ih (b :: data) hHere
          | failed =>
              rcases hDoes with ⟨junk, rfl⟩
              have hMore := hAppend d written junk hHere
              exact ⟨⟨_, hMore⟩, rfl, _, hMore,
                fun h => by cases h⟩
          | wrote m =>
              rcases hDoes with ⟨-, rfl⟩
              have hMore :=
                hAppend d written ((b :: data).take m) hHere
              apply (ih ((b :: data).drop m) hMore).mono
              · exact fun _ h => h
              · rintro calls ok d' ⟨hNone, so, hSo, hAll⟩
                refine ⟨hNone, so, hSo, ?_⟩
                intro hOk
                rw [hAll hOk, List.append_assoc,
                  List.take_append_drop]

/- Where it was written, it is whole and on the disk. -/
theorem writeFile_guards
    {d : Disk (FileName T) UInt8} {s : Folder T UInt8}
    (n : Nat) (t : T) (blob : Bytes)
    (hHolds : d.Holds s) :
    (writeFile n (.temporary t) blob).Guards Disk.Does
      (fun d' => d'.Holds s)
      (fun calls ok d' =>
        d'.Holds s ∧ settled calls = false ∧
          (ok = some true →
            ∃ fd, d'.entries (.temporary t) = some fd ∧
              (d'.inodes fd).synced = true ∧
                (d'.inodes fd).content = blob))
      d := by
  refine ⟨hHolds, ?_⟩
  intro opened d₁ hOpened
  cases opened with
  | none =>
      cases hOpened
      exact ⟨hHolds, hHolds, rfl, fun h => by cases h⟩
  | some fd =>
      rcases hHolds.truncate t hOpened with
        ⟨hHolds₁, hBeside, hEmpty⟩
      change (writeLoop fd n blob >>= _).Guards _ _ _ d₁
      rw [guards_bind]
      apply
        (writeLoop_guards Beside.append n blob
          ⟨hHolds₁, hBeside, hEmpty⟩).mono
          (fun _ h => h.choose_spec.1)
      rintro calls ok d₂
        ⟨hNone, so, ⟨hHolds₂, hStill, hContent⟩, hAll⟩
      have hSettled : ∀ more,
          settled
              (⟨.truncate (.temporary t), some fd⟩ ::
                (calls ++ more)) =
            settled more := by
        intro more
        change settled (calls ++ more) = settled more
        rw [settled_append, hNone, Bool.false_or]
      rcases ok with _ | (_ | _)
      · exact ⟨hHolds₂, hHolds₂, hSettled [], fun h => by
          cases h⟩
      · refine ⟨hHolds₂, ?_⟩
        rintro closed _ rfl
        exact ⟨hHolds₂, hHolds₂, hSettled [_], fun h => by
          cases h⟩
      · refine ⟨hHolds₂, ?_⟩
        intro synced d₃ hSynced
        cases synced with
        | false =>
            cases hSynced
            refine ⟨hHolds₂, ?_⟩
            rintro closed _ rfl
            exact ⟨hHolds₂, hHolds₂, hSettled [_, _],
              fun h => by cases h⟩
        | true =>
            cases hSynced
            have hHolds₃ : (d₂.sync fd).Holds s :=
              hHolds₂.overwrite hStill rfl
            refine ⟨hHolds₃, ?_⟩
            rintro closed _ rfl
            refine
              ⟨hHolds₃, hHolds₃, hSettled [_, _], ?_⟩
            intro _
            refine ⟨fd, hStill, ?_, ?_⟩
            · rw [Disk.sync, Disk.inodes_setInode_self]
            · rw [Disk.sync, Disk.inodes_setInode_self]
              exact hContent.trans (hAll rfl)

/- The disk holds what may be there meanwhile. -/
def HoldsToward
    (s : Folder T UInt8)
    (t : T)
    (blob : Bytes)
    (d : Disk (FileName T) UInt8) :
    Prop :=
  ∃ s', d.Holds s' ∧ Toward s t blob s'

/- The disk holds what is there when it is over. -/
def HoldsAfter
    (s : Folder T UInt8)
    (t : T)
    (blob : Bytes)
    (calls : List (FileCall T))
    (ok : Option Bool)
    (d : Disk (FileName T) UInt8) :
    Prop :=
  ∃ s', d.Holds s' ∧ Came s t blob calls ok s'

section Endings

variable {d : Disk (FileName T) UInt8}
variable {s : Folder T UInt8} {t : T} {blob : Bytes}

theorem HoldsToward.old (hHolds : d.Holds s) :
    HoldsToward s t blob d :=
  ⟨s, hHolds, .inl rfl⟩

theorem HoldsAfter.old
    {calls : List (FileCall T)} {ok : Option Bool}
    (hHolds : d.Holds s)
    (hFailed : ok ≠ some true) :
    HoldsAfter s t blob calls ok d :=
  ⟨s, hHolds, by rw [Came, if_neg hFailed]⟩

/- What was begun is given up, if it can be. -/
theorem giveUp_guards
    (hHolds : d.Holds s)
    (told : List (FileCall T) → List (FileCall T)) :
    ((.perform (DiskOp.unlink (.temporary t)) :
          FileM T Bool) >>=
        fun _ => (pure (some false) :
          FileM T (Option Bool))).Guards Disk.Does
      (HoldsToward s t blob)
      (fun calls => HoldsAfter s t blob (told calls)) d := by
  refine ⟨.old hHolds, ?_⟩
  intro gone d' hDoes
  have hStill : d'.Holds s := by
    cases gone with
    | false =>
        cases hDoes
        exact hHolds
    | true =>
        cases hDoes
        exact hHolds.unlink t
  exact ⟨.old hStill, .old hStill (by simp)⟩

/- The directory is synced, if it can be. -/
theorem settle_guards
    (hHolds : d.Holds (s.put t blob))
    {told : List (FileCall T) → List (FileCall T)}
    (hTold : ∀ calls, settled (told calls) = settled calls) :
    ((.perform DiskOp.syncDir : FileM T Bool) >>=
        fun _ => (pure (some true) :
          FileM T (Option Bool))).Guards Disk.Does
      (HoldsToward s t blob)
      (fun calls => HoldsAfter s t blob (told calls)) d := by
  refine ⟨⟨_, hHolds, .inr (.inl rfl)⟩, ?_⟩
  intro synced d' hDoes
  cases synced with
  | false =>
      cases hDoes
      refine
        ⟨⟨_, hHolds, .inr (.inl rfl)⟩, _, hHolds, ?_⟩
      rw [Came, if_pos rfl, hTold]
      rfl
  | true =>
      cases hDoes
      refine
        ⟨⟨_, hHolds.syncDir, .inr (.inr rfl)⟩, _,
          hHolds.syncDir, ?_⟩
      rw [Came, if_pos rfl, hTold]
      rfl

end Endings

/-
  Cut short anywhere, the old file is there or the new one,
  whole; and it tells truly which, where it ends. What a
  power cut may leave is in no more doubt than that.
-/
theorem replaceFile_guards
    {d : Disk (FileName T) UInt8} {s : Folder T UInt8}
    (syncs : Bool) (n : Nat) (t : T) (blob : Bytes)
    (hHolds : d.Holds s) :
    (replaceFile syncs n t blob).Guards Disk.Does
      (HoldsToward s t blob) (HoldsAfter s t blob) d := by
  rw [replaceFile, guards_bind]
  apply
    (writeFile_guards n t blob hHolds).mono
      (fun _ h => .old h)
  rintro calls ok d₁ ⟨hHolds₁, hNone, hWhole⟩
  rcases ok with _ | (_ | _)
  · exact ⟨.old hHolds₁, .old hHolds₁ (by simp)⟩
  · exact giveUp_guards hHolds₁ _
  · rcases hWhole rfl with ⟨fd, hBeside, hSynced, hContent⟩
    refine ⟨.old hHolds₁, ?_⟩
    intro renamed d₂ hRenamed
    cases renamed with
    | false =>
        cases hRenamed
        exact giveUp_guards hHolds₁ _
    | true =>
        rcases hRenamed with ⟨i, hThere, rfl⟩
        rw [hBeside] at hThere
        cases hThere
        have hPlaced :=
          hHolds₁.rename hBeside hSynced hContent
        have hTold : ∀ more,
            settled
                (calls ++
                  ⟨.rename (.temporary t) (.file t),
                    true⟩ :: more) =
              settled more := by
          intro more
          rw [settled_append, hNone, Bool.false_or]
          rfl
        cases syncs with
        | true => exact settle_guards hPlaced hTold
        | false =>
            refine
              ⟨⟨_, hPlaced, .inr (.inl rfl)⟩, _, hPlaced,
                ?_⟩
            rw [Came, if_pos rfl, hTold]
            rfl

/-
  So it is for the overlay, whose writer does not close a
  file that could not be synced.
-/
theorem writeAtomicFile_guards
    {d : Disk (FileName T) UInt8} {s : Folder T UInt8}
    (n : Nat) (t : T) (data : Bytes)
    (hHolds : d.Holds s) :
    (Platform.writeAtomicFile n t data).Guards Disk.Does
      (HoldsToward s t data) (HoldsAfter s t data) d := by
  refine ⟨.old hHolds, ?_⟩
  intro opened d₁ hOpened
  cases opened with
  | none =>
      cases hOpened
      exact ⟨.old hHolds, .old hHolds (by simp)⟩
  | some fd =>
      rcases hHolds.truncate t hOpened with
        ⟨hHolds₁, hBeside, hEmpty⟩
      change (writeLoop fd n data >>= _).Guards _ _ _ d₁
      rw [guards_bind]
      apply
        (writeLoop_guards Beside.append n data
          ⟨hHolds₁, hBeside, hEmpty⟩).mono
          (fun _ h => .old h.choose_spec.1)
      rintro calls ok d₂
        ⟨hNone, so, ⟨hHolds₂, hStill, hSo⟩, hAll⟩
      rcases ok with _ | (_ | _)
      · exact ⟨.old hHolds₂, .old hHolds₂ (by simp)⟩
      · refine ⟨.old hHolds₂, ?_⟩
        rintro closed _ rfl
        exact giveUp_guards hHolds₂ _
      · refine ⟨.old hHolds₂, ?_⟩
        intro synced d₃ hSynced
        cases synced with
        | false =>
            cases hSynced
            exact giveUp_guards hHolds₂ _
        | true =>
            cases hSynced
            have hHolds₃ : (d₂.sync fd).Holds s :=
              hHolds₂.overwrite hStill rfl
            refine ⟨.old hHolds₃, ?_⟩
            rintro closed _ rfl
            cases closed with
            | false => exact giveUp_guards hHolds₃ _
            | true =>
                refine ⟨.old hHolds₃, ?_⟩
                intro renamed d₄ hRenamed
                cases renamed with
                | false =>
                    cases hRenamed
                    exact giveUp_guards hHolds₃ _
                | true =>
                    rcases hRenamed with ⟨i, hThere, rfl⟩
                    rw [show (d₂.sync fd).entries _ = some fd
                      from hStill] at hThere
                    cases hThere
                    have hOnDisk :
                        ((d₂.sync fd).inodes fd).synced =
                          true := by
                      rw [Disk.sync,
                        Disk.inodes_setInode_self]
                    have hContent :
                        ((d₂.sync fd).inodes fd).content =
                          data := by
                      rw [Disk.sync,
                        Disk.inodes_setInode_self]
                      exact hSo.trans (hAll rfl)
                    apply
                      settle_guards
                        (hHolds₃.rename hStill hOnDisk
                          hContent)
                    intro more
                    change
                      settled (calls ++ ([_, _, _] ++ more)) =
                        settled more
                    rw [settled_append, hNone,
                      Bool.false_or]
                    rfl

end Guarantees

end MeshCore
