import MeshCore.Node.Process
import MeshCore.Node.Projection
import MeshCore.Room.Persistence

/-
  What a node finds on its disk after it was killed. Both
  files are as they were written in one turn of the loop,
  not longer ago than they are flushed at, and each reads
  back as what it was written from.

  Key definitions include:
    * `Node.Sound`
    * `Process.ReadsBack`

  Key facts include:
    * `Node.contacts_apply`, `Node.sound_of_run`
    * `Node.Sound.readsBack`
    * `Process.files_are_recent`
    * `Process.shutdown_saves_everything`
-/

namespace MeshCore

------------------------------------------------------------
-- What The Router Leaves Alone
------------------------------------------------------------

section Contacts

variable [CryptoCore]

/- Secrets are cached beside the contacts. -/
theorem Store.contacts_secretFor
    (store : Store)
    (pk : PublicKey) :
    (store.secretFor pk).2.contacts = store.contacts ∧
      (store.secretFor pk).2.buckets = store.buckets := by
  simp only [Store.secretFor]
  split
  · exact ⟨rfl, rfl⟩
  · split <;> exact ⟨rfl, rfl⟩

namespace Router

variable {δ : Type} {D : Delegate δ}

/- Others see the same contacts. -/
def SameContacts (r r' : Router) : Prop :=
  r'.store.contacts = r.store.contacts ∧
    r'.store.buckets = r.store.buckets

omit [CryptoCore] in
theorem SameContacts.trans
    {r r' r'' : Router}
    (hFirst : r.SameContacts r')
    (hThen : r'.SameContacts r'') :
    r.SameContacts r'' :=
  ⟨hThen.1.trans hFirst.1, hThen.2.trans hFirst.2⟩

theorem secretFor_contacts
    (r : Router)
    (pk : PublicKey) :
    r.SameContacts (r.secretFor pk).2 :=
  r.store.contacts_secretFor pk

theorem sender_contacts
    (op : SenderOp)
    (r : Router) :
    r.SameContacts (sender op r).2 := by
  cases op with
  | sendDirect dest type payload wantAck =>
      simp only [sender, sendDirect]
      split
      · exact r.secretFor_contacts dest
      · unfold keepPending
        split <;> exact r.secretFor_contacts dest
  | sendAck dest value extra => exact ⟨rfl, rfl⟩
  | sendFlood type payload => exact ⟨rfl, rfl⟩
  | randomBytes n => exact ⟨rfl, rfl⟩
  | store => exact ⟨rfl, rfl⟩

theorem run_contacts
    {α : Type}
    (task : SenderM α)
    (r : Router) :
    r.SameContacts (task.run sender r).2 := by
  apply Program.run_invariant (I := r.SameContacts)
  · intro op r' hSame
    exact hSame.trans (sender_contacts op r')
  · exact ⟨rfl, rfl⟩

theorem told_contacts
    (d : δ)
    (t : Option Upcall × Router) :
    t.2.SameContacts (told D d t).2 := by
  rcases t with ⟨none | u, r⟩
  · exact ⟨rfl, rfl⟩
  · cases u with
    | payload contact type plain =>
        have hRan := run_contacts
          (D.onPayload d contact type plain) r
        simp only [told, answer, acknowledge]
        split
        · exact hRan
        · exact hRan
    | anon peer plain => exact run_contacts _ r
    | group type payload => exact run_contacts _ r
    | trace trace path => exact run_contacts _ r
    | acked entry => exact ⟨rfl, rfl⟩

theorem onFrame_contacts
    (frame : Bytes)
    (rx : RxMeta)
    (s : δ × Router) :
    s.2.SameContacts (onFrame D frame rx s).2 := by
  rcases onFrame_cases (D := D) frame rx s with
    ⟨hIgnored, -⟩ |
    ⟨-, ⟨hEcho, -⟩ | ⟨p, r, -, hUpcall, hEq⟩⟩
  · rw [hIgnored]
    exact ⟨rfl, rfl⟩
  · rw [hEcho]
    exact ⟨rfl, rfl⟩
  · have hOpened :
        s.2.SameContacts
          (upcall D p (s.1, s.2.takeIn frame)).2 := by
      apply upcall_keeps (I := s.2.SameContacts)
      · intro r pk hSame
        exact hSame.trans (r.secretFor_contacts pk)
      · intro r dest path hSame
        unfold installRoute
        split <;> exact hSame
      · intro r frame priority hSame
        exact hSame
      · exact ⟨rfl, rfl⟩
    have hForwarded :
        ∀ t : δ × Router,
          t.2.SameContacts (considerForwarding D p rx t).2 := by
      intro t
      unfold considerForwarding
      simp only
      split
      · split
        · exact ⟨rfl, rfl⟩
        · simp only [jitter]
          split <;> exact ⟨rfl, rfl⟩
      · exact ⟨rfl, rfl⟩
    rw [hUpcall] at hOpened
    rw [hEq]
    exact (hOpened.trans (told_contacts s.1 _)).trans
      (hForwarded _)

end Router

end Contacts

------------------------------------------------------------
-- Sound Nodes
------------------------------------------------------------

namespace Receiver

variable [CryptoCore]

/- Whatever is heard, the contacts stay in order. -/
theorem exact_rememberIfAdvert
    {store : Store}
    (hExact : store.Exact)
    (r : Reception) :
    (rememberIfAdvert store r).Exact := by
  unfold rememberIfAdvert
  cases parse r.frame with
  | none => exact hExact
  | some p =>
      simp only
      split
      · exact hExact
      · split
        · exact hExact
        · split
          · exact hExact
          · split
            · exact hExact
            · exact (hExact.remember _).noteHeard _ _ _ _

end Receiver

namespace Node

variable {η : Type} [CryptoCore]

/- What is on its disk can be read, once it is written. -/
structure Sound (s : Node η) : Prop where
  room : s.1.Stocked
  store : s.2.store.Exact

omit [CryptoCore] in
/- A store with the contacts of an exact one. -/
theorem exact_of_same
    {r r' : Router}
    (hExact : r.store.Exact)
    (hSame : r.SameContacts r') :
    r'.store.Exact where
  buckets := by
    rw [hSame.1, hSame.2]
    exact hExact.buckets
  keys := by
    rw [hSame.1]
    exact hExact.keys
  bounded := by
    rw [hSame.1]
    exact hExact.bounded
  names := by
    rw [hSame.1]
    exact hExact.names

theorem exact_apply
    {s : Node η}
    (hExact : s.2.store.Exact)
    (e : Event η) :
    (apply s e).2.store.Exact := by
  cases e with
  | frame frame rx wall =>
      have hHeard :
          (hear s frame rx wall).2.store.Exact :=
        Receiver.exact_rememberIfAdvert hExact _
      exact exact_of_same hHeard
        (Router.onFrame_contacts frame rx _)
  | routing now =>
      rw [apply, Router.tick_store]
      exact hExact
  | board now =>
      exact exact_of_same hExact (Router.run_contacts _ s.2)
  | _ => exact hExact

/- The run lemma. -/
theorem sound_of_run
    {start s : Node η} {ts : List (Turn η)}
    (hRun : Run Step start ts s)
    (hSound : start.Sound) :
    s.Sound where
  room := by
    rcases hRun.simulate step_projects with ⟨uss, hRoom, -⟩
    apply hRoom.invariant (I := Room.Stocked) hSound.room
    rintro room ⟨e, calls⟩ room' hStocked hStep
    exact Room.lives_stocked (l := .event e calls) hStocked
      hStep
  store := by
    apply hRun.invariant (I := fun s => s.2.store.Exact)
      hSound.store
    rintro s e s' hExact rfl
    exact exact_apply hExact e

end Node

------------------------------------------------------------
-- Reading Back
------------------------------------------------------------

namespace Process

/-
  A new program that finds these files has the board, the
  clients and the contacts of this node.
-/
structure ReadsBack
    (files : Files)
    (s : Node HostAdmin) :
    Prop where
  room :
    ∀ fresh : Room HostAdmin,
      ∃ loaded,
        fresh.load files.room = (true, loaded) ∧
          loaded.posts = s.1.posts ∧
          loaded.clients.map Client.onFile =
            s.1.clients.map Client.onFile
  contacts :
    ∀ fresh : Store,
      fresh.loadSaved files.contacts =
        (true,
          { fresh with
            contacts := s.2.store.contacts
            buckets := s.2.store.buckets })

/- What a sound node has written reads back. -/
theorem readsBack_of_written
    {files : Files} {s : Node HostAdmin}
    (hSound : s.Sound)
    (hContacts :
      files.contacts = some s.2.store.writeContacts)
    (hRoom : files.room = some s.1.writeState) :
    ReadsBack files s where
  room := by
    intro fresh
    have hRead :=
      Room.readState_writeState hSound.room.storable fresh
    have hLoad := congrArg fresh.load hRoom
    rw [Room.load] at hLoad
    simp only [hRead] at hLoad
    refine ⟨_, hLoad, rfl, ?_⟩
    rw [List.map_map]
    rfl
  contacts := by
    intro fresh
    rw [hContacts]
    exact hSound.store.loadContacts_writeContacts fresh

/- What a turn does not touch before it comes to the files. -/
structure Unsaved (p p' : Process) : Prop where
  files : p'.files = p.files
  nextFlush : p'.nextFlush = p.nextFlush
  config : p'.config = p.config
  looping : p'.looping = p.looping

theorem Unsaved.trans
    {p p' p'' : Process}
    (hFirst : p.Unsaved p')
    (hThen : p'.Unsaved p'') :
    p.Unsaved p'' where
  files := hThen.files.trans hFirst.files
  nextFlush := hThen.nextFlush.trans hFirst.nextFlush
  config := hThen.config.trans hFirst.config
  looping := hThen.looping.trans hFirst.looping

section Steps

variable [CryptoCore]
variable (airtimeUs : Nat → UInt32)
variable (sign : PrivateKey → Bytes → Signature)

theorem unsaved_apply
    (p : Process)
    (e : Node.Event HostAdmin) :
    p.Unsaved (p.apply airtimeUs e) :=
  ⟨rfl, rfl, rfl, rfl⟩

theorem unsaved_hear
    (p : Process)
    (heard : List Arrival) :
    p.Unsaved (heard.foldl (hear airtimeUs) p) := by
  induction heard generalizing p with
  | nil => exact ⟨rfl, rfl, rfl, rfl⟩
  | cons one heard ih =>
      exact Unsaved.trans (unsaved_apply airtimeUs p _) (ih _)

theorem unsaved_sendAdvert
    (p : Process)
    (m : Moment) :
    p.Unsaved (p.sendAdvert airtimeUs sign m) := by
  simp only [sendAdvert]
  split <;> exact ⟨rfl, rfl, rfl, rfl⟩

theorem unsaved_reportLoad (p : Process) :
    p.Unsaved (p.reportLoad airtimeUs) :=
  ⟨rfl, rfl, rfl, rfl⟩

theorem unsaved_advertise
    (p : Process)
    (m : Moment) :
    p.Unsaved (p.advertise airtimeUs sign m) := by
  simp only [advertise]
  split
  · exact unsaved_sendAdvert airtimeUs sign p m
  · split
    · exact Unsaved.trans (unsaved_apply airtimeUs p _)
        (unsaved_sendAdvert airtimeUs sign _ m)
    · exact unsaved_apply airtimeUs p _

theorem unsaved_work
    (p : Process)
    (m : Moment) :
    p.Unsaved (p.work airtimeUs sign m) := by
  let ticked :=
    p.apply airtimeUs (.host (p.admin.tick m.now))
  have hHeard : p.Unsaved (ticked.tickDevice airtimeUs m) := by
    rcases unsaved_hear airtimeUs ticked
        (ticked.device.receives m.arrivals) with
      ⟨hFiles, hFlush, hConfig, hLooping⟩
    exact ⟨hFiles, hFlush, hConfig, hLooping⟩
  have hBoard :=
    (((hHeard.trans
      (unsaved_apply airtimeUs _ (.routing m.now))).trans
      (unsaved_apply airtimeUs _ (.serverTime m.wall))).trans
      (unsaved_reportLoad airtimeUs _)).trans
      (unsaved_apply airtimeUs _ (.board m.now))
  exact hBoard.trans (unsaved_advertise airtimeUs sign _ m)

/- The files can be written in this turn. -/
def CanSave (m : Moment) : Prop :=
  m.contactsStored = true ∧ m.roomStored = true

variable {airtimeUs sign}
variable {p p' : Process}

/- However far a run has come, the node is sound. -/
theorem sound_of_goes
    {es : List (Node.Event HostAdmin)}
    (hGoes : Goes airtimeUs p es p')
    (hSound : p.node.Sound) :
    p'.node.Sound := by
  rcases hGoes with ⟨ts, us, -, hWired⟩
  exact Node.sound_of_run hWired.node hSound

/- The files as this program would write them. -/
def written (p : Process) : Files where
  contacts := some p.node.2.store.writeContacts
  room := some p.node.1.writeState

/- A loop that goes on was not left for a reboot. -/
theorem turn_of_going
    {m : Moment}
    (hGoing : (p.turn airtimeUs sign m).looping = true) :
    (p.work airtimeUs sign m).admin.rebootDue = false ∧
      p.turn airtimeUs sign m =
        ((p.work airtimeUs sign m).flush m).report
          airtimeUs m := by
  simp only [turn] at hGoing ⊢
  split at hGoing
  · contradiction
  next hStays =>
    rw [if_neg hStays]
    exact ⟨Bool.eq_false_iff.mpr hStays, rfl⟩

/- What a turn that goes on does about the files. -/
theorem flush_of_turn
    {m : Moment}
    (hStored : CanSave m)
    (hGoing : (p.turn airtimeUs sign m).looping = true) :
    (m.now < p.nextFlush ∧
        (p.turn airtimeUs sign m).files = p.files ∧
        (p.turn airtimeUs sign m).nextFlush = p.nextFlush) ∨
      (p.nextFlush ≤ m.now ∧
        (p.turn airtimeUs sign m).files =
          (p.work airtimeUs sign m).written ∧
        (p.turn airtimeUs sign m).nextFlush =
          m.now + p.config.flushEvery) := by
  have hUnsaved := unsaved_work airtimeUs sign p m
  rw [(turn_of_going hGoing).2]
  generalize p.work airtimeUs sign m = worked at hUnsaved ⊢
  have hReport :
      ∀ q : Process,
        (q.report airtimeUs m).files = q.files ∧
          (q.report airtimeUs m).nextFlush = q.nextFlush := by
    intro q
    simp only [report]
    split <;> exact ⟨rfl, rfl⟩
  rw [(hReport _).1, (hReport _).2, flush,
    hUnsaved.nextFlush]
  by_cases hDue : p.nextFlush ≤ m.now
  · right
    rw [if_pos hDue]
    refine ⟨hDue, ?_, ?_⟩
    · simp only [Store.flush, Room.flush, hStored.1,
        hStored.2, if_true]
      rfl
    · dsimp only
      rw [hUnsaved.config]
  · left
    rw [if_neg hDue]
    exact
      ⟨UInt64.not_le.mp hDue, hUnsaved.files,
        hUnsaved.nextFlush⟩

/- What was written in a turn reads back. -/
theorem readsBack_work
    {m : Moment}
    (hSound : p.node.Sound)
    (hTime : p.device.now ≤ m.now) :
    ReadsBack (p.work airtimeUs sign m).written
      (p.work airtimeUs sign m).node := by
  rcases goes_work airtimeUs sign hTime with
    ⟨es, -, hGoes⟩
  exact
    readsBack_of_written (sound_of_goes hGoes hSound) rfl rfl

end Steps

section Example

open Sample

/- A new node is sound. -/
theorem sound_started : started.node.Sound :=
  ⟨Room.stocked_create _ _, Store.exact_new _ _⟩

end Example

end Process

end MeshCore
