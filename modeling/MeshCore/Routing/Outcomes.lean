import MeshCore.Library.Tasks
import MeshCore.Routing.Errands
import MeshCore.Routing.Forwarding

/-
  The fate of what is sent directly. Every frame that is
  handed over is put down to the send it belongs to, if it
  belongs to one. A send is a task: kept in the pending
  table it is tried again until an acknowledgement or its
  last deadline settles it.

  Key definitions include:
    * `Deed`, `Deed.signs`, `Deed.move`
    * `Router.deedsAt`
    * `Router.Tracks`, `Router.Bears`
    * `Router.OneOutcome`

  Key facts include:
    * `Router.apply_bears`
    * `Router.one_outcome_each`
-/

namespace MeshCore

------------------------------------------------------------
-- Deeds
------------------------------------------------------------

/-
  What a router does about its sends: a send may have a
  frame to hand over, and may be kept. A frame handed over
  is of a new send, of one that is tried again, or of none.
-/
inductive Deed where
| sent (id : SendId) (frame : Option Bytes) (kept : Bool)
| again (id : SendId) (frame : Bytes)
| other (frame : Bytes)
| acked (id : SendId)
| failed (id : SendId)
deriving DecidableEq

/- What a history shows of a deed. -/
inductive Sign where
| sent (id : SendId)
| handed (frame : Bytes)
| acked (id : SendId)
| failed (id : SendId)
deriving DecidableEq

namespace Deed

def signs : Deed → List Sign
| .sent id frame _ =>
    .sent id :: frame.toList.map Sign.handed
| .again _ frame => [.handed frame]
| .other frame => [.handed frame]
| .acked id => [.acked id]
| .failed id => [.failed id]

/- A deed as a move about the tasks. -/
def move : Deed → Option (Tasks.Move SendId)
| .sent id frame kept =>
    some (.issue id frame.isSome kept)
| .again id _ => some (.again id)
| .other _ => none
| .acked id => some (.settle id)
| .failed id => some (.settle id)

def moves (deeds : List Deed) : List (Tasks.Move SendId) :=
  deeds.filterMap move

/- A frame of this send is handed over. -/
def hands (id : SendId) : Deed → Bool
| .sent name frame _ => name = id ∧ frame.isSome
| .again name _ => name = id
| _ => false

/- The layer above is told of the fate of this send. -/
def settles (id : SendId) : Deed → Bool
| .acked name => name = id
| .failed name => name = id
| _ => false

/- This send is given a pending entry. -/
def keeps (id : SendId) : Deed → Bool
| .sent name _ kept => name = id ∧ kept
| _ => false

end Deed

namespace Router

def signOf : Act → Option Sign
| .sent id _ _ _ _ => some (.sent id)
| .handed frame _ => some (.handed frame)
| .acked id => some (.acked id)
| .failed id => some (.failed id)
| _ => none

section Steps

variable [CryptoCore]
variable {δ : Type}

/- What an operation of the layer above does. -/
def deedOf (op : SenderOp) (r : Router) : Option Deed :=
  let frame := (errandOf op r).map Errand.frame
  match op with
  | .sendDirect _ _ _ wantAck =>
      some
        (.sent r.nextId frame
          (frame.isSome && wantAck &&
            decide (r.pending.length < r.config.maxPending)))
  | _ => frame.map .other

def deedsOf {α : Type} : SenderM α → Router → List Deed
| .done _, _ => []
| .call op k, r =>
    (deedOf op r).toList ++
      deedsOf (k (sender op r).1) (sender op r).2

/- What was handed over on the way, for no send. -/
def othersSince (r r' : Router) : List Deed :=
  ((r.actsSince r').filterMap handedOf).map .other

/- What the layer above does when it is told something. -/
def answerDeeds
    (D : Delegate δ)
    (s : δ × Router) :
    Upcall → List Deed
| .payload contact type plain =>
    let task := D.onPayload s.1 contact type plain
    let s' := task.run sender s.2
    deedsOf task s.2 ++
      if D.shouldAck s'.1 type plain then
        [.other
          (s'.2.ackErrand contact.pk
            (expectedAck plain contact.pk) []).frame]
      else []
| .anon peer plain => deedsOf (D.onAnon s.1 peer plain) s.2
| .group type payload =>
    deedsOf (D.onGroup s.1 type payload) s.2
| .trace trace path =>
    deedsOf (D.onTrace s.1 trace path) s.2
| .acked entry => [.acked entry.id]

def toldDeeds
    (D : Delegate δ)
    (d : δ) :
    Option Upcall × Router → List Deed
| (none, _) => []
| (some u, r) => answerDeeds D (d, r) u

def frameDeeds
    (D : Delegate δ)
    (frame : Bytes)
    (s : δ × Router) :
    List Deed :=
  match parse frame with
  | none => []
  | some p =>
      if s.2.alreadySeen frame then []
      else
        let r := s.2.takeIn frame
        if isOwnEcho p r.store.selfHash then []
        else
          let told := upcall D p (s.1, r)
          r.othersSince told.2 ++ toldDeeds D s.1 told

/- What a tick does with a pending entry, and what is left. -/
def entryDeed
    (now : Millis)
    (config : RouterConfig)
    (entry : Pending) :
    Option Deed :=
  if now < entry.deadline then none
  else if config.maxAttempts ≤ entry.attempts then
    some (.failed entry.id)
  else some (.again entry.id entry.frame)

def entryNext
    (now : Millis)
    (config : RouterConfig)
    (entry : Pending) :
    Option Pending :=
  if now < entry.deadline then some entry
  else if config.maxAttempts ≤ entry.attempts then none
  else
    some
      { entry with
        attempts := entry.attempts + 1
        deadline :=
          now +
            (if entry.viaFlood then config.floodAckTimeout
            else config.directAckBase) }

def tickDeeds (now : Millis) (r : Router) : List Deed :=
  ((due { r with now := now }).map fun entry =>
      Deed.other entry.frame) ++
    r.pending.filterMap (entryDeed now r.config)

def deedsAt
    (D : Delegate δ)
    (s : δ × Router) :
    Event δ → List Deed
| .frame frame _ => frameDeeds D frame s
| .tick now => tickDeeds now s.2
| .above task => deedsOf (task s.1) s.2

/- What is done over a run, in order. -/
def deedsIn
    (D : Delegate δ)
    (ts : List (Transition (δ × Router) (Event δ))) :
    List Deed :=
  ts.flatMap fun t => deedsAt D t.before t.event

------------------------------------------------------------
-- The Pending Table As Tasks
------------------------------------------------------------

/- The ids are counted from one. -/
def idOf (n : Nat) : SendId :=
  UInt32.ofNat (n + 1)

omit [CryptoCore] in
theorem idOf_new
    {n : Nat}
    (hFew : n + 1 < 2 ^ 32) :
    idOf n ∉ (List.range n).map idOf := by
  intro hOld
  rcases List.mem_map.mp hOld with ⟨i, hi, hEq⟩
  rw [List.mem_range] at hi
  have hNat := congrArg UInt32.toNat hEq
  have hFewer : i + 1 < 2 ^ 32 := by omega
  rw [idOf, idOf, UInt32.toNat_ofNat_of_lt' hFewer,
    UInt32.toNat_ofNat_of_lt' hFew] at hNat
  omega

/- What the pending table holds of a task. -/
def taskOf (entry : Pending) : SendId × Nat :=
  (entry.id, entry.attempts.toNat)

/- The tasks are those of the router. -/
structure Tracks (T : Tasks SendId) (r : Router) : Prop where
  waiting : T.waiting = r.pending.map taskOf
  issued : T.issued = (List.range T.issued.length).map idOf
  nextId : r.nextId = idOf T.issued.length

omit [CryptoCore] in
theorem Tracks.of_same
    {T T' : Tasks SendId} {r r' : Router}
    (hTracks : Tracks T r)
    (hIssued : T'.issued = T.issued)
    (hWaiting : T'.waiting = r'.pending.map taskOf)
    (hNextId : r'.nextId = r.nextId) :
    Tracks T' r' where
  waiting := hWaiting
  issued := by
    rw [hIssued]
    exact hTracks.issued
  nextId := by
    rw [hNextId, hIssued]
    exact hTracks.nextId

/- How often a send of this router may be tried. -/
def tryLimit (r : Router) : Nat :=
  r.config.maxAttempts.toNat

/- What awaits an acknowledgement was sent as it is kept. -/
def SentAs (deeds : List Deed) (r : Router) : Prop :=
  ∀ entry ∈ r.pending,
    .sent entry.id (some entry.frame) true ∈ deeds

/-
  `r` became `r'` by these deeds: its history shows them,
  what is sent again is the frame that was sent, and what
  they are about the tasks is legal, as long as no id is
  given out twice.
-/
structure Bears
    (r : Router)
    (deeds : List Deed)
    (r' : Router) :
    Prop where
  config : r'.config = r.config
  signs :
    ∃ acts,
      r'.history = r.history ++ acts ∧
        acts.filterMap signOf = deeds.flatMap Deed.signs
  frames :
    ∀ past : List Deed,
      SentAs past r →
        (∀ id frame,
          .again id frame ∈ deeds →
            .sent id (some frame) true ∈ past ++ deeds) ∧
          SentAs (past ++ deeds) r'
  tracks :
    ∀ T : Tasks SendId,
      T.Sound r.tryLimit →
        Tracks T r →
          (T.perform (Deed.moves deeds)).issued.length <
              2 ^ 32 →
            T.Legal r.tryLimit (Deed.moves deeds) ∧
              Tracks (T.perform (Deed.moves deeds)) r'

omit [CryptoCore] in
theorem moves_append (deeds more : List Deed) :
    Deed.moves (deeds ++ more) =
      Deed.moves deeds ++ Deed.moves more :=
  List.filterMap_append

omit [CryptoCore] in
theorem Bears.refl (r : Router) : r.Bears [] r where
  config := rfl
  signs := ⟨[], by simp, rfl⟩
  frames := fun past hSent =>
    ⟨by simp, by rwa [List.append_nil]⟩
  tracks := fun _ _ hTracks _ => ⟨trivial, hTracks⟩

omit [CryptoCore] in
theorem Bears.trans
    {r r' r'' : Router}
    {deeds more : List Deed}
    (hFirst : r.Bears deeds r')
    (hThen : r'.Bears more r'') :
    r.Bears (deeds ++ more) r'' where
  config := hThen.config.trans hFirst.config
  signs := by
    rcases hFirst.signs with ⟨acts, hHistory, hSigns⟩
    rcases hThen.signs with ⟨acts', hHistory', hSigns'⟩
    refine ⟨acts ++ acts', ?_, ?_⟩
    · rw [hHistory', hHistory, List.append_assoc]
    · rw [List.filterMap_append, List.flatMap_append,
        hSigns, hSigns']
  frames := by
    intro past hSent
    rcases hFirst.frames past hSent with ⟨hAgain, hHere⟩
    rcases hThen.frames _ hHere with ⟨hLater, hThere⟩
    rw [← List.append_assoc]
    refine ⟨?_, hThere⟩
    intro id frame hDeed
    rcases List.mem_append.mp hDeed with hDeed | hDeed
    · exact List.mem_append_left _ (hAgain id frame hDeed)
    · exact hLater id frame hDeed
  tracks := by
    intro T hSound hTracks hFew
    rw [moves_append, Tasks.perform_append] at *
    have hFewFirst :
        (T.perform (Deed.moves deeds)).issued.length <
          2 ^ 32 := by
      rw [Tasks.perform_issued (T := T.perform _),
        List.length_append] at hFew
      omega
    have hLimit : r'.tryLimit = r.tryLimit := by
      simp only [tryLimit, hFirst.config]
    rcases hFirst.tracks T hSound hTracks hFewFirst with
      ⟨hLegal, hMiddle⟩
    have hLater :=
      hThen.tracks _ (by
        rw [hLimit]
        exact hSound.perform hLegal) hMiddle hFew
    rw [hLimit] at hLater
    exact ⟨Tasks.legal_append.mpr ⟨hLegal, hLater.1⟩,
      hLater.2⟩

/-
  What leaves the tasks alone bears the frames that it hands
  over, whichever they are.
-/
omit [CryptoCore] in
theorem bears_of_same
    {r r' : Router} {acts : List Act}
    (frames : List Bytes)
    (hConfig : r'.config = r.config)
    (hPending : r'.pending = r.pending)
    (hNextId : r'.nextId = r.nextId)
    (hHistory : r'.history = r.history ++ acts)
    (hSigns :
      acts.filterMap signOf = frames.map Sign.handed) :
    r.Bears (frames.map Deed.other) r' where
  config := hConfig
  signs := by
    refine ⟨acts, hHistory, hSigns.trans ?_⟩
    rw [List.flatMap_map, List.map_eq_flatMap]
    rfl
  frames := by
    intro past hSent
    refine ⟨by simp, ?_⟩
    intro entry hEntry
    rw [hPending] at hEntry
    exact List.mem_append_left _ (hSent entry hEntry)
  tracks := by
    intro T _ hTracks _
    have hNone :
        Deed.moves (frames.map Deed.other) = [] := by
      simp [Deed.moves, List.filterMap_map, Deed.move]
    rw [hNone]
    exact ⟨trivial,
      ⟨hTracks.waiting.trans (by rw [hPending]),
        hTracks.issued, hNextId.trans hTracks.nextId⟩⟩

theorem transmitNow_bears
    (r : Router)
    (frame : Bytes)
    (priority : Priority) :
    r.Bears [.other frame]
      (r.transmitNow frame priority) :=
  bears_of_same [frame] rfl rfl rfl
    (transmitNow_does r frame priority).history rfl

------------------------------------------------------------
-- Sending
------------------------------------------------------------

omit [CryptoCore] in
/- A send takes the next id, and is a task if it is kept. -/
theorem tracks_issue
    {T : Tasks SendId} {r r' : Router}
    {tried kept : Bool} {entry : Pending}
    (hTracks : Tracks T r)
    (hTried : kept = true → tried = true)
    (hFew : T.issued.length + 1 < 2 ^ 32)
    (hEntry : taskOf entry = (r.nextId, 1))
    (hNextId : r'.nextId = r.nextId + 1)
    (hPending :
      r'.pending =
        if kept then r.pending ++ [entry] else r.pending) :
    T.Allowed r.tryLimit (.issue r.nextId tried kept) ∧
      Tracks (T.step (.issue r.nextId tried kept)) r' := by
  have hNew : r.nextId ∉ T.issued := by
    have hOld := idOf_new hFew
    rwa [← hTracks.issued, ← hTracks.nextId] at hOld
  refine ⟨⟨hNew, hTried⟩, ?_, ?_, ?_⟩
  · simp only [Tasks.step, hPending]
    cases kept with
    | false => exact hTracks.waiting
    | true =>
        simp only [Tasks.waitingAfter, if_true,
          List.map_append, hTracks.waiting]
        simp [hEntry]
  · have hLength :
        (T.step (.issue r.nextId tried kept)).issued =
          T.issued ++ [r.nextId] := rfl
    rw [hLength, List.length_append, List.length_singleton,
      List.range_succ, List.map_append, ← hTracks.issued,
      hTracks.nextId]
    rfl
  · have hLength :
        (T.step (.issue r.nextId tried kept)).issued =
          T.issued ++ [r.nextId] := rfl
    rw [hLength, List.length_append, List.length_singleton,
      hNextId, hTracks.nextId]
    simp [idOf]

omit [CryptoCore] in
/- The one move that a send is. -/
theorem bears_of_issue
    {r r' : Router} {acts : List Act}
    {frame : Option Bytes} {kept : Bool} {entry : Pending}
    (hKept : kept = true → frame = some entry.frame)
    (hEntry : taskOf entry = (r.nextId, 1))
    (hConfig : r'.config = r.config)
    (hNextId : r'.nextId = r.nextId + 1)
    (hPending :
      r'.pending =
        if kept then r.pending ++ [entry] else r.pending)
    (hHistory : r'.history = r.history ++ acts)
    (hSigns :
      acts.filterMap signOf =
        (Deed.sent r.nextId frame kept).signs) :
    r.Bears [.sent r.nextId frame kept] r' where
  config := hConfig
  signs := ⟨acts, hHistory, by simpa using hSigns⟩
  frames := by
    intro past hSent
    refine ⟨by simp, ?_⟩
    intro other hOther
    rw [hPending] at hOther
    cases kept with
    | false =>
        exact List.mem_append_left _ (hSent other hOther)
    | true =>
        rcases List.mem_append.mp hOther with hOld | hNew
        · exact List.mem_append_left _ (hSent other hOld)
        · have hId : entry.id = r.nextId :=
            congrArg Prod.fst hEntry
          rw [List.mem_singleton.mp hNew, hId, hKept rfl]
          exact List.mem_append_right _ List.mem_cons_self
  tracks := by
    intro T hSound hTracks hFew
    have hMoves :
        Deed.moves [.sent r.nextId frame kept] =
          [.issue r.nextId frame.isSome kept] := rfl
    rw [hMoves] at hFew ⊢
    have hOne : T.issued.length + 1 < 2 ^ 32 := by
      rw [Tasks.perform_issued] at hFew
      simpa [Tasks.Move.issued] using hFew
    have hTried : kept = true → frame.isSome = true :=
      fun h => by rw [hKept h, Option.isSome_some]
    have hStep :=
      tracks_issue hTracks hTried hOne hEntry hNextId hPending
    exact ⟨⟨hStep.1, trivial⟩, hStep.2⟩

/- What is sent is kept if it is to be, and if there is room. -/
theorem keepPending_transmitNow_bears
    {r r' : Router} {act : Act}
    {frame : Bytes} {entry : Pending}
    (wantAck : Bool)
    (hFrame : entry.frame = frame)
    (hAsked : r.Does [act] r')
    (hAct : signOf act = some (.sent r.nextId))
    (hNextId : r'.nextId = r.nextId + 1)
    (hPending : r'.pending = r.pending)
    (hEntry : taskOf entry = (r.nextId, 1)) :
    r.Bears
      [.sent r.nextId (some frame)
        (wantAck &&
          decide (r.pending.length < r.config.maxPending))]
      ((r'.keepPending wantAck entry).transmitNow frame
        .normal) := by
  have hDone :=
    (hAsked.trans (keepPending_does r' wantAck entry)).trans
      (transmitNow_does _ frame .normal)
  refine bears_of_issue (fun _ => congrArg some hFrame.symm)
    hEntry hDone.config ?_ ?_ hDone.history ?_
  · change (r'.keepPending wantAck entry).nextId = _
    unfold keepPending
    split <;> exact hNextId
  · change (r'.keepPending wantAck entry).pending = _
    unfold keepPending
    rw [hPending, hAsked.config]
    by_cases hRoom :
        wantAck = true ∧
          r.pending.length < r.config.maxPending
    · rw [if_pos hRoom]
      simp [hRoom]
    · rw [if_neg hRoom]
      simp [hRoom, hPending]
  · rw [List.append_nil, List.filterMap_append,
      List.filterMap_cons_some hAct]
    rfl

theorem sendDirect_bears
    (r : Router)
    (dest : PublicKey)
    (type : PayloadType)
    (payload : Bytes)
    (wantAck : Bool) :
    r.Bears
      (deedOf (.sendDirect dest type payload wantAck)
        r).toList
      (r.sendDirect dest type payload wantAck).2 := by
  have hSelf :
      ((r.issueId dest type payload wantAck).2.secretFor
          dest).2.store.selfHash =
        r.store.selfHash :=
    (secretFor_does r dest).selfHash
  have hSame :
      ((r.issueId dest type payload wantAck).2.secretFor
          dest).1 =
        (r.secretFor dest).1 :=
    rfl
  have hAsked :=
    (issueId_does r dest type payload wantAck).trans
      (secretFor_does _ dest)
  -- an entry for the proofs of the sends that keep none
  let noEntry : Pending :=
    { id := r.nextId
      expectedAck := 0
      deadline := 0
      attempts := 1
      viaFlood := false
      dest := dest
      frame := [] }
  unfold sendDirect deedOf errandOf sealFor
  simp only
  rw [hSelf, hSame]
  cases (r.secretFor dest).1.bind fun secret =>
      envelopeFor r.store.selfHash secret dest payload with
  | none =>
      have hEntry : taskOf noEntry = (r.nextId, 1) := rfl
      exact bears_of_issue nofun hEntry rfl rfl rfl
        hAsked.history rfl
  | some wire =>
      simp only [Option.map_some, Option.isSome_some,
        Bool.true_and]
      exact keepPending_transmitNow_bears wantAck rfl hAsked
        rfl rfl rfl rfl

theorem sender_bears (op : SenderOp) (r : Router) :
    r.Bears (deedOf op r).toList (sender op r).2 := by
  cases op with
  | sendDirect dest type payload wantAck =>
      exact sendDirect_bears r dest type payload wantAck
  | sendAck dest value extra =>
      exact transmitNow_bears r
        (r.ackErrand dest value extra).frame .high
  | sendFlood type payload =>
      exact transmitNow_bears r
        (buildFrame type payload none) .normal
  | randomBytes n =>
      exact bears_of_same [] rfl rfl rfl
        (List.append_nil r.history).symm rfl
  | store => exact .refl r

theorem run_bears
    {α : Type}
    (p : SenderM α)
    (r : Router) :
    r.Bears (deedsOf p r) (p.run sender r).2 := by
  induction p generalizing r with
  | done a => exact .refl r
  | call op k ih => exact (sender_bears op r).trans (ih _ _)

------------------------------------------------------------
-- Receiving
------------------------------------------------------------

variable {D : Delegate δ}

/- Of what was done since, only frames show. -/
def HandsOnly (r r' : Router) : Prop :=
  ∃ acts,
    r'.history = r.history ++ acts ∧
      acts.filterMap signOf =
        (acts.filterMap handedOf).map .handed

omit [CryptoCore] in
theorem HandsOnly.trans
    {r r' r'' : Router}
    (hFirst : r.HandsOnly r')
    (hThen : r'.HandsOnly r'') :
    r.HandsOnly r'' := by
  rcases hFirst with ⟨acts, hHistory, hSigns⟩
  rcases hThen with ⟨more, hMore, hMoreSigns⟩
  refine ⟨acts ++ more, ?_, ?_⟩
  · rw [hMore, hHistory, List.append_assoc]
  · rw [List.filterMap_append, List.filterMap_append,
      List.map_append, hSigns, hMoreSigns]

theorem secretFor_handsOnly (r : Router) (pk : PublicKey) :
    r.HandsOnly (r.secretFor pk).2 :=
  ⟨[], (secretFor_does r pk).history, rfl⟩

theorem transmitNow_handsOnly
    (r : Router)
    (frame : Bytes)
    (priority : Priority) :
    r.HandsOnly (r.transmitNow frame priority) :=
  ⟨_, (transmitNow_does r frame priority).history, rfl⟩

theorem upcall_handsOnly
    (p : Packet)
    (s : δ × Router) :
    s.2.HandsOnly (upcall D p s).2 :=
  upcall_keeps
    (fun _ pk hHands =>
      hHands.trans (secretFor_handsOnly _ pk))
    (fun _ dest path hHands =>
      hHands.trans
        ⟨[], (installRoute_does _ dest path).history, rfl⟩)
    (fun _ frame priority hHands =>
      hHands.trans (transmitNow_handsOnly _ frame priority))
    p ⟨[], (List.append_nil _).symm, rfl⟩

/- What is only handed over is of no send. -/
theorem HandsOnly.bears
    {r r' : Router}
    (hHands : r.HandsOnly r')
    (hCalm : r.Calm r') :
    r.Bears (r.othersSince r') r' := by
  rcases hHands with ⟨acts, hHistory, hSigns⟩
  have hSince : r.actsSince r' = acts := by
    rw [actsSince, hHistory, List.drop_left]
  rw [othersSince, hSince]
  exact bears_of_same _ hCalm.config hCalm.pending
    hCalm.nextId hHistory hSigns

theorem acknowledge_bears
    (type : PayloadType)
    (peer : PublicKey)
    (plain : Bytes)
    (s : δ × Router) :
    s.2.Bears
      (if D.shouldAck s.1 type plain then
        [.other
          (s.2.ackErrand peer (expectedAck plain peer)
            []).frame]
      else [])
      (acknowledge D type peer plain s).2 := by
  unfold acknowledge
  split
  · exact transmitNow_bears s.2
      (s.2.ackErrand peer (expectedAck plain peer) []).frame
      .high
  · exact .refl s.2

omit [CryptoCore] in
/- The first entry that awaits the number is settled. -/
theorem acked_bears
    {r : Router} {payload : Bytes} {entry : Pending}
    (hFound : r.completedBy payload = some entry) :
    r.Bears [.acked entry.id]
      (note
        { r with
          pending :=
            r.pending.eraseP
              (·.expectedAck == entry.expectedAck) }
        (.acked entry.id)) where
  config := rfl
  signs := ⟨[.acked entry.id], rfl, rfl⟩
  frames := by
    intro past hSent
    refine ⟨by simp, ?_⟩
    intro other hOther
    exact List.mem_append_left _
      (hSent other (List.eraseP_subset hOther))
  tracks := by
    intro T hSound hTracks _
    have hLong : ¬ payload.length < 4 := by
      intro hShort
      rw [completedBy, if_pos hShort] at hFound
      contradiction
    rw [completedBy, if_neg hLong] at hFound
    rcases List.find?_eq_some_iff_append.mp hFound with
      ⟨hNumber, before, after, hSplit, hOthers⟩
    rw [beq_iff_eq] at hNumber
    have hErased :
        r.pending.eraseP
            (·.expectedAck == entry.expectedAck) =
          before ++ after := by
      rw [hNumber, hSplit,
        List.eraseP_append_right _ (by simpa using hOthers),
        List.eraseP_cons_of_pos (by simpa using hNumber)]
    have hWaiting :
        T.waiting =
          before.map taskOf ++
            (entry.id, entry.attempts.toNat) ::
              after.map taskOf := by
      rw [hTracks.waiting, hSplit, List.map_append,
        List.map_cons]
      rfl
    have hMoves :
        Deed.moves [.acked entry.id] = [.settle entry.id] :=
      rfl
    rw [hMoves]
    refine ⟨⟨⟨entry.attempts.toNat, ?_⟩, trivial⟩,
      hTracks.of_same (List.append_nil _) ?_ rfl⟩
    · rw [hWaiting]
      simp
    · have hKeyed := hSound.keyed
      rw [hWaiting] at hKeyed
      change Tasks.waitingAfter T.waiting
          (.settle entry.id) =
        (r.pending.eraseP
          (·.expectedAck == entry.expectedAck)).map taskOf
      rw [hErased, hWaiting,
        Tasks.waitingAfter_settle hKeyed, List.map_append]

theorem answer_bears
    (u : Upcall)
    (s : δ × Router)
    (hDone :
      ∀ entry,
        u = .acked entry →
          ∃ payload, s.2.completedBy payload = some entry) :
    s.2.Bears (answerDeeds D s u) (answer D s u).2 := by
  cases u with
  | payload contact type plain =>
      exact (run_bears _ s.2).trans
        (acknowledge_bears type contact.pk plain _)
  | anon peer plain => exact run_bears _ s.2
  | group type payload => exact run_bears _ s.2
  | trace trace path => exact run_bears _ s.2
  | acked entry =>
      rcases hDone entry rfl with ⟨payload, hFound⟩
      exact acked_bears hFound

theorem told_bears
    (d : δ)
    (t : Option Upcall × Router)
    (hDone :
      ∀ entry,
        t.1 = some (.acked entry) →
          ∃ payload, t.2.completedBy payload = some entry) :
    t.2.Bears (toldDeeds D d t) (told D d t).2 := by
  rcases t with ⟨none | u, r⟩
  · exact .refl r
  · exact answer_bears u (d, r) fun entry hEntry =>
      hDone entry (congrArg some hEntry)

/- It is told of an acknowledgement when one is found. -/
theorem upcall_acked
    {p : Packet} {s : δ × Router} {entry : Pending}
    (hTold : (upcall D p s).1 = some (.acked entry)) :
    (upcall D p s).2.completedBy p.payload = some entry := by
  have hNotFound :
      ∀ found r,
        (identified p found r).1 ≠ some (.acked entry) := by
    intro found r
    unfold identified
    repeat' split
    all_goals exact nofun
  have hNotSelf :
      (openForSelf D p s).1 ≠ some (.acked entry) := by
    unfold openForSelf
    split
    · exact nofun
    · split
      · exact nofun
      · exact hNotFound _ _
  have hNotAnon :
      (openAnon p s.2).1 ≠ some (.acked entry) := by
    unfold openAnon
    split
    · exact nofun
    · split
      · exact nofun
      · simp only
        split <;> exact nofun
  unfold upcall at hTold ⊢
  cases hType : p.payloadType with
  | ack =>
      rw [hType] at hTold
      rcases Option.map_eq_some_iff.mp hTold with
        ⟨found, hFound, hEq⟩
      rw [hFound, Upcall.acked.inj hEq]
  | trace =>
      rw [hType] at hTold
      rcases Option.map_eq_some_iff.mp hTold with
        ⟨trace, -, hEq⟩
      contradiction
  | anonReq =>
      rw [hType] at hTold
      exact absurd hTold hNotAnon
  | advert | grpTxt | grpData =>
      rw [hType] at hTold
      cases hTold
  | _ =>
      rw [hType] at hTold
      exact absurd hTold hNotSelf

theorem takeIn_bears (r : Router) (frame : Bytes) :
    r.Bears [] (r.takeIn frame) :=
  bears_of_same [] rfl rfl rfl
    (takeIn_does r frame).history rfl

theorem considerForwarding_bears
    (p : Packet)
    (rx : RxMeta)
    (s : δ × Router) :
    s.2.Bears [] (considerForwarding D p rx s).2 := by
  have hCalm := considerForwarding_calm (D := D) p rx s
  rcases considerForwarding_queue (D := D) p rx s with
    ⟨added, hDoes, -, -⟩
  apply bears_of_same [] hCalm.config hCalm.pending
    hCalm.nextId hDoes.history
  rw [List.filterMap_map, List.map_nil,
    List.filterMap_eq_nil_iff]
  exact fun _ _ => rfl

theorem onFrame_bears
    (frame : Bytes)
    (rx : RxMeta)
    (s : δ × Router) :
    s.2.Bears (frameDeeds D frame s)
      (onFrame D frame rx s).2 := by
  unfold onFrame frameDeeds
  cases parse frame with
  | none => exact .refl s.2
  | some p =>
      simp only
      by_cases hSeen : s.2.alreadySeen frame = true
      · rw [if_pos hSeen, if_pos hSeen]
        exact .refl s.2
      · rw [if_neg hSeen, if_neg hSeen]
        have hTaken := takeIn_bears s.2 frame
        by_cases hEcho :
            isOwnEcho p (s.2.takeIn frame).store.selfHash =
              true
        · rw [if_pos hEcho, if_pos hEcho]
          exact hTaken
        · rw [if_neg hEcho, if_neg hEcho, dispatch_eq]
          have hCall :=
            (upcall_handsOnly (D := D) p
              (s.1, s.2.takeIn frame)).bears
              (upcall_calm p (s.1, s.2.takeIn frame))
          have hTold :=
            told_bears (D := D) s.1
              (upcall D p (s.1, s.2.takeIn frame))
              fun _ hEntry => ⟨_, upcall_acked hEntry⟩
          have hAll :=
            ((hTaken.trans hCall).trans hTold).trans
              (considerForwarding_bears (D := D) p rx _)
          rw [List.append_nil] at hAll
          exact hAll

------------------------------------------------------------
-- Time
------------------------------------------------------------

omit [CryptoCore] in
/- What the walk keeps, and what it does on the way. -/
theorem retryPending_walks
    (entries : List Pending)
    (d : δ)
    (r : Router) :
    (retryPending D entries (d, r)).1 =
        entries.filterMap (entryNext r.now r.config) ∧
      ∃ acts,
        (retryPending D entries (d, r)).2.2.history =
            r.history ++ acts ∧
          acts.filterMap signOf =
            (entries.filterMap
              (entryDeed r.now r.config)).flatMap
                Deed.signs := by
  induction entries generalizing d r with
  | nil => exact ⟨rfl, [], (List.append_nil _).symm, rfl⟩
  | cons entry rest ih =>
      unfold retryPending
      by_cases hEarly : r.now < entry.deadline
      · simp only [entryNext, entryDeed, hEarly, if_true,
          List.filterMap_cons]
        rcases ih d r with ⟨hKept, hActs⟩
        exact ⟨congrArg _ hKept, hActs⟩
      · by_cases hLast :
            r.config.maxAttempts ≤ entry.attempts
        · simp only [entryNext, entryDeed, hEarly, hLast,
            if_true, if_false, List.filterMap_cons]
          rcases ih (D.onDeliveryFailed d entry.id)
              ((r.forgetRoute entry.dest).note
                (.failed entry.id)) with
            ⟨hKept, acts, hHistory, hSigns⟩
          refine ⟨hKept, .failed entry.id :: acts, ?_, ?_⟩
          · rw [hHistory]
            exact List.append_assoc _ _ _
          · rw [List.filterMap_cons_some (f := signOf) rfl,
              hSigns]
            rfl
        · simp only [entryNext, entryDeed, hEarly, hLast,
            if_false, List.filterMap_cons]
          rcases ih d (r.handToRadio entry.frame .normal)
            with ⟨hKept, acts, hHistory, hSigns⟩
          refine ⟨congrArg _ hKept,
            .handed entry.frame .normal :: acts, ?_, ?_⟩
          · rw [hHistory]
            exact List.append_assoc _ _ _
          · rw [List.filterMap_cons_some (f := signOf) rfl,
              hSigns]
            rfl

omit [CryptoCore] in
theorem entryDeed_again
    {now : Millis} {config : RouterConfig}
    {entry : Pending} {id : SendId} {frame : Bytes}
    (hDeed :
      entryDeed now config entry = some (.again id frame)) :
    entry.id = id ∧ entry.frame = frame := by
  unfold entryDeed at hDeed
  split at hDeed
  · contradiction
  · split at hDeed
    · cases hDeed
    · simpa using hDeed

omit [CryptoCore] in
/- An entry that is left is of the same send. -/
theorem entryNext_same
    {now : Millis} {config : RouterConfig}
    {entry next : Pending}
    (hNext : entryNext now config entry = some next) :
    next.id = entry.id ∧ next.frame = entry.frame := by
  unfold entryNext at hNext
  split at hNext
  · rw [Option.some.inj hNext]
    exact ⟨rfl, rfl⟩
  · split at hNext
    · contradiction
    · rw [← Option.some.inj hNext]
      exact ⟨rfl, rfl⟩

omit [CryptoCore] in
/- An entry that is tried again counts the try. -/
theorem entryNext_again
    {now : Millis} {config : RouterConfig}
    {entry : Pending}
    (hDue : ¬ now < entry.deadline)
    (hLeft : ¬ config.maxAttempts ≤ entry.attempts) :
    ∃ next,
      entryNext now config entry = some next ∧
        taskOf next = (entry.id, entry.attempts.toNat + 1) := by
  refine ⟨_, (if_neg hDue).trans (if_neg hLeft), ?_⟩
  have hFew : entry.attempts < config.maxAttempts :=
    UInt8.not_le.mp hLeft
  have hCounts :
      (entry.attempts + 1).toNat =
        entry.attempts.toNat + 1 := by
    have hLimit := config.maxAttempts.toNat_lt
    have hNat := UInt8.lt_iff_toNat_lt.mp hFew
    rw [UInt8.toNat_add]
    exact Nat.mod_eq_of_lt (by simpa using by omega)
  exact congrArg _ hCounts

/-
  The moves of the walk, task by task: those before it are
  done with, and `T` has come that far.
-/
omit [CryptoCore] in
theorem retried_legal
    {now : Millis} {config : RouterConfig}
    {entries : List Pending} {T : Tasks SendId}
    (walked : List (SendId × Nat))
    (hSound : T.Sound config.maxAttempts.toNat)
    (hWaiting :
      T.waiting = walked ++ entries.map taskOf) :
    let moves :=
      Deed.moves (entries.filterMap (entryDeed now config))
    T.Legal config.maxAttempts.toNat moves ∧
      (T.perform moves).issued = T.issued ∧
      (T.perform moves).waiting =
        walked ++
          (entries.filterMap (entryNext now config)).map
            taskOf := by
  induction entries generalizing T walked with
  | nil => exact ⟨trivial, rfl, hWaiting⟩
  | cons entry rest ih =>
      rw [List.map_cons] at hWaiting
      have hKeyed := hSound.keyed
      rw [hWaiting] at hKeyed
      have hWaits :
          (entry.id, entry.attempts.toNat) ∈ T.waiting := by
        rw [hWaiting]
        exact List.mem_append_right _ List.mem_cons_self
      by_cases hEarly : now < entry.deadline
      · have hNext :
            entryNext now config entry = some entry :=
          if_pos hEarly
        have hDeed : entryDeed now config entry = none :=
          if_pos hEarly
        rw [List.filterMap_cons_none hDeed,
          List.filterMap_cons_some hNext]
        have hRest :=
          ih (walked ++ [taskOf entry]) hSound
            (by rw [hWaiting, List.append_assoc]; rfl)
        rw [List.append_assoc] at hRest
        exact hRest
      · by_cases hLast : config.maxAttempts ≤ entry.attempts
        · have hNext : entryNext now config entry = none := by
            simp [entryNext, hEarly, hLast]
          have hDeed :
              entryDeed now config entry =
                some (.failed entry.id) := by
            simp [entryDeed, hEarly, hLast]
          rw [List.filterMap_cons_some hDeed,
            List.filterMap_cons_none hNext]
          have hAllowed :
              T.Allowed config.maxAttempts.toNat
                (.settle entry.id) :=
            ⟨_, hWaits⟩
          rcases ih walked
              (hSound.step hAllowed) (by
                change Tasks.waitingAfter T.waiting
                  (.settle entry.id) = _
                rw [hWaiting]
                exact Tasks.waitingAfter_settle hKeyed) with
            ⟨hLegal, hIssued, hAfter⟩
          exact ⟨⟨hAllowed, hLegal⟩,
            hIssued.trans (List.append_nil _), hAfter⟩
        · have hLeft :
              entry.attempts.toNat <
                config.maxAttempts.toNat :=
            UInt8.lt_iff_toNat_lt.mp (UInt8.not_le.mp hLast)
          rcases entryNext_again hEarly hLast with
            ⟨next, hNext, hTask⟩
          have hDeed :
              entryDeed now config entry =
                some (.again entry.id entry.frame) := by
            simp [entryDeed, hEarly, hLast]
          rw [List.filterMap_cons_some hDeed,
            List.filterMap_cons_some hNext]
          have hAllowed :
              T.Allowed config.maxAttempts.toNat
                (.again entry.id) :=
            ⟨_, hWaits, hLeft⟩
          rcases ih (walked ++ [taskOf next])
              (hSound.step hAllowed) (by
                change Tasks.waitingAfter T.waiting
                  (.again entry.id) = _
                rw [hWaiting, hTask, List.append_assoc]
                exact Tasks.waitingAfter_again hKeyed) with
            ⟨hLegal, hIssued, hAfter⟩
          refine ⟨⟨hAllowed, hLegal⟩,
            hIssued.trans (List.append_nil _), ?_⟩
          rw [List.append_assoc] at hAfter
          exact hAfter

omit [CryptoCore] in
/- The walk, and the table as it leaves it. -/
theorem retried_bears
    (d : δ)
    (r : Router) :
    r.Bears
      (r.pending.filterMap (entryDeed r.now r.config))
      { (retryPending D r.pending (d, r)).2.2 with
        pending := (retryPending D r.pending (d, r)).1 } := by
  rcases retryPending_walks (D := D) r.pending d r with
    ⟨hKept, acts, hHistory, hSigns⟩
  have hSame :
      (retryPending D r.pending (d, r)).2.2.config =
          r.config ∧
        (retryPending D r.pending (d, r)).2.2.nextId =
          r.nextId :=
    retryPending_keeps
      (I := fun r' =>
        r'.config = r.config ∧ r'.nextId = r.nextId)
      (fun _ _ h => h) (fun _ _ h => h) _ _ ⟨rfl, rfl⟩
  refine
    { config := hSame.1
      signs := ⟨acts, hHistory, hSigns⟩
      frames := ?_
      tracks := ?_ }
  · intro past hSent
    constructor
    · intro id frame hDeed
      rcases List.mem_filterMap.mp hDeed with
        ⟨entry, hEntry, hEq⟩
      rcases entryDeed_again hEq with ⟨rfl, rfl⟩
      exact List.mem_append_left _ (hSent entry hEntry)
    · intro next hNext
      change next ∈ (retryPending D r.pending (d, r)).1
        at hNext
      rw [hKept] at hNext
      rcases List.mem_filterMap.mp hNext with
        ⟨entry, hEntry, hEq⟩
      rcases entryNext_same hEq with ⟨hId, hFrame⟩
      rw [hId, hFrame]
      exact List.mem_append_left _ (hSent entry hEntry)
  intro T hSound hTracks _
  rcases retried_legal [] hSound hTracks.waiting with
    ⟨hLegal, hIssued, hAfter⟩
  refine ⟨hLegal, hTracks.of_same hIssued ?_ hSame.2⟩
  rw [hAfter, hKept, List.nil_append]

theorem drainQueue_bears (r : Router) :
    r.Bears ((r.due.map Delayed.frame).map .other)
      r.drainQueue := by
  have hSame := drainQueue_eq r
  refine bears_of_same _ (by rw [hSame]) (by rw [hSame])
    (by rw [hSame]) (drainQueue_does r).history ?_
  rw [List.filterMap_map, List.map_map,
    ← List.filterMap_eq_map]
  rfl

theorem tick_bears
    (now : Millis)
    (s : δ × Router) :
    s.2.Bears (tickDeeds now s.2) (tick D now s).2 := by
  have hClock : s.2.Bears [] { s.2 with now := now } :=
    bears_of_same [] rfl rfl rfl (List.append_nil _).symm
      rfl
  have hAll :=
    (hClock.trans (drainQueue_bears _)).trans
      (retried_bears (D := D) s.1
        (drainQueue { s.2 with now := now }))
  rw [List.map_map] at hAll
  have hTable :
      (drainQueue { s.2 with now := now }).pending.filterMap
          (entryDeed
            (drainQueue { s.2 with now := now }).now
            (drainQueue { s.2 with now := now }).config) =
        s.2.pending.filterMap (entryDeed now s.2.config) := by
    rw [drainQueue_eq]
  rw [hTable] at hAll
  exact hAll

theorem apply_bears
    (e : Event δ)
    (s : δ × Router) :
    s.2.Bears (deedsAt D s e) (apply D s e).2 := by
  cases e with
  | frame frame rx => exact onFrame_bears frame rx s
  | tick now => exact tick_bears now s
  | above task => exact run_bears (task s.1) s.2

------------------------------------------------------------
-- Runs
------------------------------------------------------------

theorem deedsIn_bears
    {s₀ s : δ × Router}
    {ts : List (Transition (δ × Router) (Event δ))}
    (hRun : Run (fun s e s' => apply D s e = s') s₀ ts s) :
    s₀.2.Bears (deedsIn D ts) s.2 := by
  induction hRun with
  | start => exact .refl s₀.2
  | @step ts s s' e _ hStep ih =>
      have hLast : deedsIn D [⟨s, e, s'⟩] = deedsAt D s e :=
        List.append_nil _
      rw [deedsIn, List.flatMap_append, ← deedsIn,
        ← deedsIn, hLast, ← hStep]
      exact ih.trans (apply_bears e s)

end Steps

/- What is counted of the moves is counted of the deeds. -/
theorem count_moves
    {of : Tasks.Move SendId → Option SendId}
    {p : Deed → Bool} {id : SendId}
    (hSame : ∀ d : Deed, p d = (d.move.bind of == some id))
    (deeds : List Deed) :
    ((Deed.moves deeds).filterMap of).count id =
      deeds.countP p := by
  rw [Deed.moves, List.filterMap_filterMap, List.count,
    List.countP_filterMap]
  apply List.countP_congr
  intro d _
  rw [hSame]
  cases d.move.bind of <;> simp

theorem mem_moves
    {of : Tasks.Move SendId → Option SendId}
    {p : Deed → Bool} {id : SendId}
    (hSame : ∀ d : Deed, p d = (d.move.bind of == some id))
    (deeds : List Deed) :
    id ∈ (Deed.moves deeds).filterMap of ↔
      ∃ d ∈ deeds, p d = true := by
  rw [← List.count_pos_iff, count_moves hSame,
    List.countP_pos_iff]

theorem settles_eq (id : SendId) (d : Deed) :
    d.settles id =
      (d.move.bind Tasks.Move.settled == some id) := by
  cases d <;> rfl

theorem keeps_eq (id : SendId) (d : Deed) :
    d.keeps id =
      (d.move.bind Tasks.Move.kept == some id) := by
  rcases d with ⟨name, frame, _ | _⟩ | _ | _ | _ | _ <;>
    simp [Deed.keeps, Deed.move, Tasks.Move.kept,
      beq_eq_decide]

theorem hands_eq (id : SendId) (d : Deed) :
    d.hands id =
      (d.move.bind Tasks.Move.tried == some id) := by
  rcases d with ⟨name, _ | frame, kept⟩ | _ | _ | _ | _ <;>
    simp [Deed.hands, Deed.move, Tasks.Move.tried,
      beq_eq_decide]

/- The sends that were asked of a router are its deeds. -/
def sentOf : Sign → Option SendId
| .sent id => some id
| _ => none

theorem sendings_eq_issued
    {r : Router} {deeds : List Deed}
    (hSigns :
      r.history.filterMap signOf =
        deeds.flatMap Deed.signs) :
    r.sendings.length =
      ((Deed.moves deeds).filterMap
        Tasks.Move.issued).length := by
  have hIds :
      r.sendings.map Sending.id =
        (r.history.filterMap signOf).filterMap sentOf := by
    rw [sendings, List.map_filterMap, List.filterMap_filterMap]
    apply List.filterMap_congr
    intro act _
    cases act <;> rfl
  have hDeeds :
      (deeds.flatMap Deed.signs).filterMap sentOf =
        (Deed.moves deeds).filterMap Tasks.Move.issued := by
    clear hSigns
    induction deeds with
    | nil => rfl
    | cons d deeds ih =>
        rw [List.flatMap_cons, List.filterMap_append, ih]
        rcases d with
          ⟨id, _ | frame, kept⟩ | _ | _ | _ | _ <;> rfl
  rw [← List.length_map (f := Sending.id), hIds, hSigns,
    hDeeds]

------------------------------------------------------------
-- One Outcome
------------------------------------------------------------

/-
  What becomes of one send. The layer above is told of its
  fate once at most, and only if it was kept before. It
  awaits an acknowledgement from when it is kept until then.
  Its frame is tried as often as the limit, or once, and not
  any more when its fate is known.
-/
structure OneOutcome
    (deeds : List Deed)
    (limit : Nat)
    (r : Router)
    (id : SendId) :
    Prop where
  once : deeds.countP (Deed.settles id) ≤ 1
  kept :
    ∀ pre d post,
      deeds = pre ++ d :: post →
        d.settles id = true →
          ∃ e ∈ pre, e.keeps id = true
  waits :
    (∃ entry ∈ r.pending, entry.id = id) ↔
      (∃ d ∈ deeds, d.keeps id = true) ∧
        ¬ ∃ d ∈ deeds, d.settles id = true
  tries : deeds.countP (Deed.hands id) ≤ max 1 limit
  frame :
    ∀ frame,
      .again id frame ∈ deeds →
        .sent id (some frame) true ∈ deeds
  last :
    ∀ pre d post,
      deeds = pre ++ d :: post →
        d.hands id = true →
          ¬ ∃ e ∈ pre, e.settles id = true

/- Where a move stands among the moves of the deeds. -/
theorem moves_split
    {deeds pre post : List Deed} {d : Deed}
    {of : Tasks.Move SendId → Option SendId} {id : SendId}
    (hSplit : deeds = pre ++ d :: post)
    (hMove : (d.move.bind of == some id) = true) :
    ∃ m,
      of m = some id ∧
        Deed.moves deeds =
          Deed.moves pre ++ m :: Deed.moves post := by
  rw [beq_iff_eq, Option.bind_eq_some_iff] at hMove
  rcases hMove with ⟨m, hMove, hOf⟩
  refine ⟨m, hOf, ?_⟩
  rw [hSplit, Deed.moves, List.filterMap_append,
    List.filterMap_cons_some hMove]
  rfl

/-
  In every run of a router: what its history shows is its
  deeds, and by them every send has one outcome at most.
-/
theorem one_outcome_each
    [CryptoCore]
    {δ : Type} {D : Delegate δ} {d : δ}
    {store : Store} {entropy : Entropy}
    {config : RouterConfig}
    {ts : List (Transition (δ × Router) (Event δ))}
    {s : δ × Router}
    (hRun :
      Run (fun s e s' => apply D s e = s')
        (d, create store entropy config) ts s)
    (hFew : s.2.sendings.length < 2 ^ 32) :
    s.2.history.filterMap signOf =
        (deedsIn D ts).flatMap Deed.signs ∧
      ∀ id,
        OneOutcome (deedsIn D ts) config.maxAttempts.toNat
          s.2 id := by
  have hBears := deedsIn_bears hRun
  generalize deedsIn D ts = deeds at hBears
  have hSigns :
      s.2.history.filterMap signOf =
        deeds.flatMap Deed.signs := by
    rcases hBears.signs with ⟨acts, hHistory, hActs⟩
    rw [hHistory]
    exact hActs
  have hNew :
      Tracks ({} : Tasks SendId)
        (create store entropy config) :=
    ⟨rfl, rfl, rfl⟩
  have hIssued :
      (({} : Tasks SendId).perform
          (Deed.moves deeds)).issued.length < 2 ^ 32 := by
    rw [sendings_eq_issued hSigns] at hFew
    rw [Tasks.perform_issued]
    exact hFew
  rcases hBears.tracks {} Tasks.sound_new hNew hIssued with
    ⟨hLegal, hTracks⟩
  refine ⟨hSigns, fun id => ?_⟩
  refine
    { once := ?_
      kept := ?_
      waits := ?_
      tries := ?_
      frame := ?_
      last := ?_ }
  · rw [← count_moves (settles_eq id)]
    exact Tasks.settled_at_most_once hLegal id
  · intro pre d post hSplit hSettles
    rw [settles_eq] at hSettles
    rcases moves_split hSplit hSettles with
      ⟨m, hSettled, hMoves⟩
    rw [hMoves] at hLegal
    exact (mem_moves (keeps_eq id) pre).mp
      (Tasks.kept_of_settled hLegal hSettled)
  · rw [← mem_moves (keeps_eq id),
      ← mem_moves (settles_eq id),
      ← Tasks.waits_iff hLegal, Tasks.Waits,
      hTracks.waiting]
    simp [taskOf]
  · rw [← count_moves (hands_eq id)]
    exact Tasks.tried_at_most hLegal id
  · intro frame hAgain
    exact (hBears.frames [] (by simp [SentAs, create])).1 id
      frame hAgain
  · intro pre d post hSplit hHands
    rw [hands_eq] at hHands
    rcases moves_split hSplit hHands with
      ⟨m, hTried, hMoves⟩
    rw [hMoves] at hLegal
    rw [← mem_moves (settles_eq id)]
    exact Tasks.not_settled_of_tried hLegal hTried

section Example

open Sample

/- A text that no one answers, and time that goes by. -/
def unanswered : List (Event Unit) :=
  [.above fun d =>
    .call
      (.sendDirect (Vector.replicate _ 9) .txtMsg [1, 2, 3]
        true)
      fun _ => .done d,
    .tick 12000,
    .tick 24000,
    .tick 36000]

theorem unanswered_text_fails_once :
    let s : Unit × Router :=
      ((), ofByte 2 { maxAttempts := 2 })
    let deeds :=
      deedsIn .carrier
        (replay (apply .carrier) s unanswered)
    (deeds.countP (Deed.hands 1) = 2 ∧
      deeds.countP (Deed.settles 1) = 1) ∧
      ∀ id,
        OneOutcome deeds 2
          (unanswered.foldl (apply .carrier) s).2 id := by
  have hOutcome :=
    one_outcome_each
      (run_replay (apply .carrier)
        ((), ofByte 2 { maxAttempts := 2 }) unanswered)
      (by decide +kernel)
  exact ⟨by decide +kernel, hOutcome.2⟩

end Example

end Router

end MeshCore
