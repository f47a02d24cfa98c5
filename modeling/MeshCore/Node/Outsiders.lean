import MeshCore.Node.Heard
import MeshCore.Node.Process
import MeshCore.Room.Rights

/-
  What a node is to those who do not know the admin
  password, as long as nobody is logged in with it: it
  cannot be stopped, renamed or given other settings,
  whatever is sent to it.

  Key definitions include:
    * `Node.offersAdmin`
    * `Room.Guarded`
    * `HostAdmin.Guarded`, `Process.Guarded`
    * `Process.hearings`

  Key facts include:
    * `Node.apply_guarded`
    * `Process.Guarded.turn`
    * `Process.outsiders_change_nothing`
-/

namespace MeshCore

------------------------------------------------------------
-- The Node
------------------------------------------------------------

section Nodes

variable {η : Type}

/- Nothing but rows, posts and counters is another. -/
structure Room.Guarded (room room' : Room η) : Prop where
  host : room'.host = room.host
  settings :
    settingsOf room'.config = settingsOf room.config
  noAdmin : room'.NoAdmin

variable [CryptoCore]

/- A new frame that is a login with the admin password. -/
def Node.offersAdmin (s : Node η) : Event η → Bool
| .frame frame rx wall =>
    !(hear s frame rx wall).2.alreadySeen frame &&
      ((Router.opened Room.delegate frame
          (hear s frame rx wall)).bind
        Room.eventOf).any s.1.offersAdmin
| _ => false

/- What the room does by itself. -/
theorem Room.perform_guarded
    {room : Room η} {e : Event η}
    (hNoAdmin : room.NoAdmin)
    (hPassword : room.offersAdmin e = false)
    (hOther : ∀ host, e ≠ .host host) :
    (room.perform e).Ensures (fun _ => True)
      room.Guarded := by
  apply (perform_harmless hNoAdmin hPassword).mono
    (fun _ h => h)
  rintro room' ⟨hHarmless, hLow⟩
  exact ⟨hHarmless.host hOther, hHarmless.settings, hLow⟩

/- What one step of the room leads to. -/
theorem Room.perform_run_guarded
    {room : Room η} {e : Event η}
    (hNoAdmin : room.NoAdmin)
    (hPassword : room.offersAdmin e = false)
    (hOther : ∀ host, e ≠ .host host)
    (r : Router) :
    room.Guarded ((room.perform e).run Router.sender r).1 :=
  ((perform_guarded hNoAdmin hPassword hOther).exec
    (Program.run_exec Router.sender _ r)).2

omit [CryptoCore] in
theorem Room.Guarded.refl
    {room : Room η}
    (hNoAdmin : room.NoAdmin) :
    room.Guarded room :=
  ⟨rfl, rfl, hNoAdmin⟩

omit [CryptoCore] in
theorem Room.Guarded.trans
    {room room' room'' : Room η}
    (hFirst : room.Guarded room')
    (hThen : room'.Guarded room'') :
    room.Guarded room'' where
  host := hThen.host.trans hFirst.host
  settings := hThen.settings.trans hFirst.settings
  noAdmin := hThen.noAdmin

namespace Node

/- A frame is told to the room, which may carry it on. -/
theorem onFrame_guarded
    (frame : Bytes)
    (rx : RxMeta)
    {s : Node η}
    (hNoAdmin : s.1.NoAdmin)
    (hPassword :
      s.2.alreadySeen frame = false →
        ((Router.opened Room.delegate frame s).bind
          Room.eventOf).any s.1.offersAdmin = false) :
    s.1.Guarded
      (Router.onFrame Room.delegate frame rx s).1 := by
  rcases Router.onFrame_cases (D := Room.delegate) frame rx s
    with
    ⟨hSame, -⟩ |
    ⟨hNew, ⟨hTaken, -⟩ | ⟨p, r, -, -, hFrame⟩⟩
  · rw [hSame]
    exact .refl hNoAdmin
  · rw [hTaken]
    exact .refl hNoAdmin
  · have hTold :
        s.1.Guarded
          (Router.told Room.delegate s.1
            (Router.opened Room.delegate frame s, r)).1 := by
      apply Router.told_room
      · intro _
        exact .refl hNoAdmin
      · intro e hEvent
        apply Room.perform_guarded hNoAdmin
        · have hThis := hPassword hNew
          rw [hEvent] at hThis
          exact hThis
        · rintro host rfl
          rcases Option.bind_eq_some_iff.mp hEvent with
            ⟨u, -, hIs⟩
          cases u <;> simp [Room.eventOf] at hIs
    rw [hFrame, Router.considerForwarding_told]
    exact hTold.trans
      (Room.perform_run_guarded (e := .forward p)
        hTold.noAdmin rfl (by simp) r)

/- What happens, but for a login and for the host itself. -/
theorem apply_guarded
    {s : Node η} {e : Event η}
    (hNoAdmin : s.1.NoAdmin)
    (hPassword : s.offersAdmin e = false)
    (hOther : ∀ host, e ≠ .host host) :
    s.1.Guarded (apply s e).1 := by
  cases e with
  | frame frame rx wall =>
      apply onFrame_guarded frame rx (s := hear s frame rx wall)
        hNoAdmin
      intro hNew
      have hThis := hPassword
      simp only [offersAdmin, hNew, Bool.not_false,
        Bool.true_and] at hThis
      exact hThis
  | routing now =>
      apply Router.tick_told (D := Room.delegate)
        (I := s.1.Guarded) _ now s (.refl hNoAdmin)
      intro room id hSame
      have hRows := room.onDeliveryFailed_onlyRows id
      exact hSame.trans
        ⟨hRows.host, congrArg Room.settingsOf hRows.config,
          hRows.noAdmin hSame.noAdmin⟩
  | serverTime unixSeconds => exact ⟨rfl, rfl, hNoAdmin⟩
  | radioLoad permille => exact ⟨rfl, rfl, hNoAdmin⟩
  | board now =>
      exact Room.perform_run_guarded (e := .tick now)
        hNoAdmin rfl (by simp) s.2
  | advert payload => exact .refl hNoAdmin
  | host host => exact absurd rfl (hOther host)

end Node

end Nodes

------------------------------------------------------------
-- The Process
------------------------------------------------------------

/- Only the clock is set and a request for adverts taken. -/
structure HostAdmin.Guarded (host host' : HostAdmin) :
    Prop where
  rest :
    host' =
      { host with
        now := host'.now
        advertWanted := host'.advertWanted }
  asked :
    host'.advertWanted = true → host.advertWanted = true

namespace Process

/- What is asked of the host, and what is set in the room. -/
structure Guarded (p p' : Process) : Prop where
  host : p.admin.Guarded p'.admin
  settings :
    Room.settingsOf p'.node.1.config =
      Room.settingsOf p.node.1.config
  noAdmin : p'.node.1.NoAdmin
  config : p'.config = p.config
  looping : p'.looping = p.looping

section Steps

variable [CryptoCore]
variable (airtimeUs : Nat → UInt32)
variable (sign : PrivateKey → Bytes → Signature)

/- What a turn hears, and where the process stands then. -/
def hearings
    (p : Process)
    (m : Moment) :
    List (Transition Process Arrival) :=
  let p := p.apply airtimeUs (.host (p.admin.tick m.now))
  replay (hear airtimeUs) p (p.device.receives m.arrivals)

/- Nobody logs in with the admin password in this turn. -/
def Unoffered (t : Transition Process Moment) : Prop :=
  ∀ u ∈ hearings airtimeUs t.before t.event,
    u.before.node.offersAdmin (heardAs airtimeUs u.event) =
      false

variable {airtimeUs sign}
variable {p p' p'' : Process}

omit [CryptoCore] in
theorem Guarded.refl
    (hNoAdmin : p.node.1.NoAdmin) :
    p.Guarded p :=
  ⟨⟨rfl, fun h => h⟩, rfl, hNoAdmin, rfl, rfl⟩

omit [CryptoCore] in
theorem Guarded.trans
    (hFirst : p.Guarded p')
    (hThen : p'.Guarded p'') :
    p.Guarded p'' where
  host :=
    { rest := by
        rw [hThen.host.rest, hFirst.host.rest]
      asked := fun h => hFirst.host.asked (hThen.host.asked h) }
  settings := hThen.settings.trans hFirst.settings
  noAdmin := hThen.noAdmin
  config := hThen.config.trans hFirst.config
  looping := hThen.looping.trans hFirst.looping

omit [CryptoCore] in
/- The driver, the timers and the files are not looked at. -/
theorem Guarded.congr
    (hSame : p.Guarded p')
    (hNode : p''.node = p'.node)
    (hConfig : p''.config = p'.config)
    (hLooping : p''.looping = p'.looping) :
    p.Guarded p'' where
  host := by
    rw [admin, admin, hNode]
    exact hSame.host
  settings := by
    rw [hNode]
    exact hSame.settings
  noAdmin := by
    rw [hNode]
    exact hSame.noAdmin
  config := hConfig.trans hSame.config
  looping := hLooping.trans hSame.looping

variable (airtimeUs sign)

theorem guarded_apply
    (p : Process)
    (e : Node.Event HostAdmin)
    (hNoAdmin : p.node.1.NoAdmin)
    (hPassword : p.node.offersAdmin e = false)
    (hOther : ∀ host, e ≠ .host host) :
    p.Guarded (p.apply airtimeUs e) := by
  have hRoom := Node.apply_guarded hNoAdmin hPassword hOther
  have hHost : (p.apply airtimeUs e).admin = p.admin :=
    hRoom.host
  exact
    { host := by
        rw [hHost]
        exact ⟨rfl, fun h => h⟩
      settings := hRoom.settings
      noAdmin := hRoom.noAdmin
      config := rfl
      looping := rfl }

/- The loop sets the clock of its host, and its request. -/
theorem guarded_host
    (p : Process)
    {host : HostAdmin}
    (hNoAdmin : p.node.1.NoAdmin)
    (hHost : p.admin.Guarded host) :
    p.Guarded (p.apply airtimeUs (.host host)) :=
  ⟨hHost, rfl, hNoAdmin, rfl, rfl⟩

theorem guarded_hear
    (heard : List Arrival)
    (p : Process)
    (hNoAdmin : p.node.1.NoAdmin)
    (hPassword :
      ∀ u ∈ replay (hear airtimeUs) p heard,
        u.before.node.offersAdmin
          (heardAs airtimeUs u.event) = false) :
    p.Guarded (heard.foldl (hear airtimeUs) p) := by
  induction heard generalizing p with
  | nil => exact .refl hNoAdmin
  | cons one heard ih =>
      rw [replay, List.forall_mem_cons] at hPassword
      rcases hPassword with ⟨hHere, hRest⟩
      have hFirst : p.Guarded (p.hear airtimeUs one) := by
        apply guarded_apply airtimeUs p _ hNoAdmin hHere
        intro host hHost
        cases hHost
      rw [List.foldl_cons]
      exact hFirst.trans (ih _ hFirst.noAdmin hRest)

theorem guarded_sendAdvert
    (p : Process)
    (m : Moment)
    (hNoAdmin : p.node.1.NoAdmin) :
    p.Guarded (p.sendAdvert airtimeUs sign m) := by
  simp only [sendAdvert]
  split
  · exact (Guarded.refl hNoAdmin).congr rfl rfl rfl
  · exact (guarded_apply airtimeUs p (.advert _) hNoAdmin rfl
      (by simp)).congr rfl rfl rfl

theorem guarded_advertise
    (p : Process)
    (m : Moment)
    (hNoAdmin : p.node.1.NoAdmin) :
    p.Guarded (p.advertise airtimeUs sign m) := by
  simp only [advertise]
  split
  · exact guarded_sendAdvert airtimeUs sign p m hNoAdmin
  · have hTaken :
        p.Guarded
          (p.apply airtimeUs
            (.host p.admin.takeAdvertRequest.2)) :=
      guarded_host airtimeUs p hNoAdmin ⟨rfl, by
        simp [HostAdmin.takeAdvertRequest]⟩
    split
    · exact hTaken.trans
        (guarded_sendAdvert airtimeUs sign _ m hTaken.noAdmin)
    · exact hTaken

theorem guarded_reportLoad
    (p : Process)
    (hNoAdmin : p.node.1.NoAdmin) :
    p.Guarded (p.reportLoad airtimeUs) := by
  have hAsked : p.Guarded (p.askLoad airtimeUs) :=
    (Guarded.refl hNoAdmin).congr rfl rfl rfl
  exact hAsked.trans
    (guarded_apply airtimeUs _
      (.radioLoad (usedPermilleOf p.device)) hAsked.noAdmin
      rfl (by simp))

theorem guarded_tickDevice
    {m : Moment}
    (p : Process)
    (hNoAdmin : p.node.1.NoAdmin)
    (hPassword :
      ∀ u ∈ replay (hear airtimeUs) p
          (p.device.receives m.arrivals),
        u.before.node.offersAdmin
          (heardAs airtimeUs u.event) = false) :
    p.Guarded (p.tickDevice airtimeUs m) :=
  (guarded_hear airtimeUs _ p hNoAdmin hPassword).congr rfl rfl
    rfl

theorem guarded_work
    {m : Moment} {q : Process}
    (hNoAdmin : p.node.1.NoAdmin)
    (hPassword : Unoffered airtimeUs ⟨p, m, q⟩) :
    p.Guarded (p.work airtimeUs sign m) := by
  have hTicked :
      p.Guarded
        (p.apply airtimeUs (.host (p.admin.tick m.now))) :=
    guarded_host airtimeUs p hNoAdmin ⟨rfl, fun h => h⟩
  have hDevice := hTicked.trans
    (guarded_tickDevice airtimeUs _ hTicked.noAdmin hPassword)
  have hRouted := hDevice.trans
    (guarded_apply airtimeUs _ (.routing m.now)
      hDevice.noAdmin rfl (by simp))
  have hClocked := hRouted.trans
    (guarded_apply airtimeUs _ (.serverTime m.wall)
      hRouted.noAdmin rfl (by simp))
  have hLoaded := hClocked.trans
    (guarded_reportLoad airtimeUs _ hClocked.noAdmin)
  have hBoard := hLoaded.trans
    (guarded_apply airtimeUs _ (.board m.now) hLoaded.noAdmin
      rfl (by simp))
  exact hBoard.trans
    (guarded_advertise airtimeUs sign _ m hBoard.noAdmin)

/- A turn, which nothing makes the last one. -/
theorem guarded_turn
    {m : Moment} {q : Process}
    (hNoAdmin : p.node.1.NoAdmin)
    (hPassword : Unoffered airtimeUs ⟨p, m, q⟩)
    (hStays : p.admin.rebootAt = 0) :
    p.Guarded (p.turn airtimeUs sign m) := by
  have hWorked :=
    guarded_work airtimeUs sign hNoAdmin hPassword
  have hNever :
      ¬ (p.work airtimeUs sign m).admin.rebootDue = true := by
    have hSame :
        (p.work airtimeUs sign m).admin.rebootAt =
          p.admin.rebootAt := by
      rw [hWorked.host.rest]
    simp [HostAdmin.rebootDue, hSame, hStays]
  simp only [turn]
  rw [if_neg hNever]
  have hFlushed :
      p.Guarded ((p.work airtimeUs sign m).flush m) := by
    simp only [flush]
    split
    · exact hWorked.congr rfl rfl rfl
    · exact hWorked
  simp only [report]
  split
  · exact hFlushed.congr rfl rfl rfl
  · exact hFlushed

/-
  In every run of the loop from a start without admins, as
  long as no login with the admin password comes in, the
  loop goes on, the name, the overlay and its file stay as
  they are, nobody is answered for the host, and the room
  keeps its settings.
-/
theorem outsiders_change_nothing
    {ms : List (Transition Process Moment)}
    (hNoAdmin : p.node.1.NoAdmin)
    (hStays : p.admin.rebootAt = 0)
    (hRun : Run (Step airtimeUs sign) p ms p')
    (hPassword : ∀ t ∈ ms, Unoffered airtimeUs t) :
    p.Guarded p' := by
  apply hRun.invariant_of_forall
    (I := p.Guarded) (C := Unoffered airtimeUs)
  · exact .refl hNoAdmin
  · exact hPassword
  · rintro q m q' hSame ⟨-, rfl⟩ hUnoffered
    have hStill : q.admin.rebootAt = 0 := by
      rw [hSame.host.rest]
      exact hStays
    exact hSame.trans
      (guarded_turn airtimeUs sign hSame.noAdmin hUnoffered
        hStill)

end Steps

section Example

open Sample

/- A login to our node, which has the hash 2. -/
def loginFrame (timestamp : UInt32) (password : Bytes) :
    Bytes :=
  Node.frameOf
    (Node.crowdPacket 5 .anonReq
      (2 :: (Node.crowdKey 5).toList)
      (writeUint32 timestamp ++ writeUint32 0 ++ password))

/- Somebody tries a password, and then another one. -/
def guesses : List Moment :=
  [{ now := 1
     arrivals := [{ frame := loginFrame 1 (ascii "a") }] },
    { now := 4000
      arrivals := [{ frame := loginFrame 2 (ascii "aa") }] }]

/- Both are heard, neither opens, and the loop goes on. -/
theorem guesses_change_nothing :
    let p' :=
      guesses.foldl (turn Traffic.shortAirtimeUs blankSign)
        started
    p'.node.1.failures.length = 1 ∧
      started.Guarded p' := by
  refine ⟨by decide +kernel, ?_⟩
  have hNoAdmin : started.node.1.NoAdmin := by
    unfold Room.NoAdmin
    decide +kernel
  have hPassword :
      ∀ t ∈ replay (turn Traffic.shortAirtimeUs blankSign)
          started guesses,
        Unoffered Traffic.shortAirtimeUs t := by
    unfold Unoffered
    decide +kernel
  exact outsiders_change_nothing Traffic.shortAirtimeUs
    blankSign hNoAdmin rfl
    (run_replay_of_guard _ _ _ (by decide +kernel)) hPassword

end Example

end Process

end MeshCore
