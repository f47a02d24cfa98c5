import MeshCore.Routing.Routes

/-
  What the radio is given. A frame of our own is a real one
  as long as no route has 64 bytes: a path may be that long,
  but a frame counts 63 hops, and a frame that cannot be
  written goes out empty.

  Key definitions include:
    * `Router.Carries`
    * `Router.Meant`
    * `Router.Fits`

  Key facts include:
    * `Router.errand_carries`
    * `Router.radio_gets_real_frames`
-/

namespace MeshCore

namespace Router

/- A real frame, of this type and with this payload. -/
structure Carries
    (frame : Bytes)
    (type : PayloadType)
    (payload : Bytes) :
    Prop where
  nonempty : frame ≠ []
  length_le : frame.length ≤ maxPacketFrame
  parses :
    ∃ p,
      parse frame = some p ∧
      p.payloadType = type ∧
      p.payload = payload

/- Whatever the parser accepts is a real frame. -/
theorem carries_of_parse
    {frame : Bytes} {p : Packet}
    (hParse : parse frame = some p) :
    Carries frame p.payloadType p.payload := by
  refine
    { nonempty := ?_
      length_le := ?_
      parses := ⟨p, hParse, rfl, rfl⟩ }
  · rintro rfl
    contradiction
  · simp only [parse] at hParse
    split_ifs at hParse with hSize
    omega

/- No route is longer than a frame can count. -/
def ShortRoutes (r : Router) : Prop :=
  ∀ route ∈ r.routes, route.path.length ≤ maxHopCount

theorem SameRoutes.shortRoutes
    {r r' : Router}
    (hSame : r.SameRoutes r')
    (hShort : r.ShortRoutes) :
    r'.ShortRoutes := by
  intro route hRoute
  rw [hSame.routes] at hRoute
  exact hShort route hRoute

theorem installAll_shortRoutes
    {r : Router} {paths : List Bytes}
    (hShort : r.ShortRoutes)
    (hPaths : ∀ path ∈ paths, path.length ≤ maxHopCount)
    (peer : PublicKey) :
    (r.installAll peer paths).ShortRoutes := by
  induction paths generalizing r with
  | nil => exact hShort
  | cons path paths ih =>
      apply ih
      · intro route hRoute
        rcases mem_installRoute hRoute with hOld | hNew
        · exact hShort route hOld
        · rw [hNew]
          exact hPaths path List.mem_cons_self
      · intro other hOther
        exact hPaths other (List.mem_cons_of_mem _ hOther)

/- What goes by a short route carries what is asked. -/
theorem errand_carries
    {r : Router} {errands : List Errand} {errand : Errand}
    (hShort : r.ShortRoutes)
    (hGoBy : r.GoBy errands)
    (hErrand : errand ∈ errands)
    (hPayload : errand.payload.length ≤ maxPacketPayload) :
    Carries errand.frame errand.type errand.payload := by
  have hParse :
      parse errand.frame =
        some
          (built errand.type errand.payload
            errand.route) := by
    apply parse_buildFrame
    intro route hRoute
    exact hShort route (hGoBy errand hErrand route hRoute)
  have hType :
      (built errand.type errand.payload
          errand.route).payloadType =
        errand.type :=
    payloadTypeOf_headerOf _ _
  have hWhole :
      (built errand.type errand.payload
          errand.route).payload =
        errand.payload :=
    List.take_of_length_le hPayload
  have hCarries := carries_of_parse hParse
  rw [hType, hWhole] at hCarries
  exact hCarries

section Radio

variable [CryptoCore]
variable {δ : Type} {D : Delegate δ}

/-
  What is to be sent fits a packet, and every path that is
  installed fits a frame.
-/
structure Fits
    (D : Delegate δ)
    (s : δ × Router)
    (e : Event δ) :
    Prop where
  payloads :
    ∀ errand ∈ errandsAt D s e,
      errand.payload.length ≤ maxPacketPayload
  paths :
    ∀ heard ∈ installsAt D s e, ∀ path ∈ heard.2,
      path.length ≤ maxHopCount

instance
    (D : Delegate δ)
    (s : δ × Router)
    (e : Event δ) :
    Decidable (Fits D s e) :=
  decidable_of_iff
    ((∀ errand ∈ errandsAt D s e,
      errand.payload.length ≤ maxPacketPayload) ∧
      ∀ heard ∈ (installsAt D s e).toList,
        ∀ path ∈ heard.2, path.length ≤ maxHopCount)
    ⟨fun h =>
        ⟨h.1, fun heard hHeard =>
          h.2 heard (Option.mem_toList.mpr hHeard)⟩,
      fun h =>
        ⟨h.1, fun heard hHeard =>
          h.2 heard (Option.mem_toList.mp hHeard)⟩⟩

theorem Fits.shortRoutes
    {s : δ × Router} {e : Event δ}
    (hFits : Fits D s e)
    (hShort : s.2.ShortRoutes) :
    (apply D s e).2.ShortRoutes := by
  cases e with
  | frame frame rx =>
      apply (onFrame_routes frame rx s).shortRoutes
      cases hHeard : installsAt D s (.frame frame rx) with
      | none => exact hShort
      | some heard =>
          exact installAll_shortRoutes hShort
            (hFits.paths heard hHeard) heard.1
  | tick now =>
      intro route hRoute
      exact hShort route
        ((tick_routes now s).subset hRoute)
  | above task =>
      exact (run_routes (task s.1) s.2).shortRoutes hShort

/- Every errand of a step that fits is carried. -/
theorem Fits.carries
    {s : δ × Router} {e : Event δ} {errand : Errand}
    (hFits : Fits D s e)
    (hShort : s.2.ShortRoutes)
    (hErrand : errand ∈ errandsAt D s e) :
    Carries errand.frame errand.type errand.payload := by
  have hPayload := hFits.payloads errand hErrand
  cases e with
  | frame frame rx =>
      apply errand_carries ?_ (goBy_frameErrands frame s)
        hErrand hPayload
      cases hHeard : heardFrom D frame s with
      | none => exact hShort
      | some heard =>
          apply installAll_shortRoutes hShort
          intro path hPath
          apply hFits.paths (installsOf heard.1 heard.2)
          · rw [installsAt, hHeard]
            rfl
          · exact List.mem_append_left _ hPath
  | tick now =>
      rw [errandsAt] at hErrand
      contradiction
  | above task =>
      exact errand_carries hShort
        (goBy_errandsOf (task s.1) s.2) hErrand hPayload

/-
  `Meant D t frame type payload` holds when `frame` is what
  this transition made of a payload that was to be sent, or
  of a packet that was to travel on.
-/
inductive Meant
    (D : Delegate δ)
    (t : Transition (δ × Router) (Event δ)) :
    Bytes →
    PayloadType →
    Bytes →
    Prop where
| errand
    {errand : Errand}
    (hErrand : errand ∈ errandsAt D t.before t.event) :
    Meant D t errand.frame errand.type errand.payload
| transit
    {frame out payload : Bytes}
    {rx : RxMeta}
    {p : Packet}
    (hEvent : t.event = .frame frame rx)
    (hParse : parse frame = some p)
    (hReading : ReadingAdded p payload)
    (hQueued :
      .queued out ∈ t.before.2.actsSince t.after.2) :
    Meant D t out p.payloadType payload

/- Only a frame makes the router queue one. -/
theorem frame_of_queued
    {s : δ × Router} {e : Event δ} {out : Bytes}
    (hQueued :
      .queued out ∈ s.2.actsSince (apply D s e).2) :
    ∃ frame rx, e = .frame frame rx := by
  cases e with
  | frame frame rx => exact ⟨frame, rx, rfl⟩
  | tick now =>
      rcases (tick_releases (D := D) now s).acts with
        ⟨acts, hDoes, hRelease, -⟩
      have hActs : s.2.actsSince (tick D now s).2 = acts :=
        hDoes.actsSince
      rw [apply, hActs] at hQueued
      exact absurd (hRelease _ hQueued) id
  | above task =>
      rcases run_does (task s.1) s.2 with
        ⟨acts, hDoes, hSend⟩
      rw [apply, hDoes.actsSince] at hQueued
      exact absurd (hSend _ hQueued) id

/- Everything in the history was done in some transition. -/
theorem exists_transition_of_history
    {store : Store} {entropy : Entropy}
    {config : RouterConfig} {d : δ}
    {ts : List (Transition (δ × Router) (Event δ))}
    {s : δ × Router} {a : Act}
    (hRun :
      Run (fun s e s' => apply D s e = s')
        (d, create store entropy config) ts s)
    (ha : a ∈ s.2.history) :
    ∃ t ∈ ts, a ∈ t.before.2.actsSince t.after.2 := by
  induction hRun with
  | start => simp [create] at ha
  | @step ts s s' e hBefore hStep ih =>
      rcases apply_does (D := D) e s with ⟨acts, hDoes⟩
      have hActs : s.2.actsSince (apply D s e).2 = acts :=
        hDoes.actsSince
      rw [hStep] at hDoes hActs
      rw [hDoes.history, List.mem_append] at ha
      rcases ha with hOld | hNew
      · rcases ih hOld with ⟨t, ht, hMem⟩
        exact ⟨t, List.mem_append_left _ ht, hMem⟩
      · refine ⟨⟨s, e, s'⟩, by simp, ?_⟩
        rw [hActs]
        exact hNew

theorem sourced_of_router_run
    {store : Store} {entropy : Entropy}
    {config : RouterConfig} {d : δ}
    {ts : List (Transition (δ × Router) (Event δ))}
    {s : δ × Router}
    (hRun :
      Run (fun s e s' => apply D s e = s')
        (d, create store entropy config) ts s) :
    s.2.Sourced := by
  apply hRun.invariant (I := fun s => s.2.Sourced)
  · exact sourced_create store entropy config
  · intro s e s' hSourced hStep
    rw [← hStep]
    exact hSourced.apply e

theorem shortRoutes_of_run
    {store : Store} {entropy : Entropy}
    {config : RouterConfig} {d : δ}
    {ts : List (Transition (δ × Router) (Event δ))}
    {s : δ × Router}
    (hRun :
      Run (fun s e s' => apply D s e = s')
        (d, create store entropy config) ts s)
    (hFits : ∀ t ∈ ts, Fits D t.before t.event) :
    s.2.ShortRoutes := by
  apply hRun.invariant_of_forall
    (I := fun s => s.2.ShortRoutes)
    (C := fun t => Fits D t.before t.event)
  · intro route hRoute
    contradiction
  · exact hFits
  · intro s e s' hShort hStep hFits
    rw [← hStep]
    exact hFits.shortRoutes hShort

/-
  In every run from a new router whose steps fit: each step
  originates one frame for everything it is to send, in that
  order, and every frame the radio was given is a real one,
  with the type and the payload that were meant when it was
  made.
-/
theorem radio_gets_real_frames
    {store : Store} {entropy : Entropy}
    {config : RouterConfig} {d : δ}
    {ts : List (Transition (δ × Router) (Event δ))}
    {s : δ × Router}
    (hRun :
      Run (fun s e s' => apply D s e = s')
        (d, create store entropy config) ts s)
    (hFits : ∀ t ∈ ts, Fits D t.before t.event) :
    (∀ t ∈ ts,
      (t.before.2.actsSince t.after.2).filterMap
          originatedOf =
        (errandsAt D t.before t.event).map Errand.frame) ∧
      ∀ frame ∈ s.2.history.filterMap handedOf,
        ∃ t ∈ ts, ∃ type payload,
          Meant D t frame type payload ∧
            Carries frame type payload := by
  constructor
  · intro t ht
    rw [← hRun.step_of_mem ht]
    exact originated_apply t.event t.before
  · intro frame hFrame
    rcases (sourced_of_router_run hRun).handed frame hFrame
      with hSent | hQueued
    · rcases List.mem_filterMap.mp hSent with
        ⟨a, ha, hOf⟩
      rcases exists_transition_of_history hRun ha with
        ⟨t, ht, hMem⟩
      rcases hRun.before_of_mem ht with
        ⟨pre, post, hSplit, hBefore⟩
      have hShort :=
        shortRoutes_of_run hBefore fun u hu =>
          hFits u (by simp [hSplit, hu])
      have hHere :
          frame ∈
            (t.before.2.actsSince t.after.2).filterMap
              originatedOf :=
        List.mem_filterMap.mpr ⟨a, hMem, hOf⟩
      rw [← hRun.step_of_mem ht, originated_apply,
        List.mem_map] at hHere
      rcases hHere with ⟨errand, hErrand, rfl⟩
      exact ⟨t, ht, _, _, .errand hErrand,
        (hFits t ht).carries hShort hErrand⟩
    · rcases exists_transition_of_history hRun hQueued with
        ⟨t, ht, hMem⟩
      have hStep := hRun.step_of_mem ht
      have hApplied := hMem
      rw [← hStep] at hApplied
      rcases frame_of_queued hApplied with
        ⟨heard, rx, hEvent⟩
      rw [hEvent, apply] at hApplied
      rcases exists_parse_of_queued hApplied with
        ⟨p, hParse⟩
      rcases (forwarded_onFrame hParse rx t.before).1 frame
          hApplied with
        ⟨q, hOut, hOnward, -⟩
      have hCarries := carries_of_parse hOut
      have hType : q.payloadType = p.payloadType := by
        simp [Packet.payloadType, hOnward.header]
      rw [hType] at hCarries
      exact ⟨t, ht, _, _,
        .transit hEvent hParse hOnward.payload hMem,
        hCarries⟩

end Radio

section Example

open Sample

/- Somebody logs in, and is sent an acknowledgement. -/
def answeredLogin
    (hashSize hopCount : UInt8)
    (path : Bytes) :
    List (Event Unit) :=
  [.frame (floodedLoginFrame hashSize hopCount path) {},
    .above fun _ =>
      MeshCore.sendAck (Vector.replicate _ 9) 7 []]

/-
  A login over 32 hops of two bytes each: the path fits the
  format, the way back of 64 bytes is kept, and the radio is
  given an empty frame.
-/
theorem long_way_back_goes_out_empty :
    let s₀ : Unit × Router := ((), ofByte 2)
    let es := answeredLogin 2 32 (List.replicate 64 11)
    let s := es.foldl (apply .carrier) s₀
    Run (fun s e s' => apply .carrier s e = s') s₀
        (replay (apply .carrier) s₀ es) s ∧
      [] ∈ s.2.history.filterMap handedOf :=
  ⟨run_replay _ _ _, by decide +kernel⟩

/- Over two hops of one byte it is a real one. -/
theorem short_way_back_is_real :
    let s₀ : Unit × Router := ((), ofByte 2)
    let es := answeredLogin 1 2 [11, 12]
    let ts := replay (apply .carrier) s₀ es
    let s := es.foldl (apply .carrier) s₀
    (∀ t ∈ ts,
      (t.before.2.actsSince t.after.2).filterMap
          originatedOf =
        (errandsAt .carrier t.before t.event).map
          Errand.frame) ∧
      ∀ frame ∈ s.2.history.filterMap handedOf,
        ∃ t ∈ ts, ∃ type payload,
          Meant .carrier t frame type payload ∧
            Carries frame type payload :=
  radio_gets_real_frames
    (run_replay (apply .carrier) ((), ofByte 2)
      (answeredLogin 1 2 [11, 12]))
    (by decide +kernel)

end Example

end Router

end MeshCore
