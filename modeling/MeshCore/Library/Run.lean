import Mathlib.Data.List.Forall2
import Mathlib.Data.List.Induction

/-
  Runs of a labelled transition system, kept as the list of
  their transitions, and the induction rules over them.

  Key definitions include:
    * `Transition`
    * `Run`
    * `replay`

  Key rules include:
    * `Run.invariant`
    * `Run.invariant_mem`, `Run.invariant_mem_of_forall`
    * `Run.split`, `Run.split_cons`
    * `Run.split_first`, `Run.split_last`
    * `Run.exists_first`, `Run.exists_last`
    * `Run.mono`, `Run.map`
    * `Run.simulate`
    * `run_replay`
    * `decidableEverySplit`
-/

/- One step of a run: where it began, why, where it ended. -/
structure Transition (σ ε : Type) where
  before : σ
  event : ε
  after : σ

/-
  `Run Step s₀ ts s` holds when the transitions `ts`, each
  one allowed by `Step`, lead from `s₀` to `s`.
-/
inductive Run
    {σ ε : Type}
    (Step : σ → ε → σ → Prop)
    (s₀ : σ) :
    List (Transition σ ε) → σ → Prop where
| start : Run Step s₀ [] s₀
| step
    {ts : List (Transition σ ε)}
    {s s' : σ}
    {e : ε}
    (hRun : Run Step s₀ ts s)
    (hStep : Step s e s') :
    Run Step s₀ (ts ++ [⟨s, e, s'⟩]) s'

namespace Run

variable {σ ε : Type}
variable {Step : σ → ε → σ → Prop}
variable {s₀ s s' : σ} {e : ε}
variable {ts us : List (Transition σ ε)}

/- A run without a transition ends where it starts. -/
theorem eq_of_nil
    (hRun : Run Step s₀ [] s) :
    s = s₀ := by
  generalize hAll : ([] : List (Transition σ ε)) = all
    at hRun
  cases hRun with
  | start => rfl
  | step => simp at hAll

/- One step is a run. -/
theorem single
    (hStep : Step s e s') :
    Run Step s [⟨s, e, s'⟩] s' :=
  .step .start hStep

/- A run is carried on by a transition from its end. -/
theorem snoc
    {t : Transition σ ε}
    (hRun : Run Step s₀ ts t.before)
    (hStep : Step t.before t.event t.after) :
    Run Step s₀ (ts ++ [t]) t.after :=
  .step hRun hStep

/- Every transition of a run is allowed. -/
theorem step_of_mem
    (hRun : Run Step s₀ ts s)
    {t : Transition σ ε}
    (ht : t ∈ ts) :
    Step t.before t.event t.after := by
  induction hRun with
  | start => simp at ht
  | step _ hStep ih =>
      rcases List.mem_append.mp ht with ht | ht
      · exact ih ht
      · rw [List.mem_singleton.mp ht]
        exact hStep

/- A run of a system is one of any system that allows more. -/
theorem mono
    {Step' : σ → ε → σ → Prop}
    (hRun : Run Step s₀ ts s)
    (hMore : ∀ s e s', Step s e s' → Step' s e s') :
    Run Step' s₀ ts s := by
  induction hRun with
  | start => exact .start
  | step _ hStep ih => exact .step ih (hMore _ _ _ hStep)

/- A state predicate kept by every step holds at the end. -/
theorem invariant
    {I : σ → Prop}
    (hRun : Run Step s₀ ts s)
    (hStart : I s₀)
    (hKeep :
      ∀ s e s', I s → Step s e s' → I s') :
    I s := by
  induction hRun with
  | start => exact hStart
  | step _ hStep ih => exact hKeep _ _ _ ih hStep

/-
  The same rule when a step keeps the predicate only under
  a condition that every transition of the run meets.
-/
theorem invariant_of_forall
    {I : σ → Prop}
    {C : Transition σ ε → Prop}
    (hRun : Run Step s₀ ts s)
    (hStart : I s₀)
    (hCond : ∀ t ∈ ts, C t)
    (hKeep :
      ∀ s e s', I s → Step s e s' →
        C ⟨s, e, s'⟩ → I s') :
    I s := by
  induction hRun with
  | start => exact hStart
  | step _ hStep ih =>
      refine hKeep _ _ _ (ih ?_) hStep (hCond _ (by simp))
      intro t ht
      exact hCond t (by simp [ht])

/- A run is cut anywhere into two runs. -/
theorem split
    (hRun : Run Step s₀ (ts ++ us) s) :
    ∃ m, Run Step s₀ ts m ∧ Run Step m us s := by
  induction us using List.reverseRecOn generalizing s with
  | nil =>
      rw [List.append_nil] at hRun
      exact ⟨s, hRun, .start⟩
  | append_singleton us t ih =>
      rw [← List.append_assoc] at hRun
      generalize hAll : ts ++ us ++ [t] = all at hRun
      cases hRun with
      | start => simp at hAll
      | step hPrefix hStep =>
          rcases List.append_inj' hAll rfl with
            ⟨hInit, hLast⟩
          subst hInit
          rw [List.cons.injEq] at hLast
          rw [hLast.1]
          rcases ih hPrefix with ⟨m, hLeft, hRight⟩
          exact ⟨m, hLeft, .step hRight hStep⟩

/- A run is cut around any one of its transitions. -/
theorem split_cons
    {t : Transition σ ε}
    (hRun : Run Step s₀ (ts ++ t :: us) s) :
    Run Step s₀ ts t.before ∧
      Step t.before t.event t.after ∧
      Run Step t.after us s := by
  rw [List.append_cons] at hRun
  rcases hRun.split with ⟨m, hLeft, hRight⟩
  generalize hAll : ts ++ [t] = all at hLeft
  cases hLeft with
  | start => simp at hAll
  | step hPrefix hStep =>
      rcases List.append_inj' hAll rfl with
        ⟨hInit, hLast⟩
      subst hInit
      rw [List.cons.injEq] at hLast
      rw [hLast.1]
      exact ⟨hPrefix, hStep, hRight⟩

/- A run is cut behind its first transition. -/
theorem split_first
    {t : Transition σ ε}
    (hRun : Run Step s₀ (t :: us) s) :
    t.before = s₀ ∧
      Step t.before t.event t.after ∧
      Run Step t.after us s := by
  rw [← List.nil_append (t :: us)] at hRun
  rcases hRun.split_cons with ⟨hNothing, hStep, hRest⟩
  exact ⟨hNothing.eq_of_nil, hStep, hRest⟩

/- A run is cut before its last transition. -/
theorem split_last
    {t : Transition σ ε}
    (hRun : Run Step s₀ (ts ++ [t]) s) :
    Run Step s₀ ts t.before ∧
      Step t.before t.event t.after ∧
      t.after = s := by
  generalize hAll : ts ++ [t] = all at hRun
  cases hRun with
  | start => simp at hAll
  | step hPrefix hStep =>
      rcases List.append_inj' hAll rfl with
        ⟨hInit, hLast⟩
      subst hInit
      rw [List.cons.injEq] at hLast
      rw [hLast.1]
      exact ⟨hPrefix, hStep, rfl⟩

/- Two runs that meet make one run. -/
theorem trans
    (hLeft : Run Step s₀ ts s)
    (hRight : Run Step s us s') :
    Run Step s₀ (ts ++ us) s' := by
  induction hRight with
  | start => rwa [List.append_nil]
  | step _ hStep ih =>
      rw [← List.append_assoc]
      exact .step ih hStep

/- The run that ends where a given transition begins. -/
theorem before_of_mem
    (hRun : Run Step s₀ ts s)
    {t : Transition σ ε}
    (ht : t ∈ ts) :
    ∃ pre post,
      ts = pre ++ t :: post ∧
        Run Step s₀ pre t.before := by
  induction hRun with
  | start => simp at ht
  | @step ts s s' e hPrefix hStep ih =>
      rcases List.mem_append.mp ht with ht | ht
      · rcases ih ht with ⟨pre, post, rfl, hPre⟩
        exact ⟨pre, post ++ [⟨s, e, s'⟩],
          by simp, hPre⟩
      · rw [List.mem_singleton.mp ht]
        exact ⟨ts, [], rfl, hPrefix⟩

/- What happens at all happens a first time. -/
theorem exists_first
    {P : Transition σ ε → Prop}
    (hSome : ∃ t ∈ ts, P t) :
    ∃ pre t post,
      ts = pre ++ t :: post ∧ P t ∧ ∀ u ∈ pre, ¬ P u := by
  induction ts with
  | nil => simp at hSome
  | cons t ts ih =>
      by_cases hHere : P t
      · exact ⟨[], t, ts, rfl, hHere, by simp⟩
      · have hLater : ∃ t ∈ ts, P t := by
          rcases hSome with ⟨u, hu, hThere⟩
          rcases List.mem_cons.mp hu with rfl | hu
          · contradiction
          · exact ⟨u, hu, hThere⟩
        rcases ih hLater with
          ⟨pre, first, post, rfl, hFirst, hNone⟩
        refine ⟨t :: pre, first, post, rfl, hFirst, ?_⟩
        intro u hu
        rcases List.mem_cons.mp hu with rfl | hu
        · exact hHere
        · exact hNone u hu

/- What happens at all happens a last time. -/
theorem exists_last
    {P : Transition σ ε → Prop}
    (hSome : ∃ t ∈ ts, P t) :
    ∃ pre last post,
      ts = pre ++ last :: post ∧ P last ∧
        ∀ t ∈ post, ¬ P t := by
  have hBack : ∃ t ∈ ts.reverse, P t := by
    simpa using hSome
  rcases exists_first hBack with
    ⟨post, last, pre, hSplit, hLast, hNone⟩
  refine ⟨pre.reverse, last, post.reverse, ?_, hLast, ?_⟩
  · rw [← List.reverse_reverse ts, hSplit]
    simp
  · simpa using hNone

/- An invariant holds before and after every transition. -/
theorem invariant_mem
    {I : σ → Prop}
    (hRun : Run Step s₀ ts s)
    (hStart : I s₀)
    (hKeep :
      ∀ s e s', I s → Step s e s' → I s')
    {t : Transition σ ε}
    (ht : t ∈ ts) :
    I t.before ∧ I t.after := by
  rcases hRun.before_of_mem ht with
    ⟨_, _, _, hBefore⟩
  have hI := hBefore.invariant hStart hKeep
  exact ⟨hI, hKeep _ _ _ hI (hRun.step_of_mem ht)⟩

/- The two rules above in one. -/
theorem invariant_mem_of_forall
    {I : σ → Prop}
    {C : Transition σ ε → Prop}
    (hRun : Run Step s₀ ts s)
    (hStart : I s₀)
    (hCond : ∀ t ∈ ts, C t)
    (hKeep :
      ∀ s e s', I s → Step s e s' →
        C ⟨s, e, s'⟩ → I s')
    {t : Transition σ ε}
    (ht : t ∈ ts) :
    I t.before ∧ I t.after := by
  rcases hRun.before_of_mem ht with
    ⟨pre, post, rfl, hBefore⟩
  have hI :=
    hBefore.invariant_of_forall hStart
      (fun u hu => hCond u (List.mem_append_left _ hu)) hKeep
  exact ⟨hI,
    hKeep _ _ _ hI (hRun.step_of_mem ht) (hCond t ht)⟩

end Run

------------------------------------------------------------
-- Simulation
------------------------------------------------------------

section Simulation

variable {σ ε σ' ε' : Type}

/- A transition, as another system shows it. -/
def Transition.map
    (f : σ → σ')
    (g : Transition σ ε → ε')
    (t : Transition σ ε) :
    Transition σ' ε' :=
  ⟨f t.before, g t, f t.after⟩

/- Where every step is one of another system, so is a run. -/
theorem Run.map
    {Step : σ → ε → σ → Prop}
    {Step' : σ' → ε' → σ' → Prop}
    {s₀ s : σ}
    {ts : List (Transition σ ε)}
    {f : σ → σ'}
    {g : Transition σ ε → ε'}
    (hRun : Run Step s₀ ts s)
    (hStep :
      ∀ t ∈ ts, Step' (f t.before) (g t) (f t.after)) :
    Run Step' (f s₀) (ts.map (Transition.map f g)) (f s) := by
  induction hRun with
  | start => exact .start
  | step _ _ ih =>
      rw [List.map_append]
      apply Run.step
      · exact ih fun t ht => hStep t (by simp [ht])
      · exact hStep _ (by simp)

/-
  Where every step comes to some steps of another system, a
  run comes to a run, block by block.
-/
theorem Run.simulate
    {Step : σ → ε → σ → Prop}
    {Step' : σ' → ε' → σ' → Prop}
    {f : σ → σ'}
    {R :
      Transition σ ε → List (Transition σ' ε') → Prop}
    {s₀ s : σ}
    {ts : List (Transition σ ε)}
    (hRun : Run Step s₀ ts s)
    (hStep :
      ∀ s e s', Step s e s' →
        ∃ us,
          Run Step' (f s) us (f s') ∧ R ⟨s, e, s'⟩ us) :
    ∃ uss,
      Run Step' (f s₀) uss.flatten (f s) ∧
        List.Forall₂ R ts uss := by
  induction hRun with
  | start => exact ⟨[], .start, .nil⟩
  | step _ hHere ih =>
      rcases ih with ⟨uss, hUs, hAll⟩
      rcases hStep _ _ _ hHere with ⟨us, hBlock, hR⟩
      refine ⟨uss ++ [us], ?_,
        List.rel_append hAll (.cons hR .nil)⟩
      rw [List.flatten_append, List.flatten_singleton]
      exact hUs.trans hBlock

end Simulation

------------------------------------------------------------
-- Deterministic Systems
------------------------------------------------------------

section Deterministic

variable {σ ε : Type}

/- The transitions a step function makes on given events. -/
def replay
    (f : σ → ε → σ)
    (s : σ) :
    List ε → List (Transition σ ε)
| [] => []
| e :: es => ⟨s, e, f s e⟩ :: replay f (f s e) es

theorem replay_append
    (f : σ → ε → σ)
    (s : σ)
    (es fs : List ε) :
    replay f s (es ++ fs) =
      replay f s es ++ replay f (es.foldl f s) fs := by
  induction es generalizing s with
  | nil => rfl
  | cons e es ih =>
      rw [List.cons_append, replay, replay, ih]
      rfl

/- The transition that an event in between makes. -/
theorem mem_replay
    (f : σ → ε → σ)
    (s : σ)
    (es fs : List ε)
    (e : ε) :
    ⟨es.foldl f s, e, f (es.foldl f s) e⟩ ∈
      replay f s (es ++ e :: fs) := by
  rw [replay_append]
  exact List.mem_append_right _ List.mem_cons_self

theorem events_replay
    (f : σ → ε → σ)
    (s : σ)
    (es : List ε) :
    (replay f s es).map (·.event) = es := by
  induction es generalizing s with
  | nil => rfl
  | cons e es ih => rw [replay, List.map_cons, ih]

/- Replaying events is a run of the step function. -/
theorem run_replay
    (f : σ → ε → σ)
    (s : σ)
    (es : List ε) :
    Run (fun s e s' => f s e = s') s
      (replay f s es) (es.foldl f s) := by
  induction es generalizing s with
  | nil => exact .start
  | cons e es ih =>
      have hFirst :
          Run (fun s e s' => f s e = s') s
            [⟨s, e, f s e⟩] (f s e) :=
        Run.single rfl
      exact hFirst.trans (ih (f s e))

/- Where every event is permitted it is a guarded run. -/
theorem run_replay_of_guard
    {G : σ → ε → Prop}
    (f : σ → ε → σ)
    (s : σ)
    (es : List ε)
    (hGuard : ∀ t ∈ replay f s es, G t.before t.event) :
    Run (fun s e s' => G s e ∧ f s e = s') s
      (replay f s es) (es.foldl f s) := by
  induction es generalizing s with
  | nil => exact .start
  | cons e es ih =>
      have hFirst :
          Run (fun s e s' => G s e ∧ f s e = s') s
            [⟨s, e, f s e⟩] (f s e) :=
        Run.single ⟨hGuard _ List.mem_cons_self, rfl⟩
      exact hFirst.trans (ih (f s e) fun t ht =>
        hGuard t (List.mem_cons_of_mem _ ht))

end Deterministic

------------------------------------------------------------
-- Deciding
------------------------------------------------------------

/- What each element is to have to do with those before it. -/
instance decidableEverySplit
    {α : Type}
    {P : List α → α → Prop}
    [∀ pre a, Decidable (P pre a)]
    (l : List α) :
    Decidable
      (∀ pre a post, l = pre ++ a :: post → P pre a) :=
  decidable_of_iff
    (∀ i : Fin l.length, P (l.take i) (l.get i))
    ⟨by
      rintro hAll pre a post rfl
      have hHere := hAll ⟨pre.length, by simp⟩
      simpa using hHere,
    by
      intro hAll i
      apply hAll _ _ (l.drop (i + 1))
      simp⟩
