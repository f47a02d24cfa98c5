import MeshCore.Library.Run

/-
  Guards against replays: a memory holds the stamp of what
  passed last, and only what stands in the right relation to
  it may pass. What the memory forgets it does not guard.

  Key definitions include:
    * `Guard.Act`, `Guard.Step`
    * `Guard.passed`, `Guard.lost`
    * `Guard.Heeded`

  Key rules include:
    * `Guard.pairwise_of_heeded`
    * `Guard.heeded_of_pairwise`
-/

namespace Guard

variable {α : Type}

/- What can happen to a memory. -/
inductive Act (α : Type) where
| pass (a : α)
| idle
| forget

/-
  A stamp passes an empty memory, or one it is related to,
  and is then what the memory holds.
-/
inductive Step (R : α → α → Prop) :
    Option α → Act α → Option α → Prop where
| pass
    {m : Option α} {a : α}
    (hNext : ∀ g, m = some g → R g a) :
    Step R m (.pass a) (some a)
| idle (m : Option α) : Step R m .idle m
| forget (m m' : Option α) : Step R m .forget m'

abbrev Turn (α : Type) :=
  Transition (Option α) (Act α)

def passing (t : Turn α) : Option α :=
  match t.event with
  | .pass a => some a
  | _ => none

def losing (t : Turn α) : Option α :=
  match t.event with
  | .forget => t.before
  | _ => none

/- The stamps that passed, in order. -/
def passed (ts : List (Turn α)) : List α :=
  ts.filterMap passing

/- The stamps that were forgotten. -/
def lost (ts : List (Turn α)) : List α :=
  ts.filterMap losing

/- What passes heeds also what was forgotten before it. -/
def Heeded (R : α → α → Prop) (ts : List (Turn α)) : Prop :=
  ∀ pre t post,
    ts = pre ++ t :: post →
    ∀ a, passing t = some a →
      ∀ g ∈ lost pre, R g a

theorem passed_snoc (ts : List (Turn α)) (t : Turn α) :
    passed (ts ++ [t]) =
      passed ts ++ (passing t).toList := by
  unfold passed
  rw [List.filterMap_append]
  cases hPassing : passing t <;> simp [hPassing]

theorem lost_snoc (ts : List (Turn α)) (t : Turn α) :
    lost (ts ++ [t]) = lost ts ++ (losing t).toList := by
  unfold lost
  rw [List.filterMap_append]
  cases hLosing : losing t <;> simp [hLosing]

theorem Heeded.init
    {R : α → α → Prop} {ts : List (Turn α)} {t : Turn α}
    (hHeeded : Heeded R (ts ++ [t])) :
    Heeded R ts := by
  intro pre u post hSplit
  apply hHeeded pre u (post ++ [t])
  rw [hSplit]
  simp

/- A stamp is outdone by one that is still known. -/
def Outdone
    (R : α → α → Prop)
    (x : α)
    (known : α → Prop) :
    Prop :=
  ∃ g, known g ∧ (x = g ∨ R x g)

/-
  The step lemma: a stamp that passed is outdone by what the
  memory holds, or by what was forgotten.
-/
theorem outdone_of_run
    {R : α → α → Prop}
    (hTrans : ∀ a b c, R a b → R b c → R a c)
    {m₀ m : Option α} {ts : List (Turn α)}
    (hRun : Run (Step R) m₀ ts m)
    (hHeeded : Heeded R ts) :
    (passed ts).Pairwise R ∧
      ∀ x ∈ passed ts,
        Outdone R x fun g => g ∈ lost ts ∨ m = some g := by
  induction hRun with
  | start => exact ⟨.nil, nofun⟩
  | @step ts m m' act hRun hStep ih =>
      rcases ih hHeeded.init with ⟨hPairwise, hOutdone⟩
      rw [passed_snoc, lost_snoc]
      cases hStep with
      | idle =>
          simp only [passing, losing, Option.toList_none,
            List.append_nil]
          exact ⟨hPairwise, hOutdone⟩
      | forget =>
          simp only [passing, Option.toList_none,
            List.append_nil]
          refine ⟨hPairwise, ?_⟩
          intro x hx
          rcases hOutdone x hx with ⟨g, hLost | hIs, hx⟩
          · exact ⟨g, .inl (by simp [hLost]), hx⟩
          · exact ⟨g, .inl (by simp [losing, hIs]), hx⟩
      | @pass a hNext =>
          have hLater : ∀ x ∈ passed ts, R x a := by
            intro x hx
            rcases hOutdone x hx with ⟨g, hKnown, hx⟩
            have hHere : R g a := by
              rcases hKnown with hLost | hIs
              · exact hHeeded ts _ [] rfl a rfl g hLost
              · exact hNext g hIs
            rcases hx with rfl | hx
            · exact hHere
            · exact hTrans _ _ _ hx hHere
          simp only [passing, losing, Option.toList_none,
            Option.toList_some, List.append_nil]
          constructor
          · rw [List.pairwise_append]
            simpa using ⟨hPairwise, hLater⟩
          · intro x hx
            refine ⟨a, .inr rfl, ?_⟩
            rcases List.mem_append.mp hx with hx | hx
            · exact .inr (hLater x hx)
            · exact .inl (List.mem_singleton.mp hx)

/- What heeds all that was forgotten is in order. -/
theorem pairwise_of_heeded
    {R : α → α → Prop}
    (hTrans : ∀ a b c, R a b → R b c → R a c)
    {m₀ m : Option α} {ts : List (Turn α)}
    (hRun : Run (Step R) m₀ ts m)
    (hHeeded : Heeded R ts) :
    (passed ts).Pairwise R :=
  (outdone_of_run hTrans hRun hHeeded).1

/- What a memory holds, or has lost, is a stamp or nothing. -/
theorem known_of_run
    {R : α → α → Prop} {bot : α}
    {m₀ m : Option α} {ts : List (Turn α)}
    (hRun : Run (Step R) m₀ ts m)
    (hStart : ∀ g, m₀ = some g → g = bot)
    (hReset :
      ∀ t ∈ ts, t.event = .forget →
        ∀ g, t.after = some g → g = bot) :
    ∀ g,
      g ∈ lost ts ∨ m = some g →
        g = bot ∨ g ∈ passed ts := by
  induction hRun with
  | start =>
      rintro g (hLost | hIs)
      · cases hLost
      · exact .inl (hStart g hIs)
  | @step ts m m' act hRun hStep ih =>
      have hKnown := ih fun t ht => hReset t (by simp [ht])
      have hLast := hReset ⟨m, act, m'⟩ (by simp)
      rw [passed_snoc, lost_snoc]
      intro g hg
      have hEarlier :
          g ∈ lost ts ∨ m = some g →
            g = bot ∨
              g ∈ passed ts ++
                (passing (⟨m, act, m'⟩ : Turn α)).toList := by
        intro h
        rcases hKnown g h with hBot | hPassed
        · exact .inl hBot
        · exact .inr (by simp [hPassed])
      cases hStep with
      | idle =>
          simp only [losing, Option.toList_none,
            List.append_nil] at hg
          exact hEarlier hg
      | forget =>
          rcases hg with hLost | hIs
          · apply hEarlier
            rcases List.mem_append.mp hLost with h | h
            · exact .inl h
            · exact .inr (by simpa [losing] using h)
          · exact .inl (hLast rfl g hIs)
      | pass =>
          rcases hg with hLost | hIs
          · apply hEarlier
            exact .inl (by simpa [losing] using hLost)
          · cases hIs
            exact .inr (by simp [passing])

/- What is in order heeds what was forgotten. -/
theorem heeded_of_pairwise
    {R : α → α → Prop} {bot : α}
    (hBot : ∀ a, R bot a)
    {m₀ m : Option α} {ts : List (Turn α)}
    (hRun : Run (Step R) m₀ ts m)
    (hStart : ∀ g, m₀ = some g → g = bot)
    (hReset :
      ∀ t ∈ ts, t.event = .forget →
        ∀ g, t.after = some g → g = bot)
    (hPairwise : (passed ts).Pairwise R) :
    Heeded R ts := by
  rintro pre t post rfl a hPass g hLost
  have hPre := hRun.split_cons.1
  have hKnown :=
    known_of_run hPre hStart
      (fun u hu => hReset u (by simp [hu])) g (.inl hLost)
  rcases hKnown with rfl | hPassed
  · exact hBot a
  · unfold passed at hPairwise hPassed
    rw [List.filterMap_append,
      List.filterMap_cons_some hPass,
      List.pairwise_append] at hPairwise
    exact hPairwise.2.2 g hPassed a List.mem_cons_self

end Guard
