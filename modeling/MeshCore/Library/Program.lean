import Mathlib.Data.List.Basic

/-
  Programs over an interface.

  A program is a finite tree of calls: it performs an
  operation of the interface, receives an answer of the
  type that operation promises, and goes on. Nothing here
  says what an operation does; a handler does, and one
  program can be run under several handlers.

  Key definitions include:
    * `Program`
    * `Program.Exec`
    * `Program.run`
    * `Program.Ensures`
    * `Program.Shows`

  Key rules include:
    * `Program.ensures_bind`
    * `Program.ensures_ite`
    * `Program.run_ensures`
    * `Program.run_exec`
    * `Program.exec_bind_iff`
    * `Program.shows_bind`
    * `Program.Shows.exec`
-/

------------------------------------------------------------
-- Programs
------------------------------------------------------------

/-
  A program over operations `Op`, where an operation `op`
  is answered by a value of `Ans op`.
-/
inductive Program
    (Op : Type)
    (Ans : Op → Type)
    (α : Type) where
| done : α → Program Op Ans α
| call :
    (op : Op) →
    (Ans op → Program Op Ans α) →
    Program Op Ans α

namespace Program

variable {Op : Type} {Ans : Op → Type}
variable {α β σ : Type}

/- Run a program and hand its result to the next one. -/
def bind
    (p : Program Op Ans α)
    (f : α → Program Op Ans β) :
    Program Op Ans β :=
  match p with
  | .done a => f a
  | .call op k => .call op fun ans => (k ans).bind f

instance : Monad (Program Op Ans) where
  pure := .done
  bind := bind

/- One operation, whose answer is the result. -/
def perform (op : Op) : Program Op Ans (Ans op) :=
  .call op .done

@[simp] theorem pure_eq_done (a : α) :
    (pure a : Program Op Ans α) = .done a :=
  rfl

@[simp] theorem done_bind
    (a : α)
    (f : α → Program Op Ans β) :
    (Program.done a >>= f) = f a :=
  rfl

@[simp] theorem call_bind
    (op : Op)
    (k : Ans op → Program Op Ans α)
    (f : α → Program Op Ans β) :
    (Program.call op k >>= f) =
      .call op fun ans => k ans >>= f :=
  rfl

@[simp] theorem perform_bind
    (op : Op)
    (f : Ans op → Program Op Ans β) :
    (perform op >>= f) = .call op f :=
  rfl

------------------------------------------------------------
-- Executions
------------------------------------------------------------

/- One operation together with the answer it was given. -/
structure Answered (Op : Type) (Ans : Op → Type) where
  op : Op
  ans : Ans op

/-
  `Exec p calls a` holds when `p` can perform exactly the
  answered calls `calls`, in that order, and end with `a`.
-/
inductive Exec :
    Program Op Ans α →
    List (Answered Op Ans) →
    α → Prop where
| done (a : α) : Exec (.done a) [] a
| call
    {op : Op}
    {k : Ans op → Program Op Ans α}
    {ans : Ans op}
    {calls : List (Answered Op Ans)}
    {a : α}
    (hRest : Exec (k ans) calls a) :
    Exec (.call op k) (⟨op, ans⟩ :: calls) a

@[simp] theorem exec_done_iff
    {a b : α}
    {calls : List (Answered Op Ans)} :
    Exec (.done a) calls b ↔ calls = [] ∧ b = a := by
  constructor
  · intro hExec
    cases hExec
    exact ⟨rfl, rfl⟩
  · rintro ⟨rfl, rfl⟩
    exact .done _

theorem exec_call_iff
    {op : Op}
    {k : Ans op → Program Op Ans α}
    {calls : List (Answered Op Ans)}
    {a : α} :
    Exec (.call op k) calls a ↔
      ∃ ans rest,
        calls = ⟨op, ans⟩ :: rest ∧
          Exec (k ans) rest a := by
  constructor
  · intro hExec
    cases hExec with
    | call hRest => exact ⟨_, _, rfl, hRest⟩
  · rintro ⟨ans, rest, rfl, hRest⟩
    exact .call hRest

/- An execution of two programs is one of each in turn. -/
theorem exec_bind_iff
    {p : Program Op Ans α}
    {f : α → Program Op Ans β}
    {calls : List (Answered Op Ans)}
    {b : β} :
    Exec (p >>= f) calls b ↔
      ∃ first a rest,
        calls = first ++ rest ∧
          Exec p first a ∧ Exec (f a) rest b := by
  induction p generalizing calls with
  | done a =>
      rw [done_bind]
      constructor
      · intro hExec
        exact ⟨[], a, calls, rfl, .done a, hExec⟩
      · rintro ⟨first, a', rest, rfl, hFirst, hRest⟩
        rcases exec_done_iff.mp hFirst with ⟨rfl, rfl⟩
        exact hRest
  | call op k ih =>
      rw [call_bind, exec_call_iff]
      constructor
      · rintro ⟨ans, more, rfl, hMore⟩
        rcases ih ans |>.mp hMore with
          ⟨first, a, rest, rfl, hFirst, hRest⟩
        exact ⟨⟨op, ans⟩ :: first, a, rest, rfl,
          .call hFirst, hRest⟩
      · rintro ⟨first, a, rest, rfl, hFirst, hRest⟩
        rcases exec_call_iff.mp hFirst with
          ⟨ans, more, rfl, hMore⟩
        exact ⟨ans, more ++ rest, rfl,
          (ih ans).mpr ⟨more, a, rest, rfl, hMore, hRest⟩⟩

------------------------------------------------------------
-- Handlers
------------------------------------------------------------

/- A handler answers every operation on a state. -/
abbrev Handler (Op : Type) (Ans : Op → Type) (σ : Type) :=
  (op : Op) → σ → Ans op × σ

/- Run a program under a handler. -/
def run
    (h : Handler Op Ans σ) :
    Program Op Ans α → σ → α × σ
| .done a, s => (a, s)
| .call op k, s => run h (k (h op s).1) (h op s).2

@[simp] theorem run_done
    (h : Handler Op Ans σ)
    (a : α)
    (s : σ) :
    run h (.done a) s = (a, s) :=
  rfl

@[simp] theorem run_call
    (h : Handler Op Ans σ)
    (op : Op)
    (k : Ans op → Program Op Ans α)
    (s : σ) :
    run h (.call op k) s =
      run h (k (h op s).1) (h op s).2 :=
  rfl

/- The calls of a run, with the answers they were given. -/
def trace
    (h : Handler Op Ans σ) :
    Program Op Ans α → σ → List (Answered Op Ans)
| .done _, _ => []
| .call op k, s =>
    ⟨op, (h op s).1⟩ :: trace h (k (h op s).1) (h op s).2

/- Every run under a handler is one of the executions. -/
theorem run_exec
    (h : Handler Op Ans σ)
    (p : Program Op Ans α)
    (s : σ) :
    Exec p (trace h p s) (run h p s).1 := by
  induction p generalizing s with
  | done a => exact .done a
  | call op k ih => exact .call (ih _ _)

------------------------------------------------------------
-- Guarantees
------------------------------------------------------------

/-
  `p.Ensures guard post` holds when, whatever the answers,
  `p` performs only operations that satisfy `guard` and
  ends with a result that satisfies `post`.
-/
def Ensures
    (guard : Op → Prop)
    (post : α → Prop) :
    Program Op Ans α → Prop
| .done a => post a
| .call op k =>
    guard op ∧ ∀ ans, (k ans).Ensures guard post

@[simp] theorem ensures_done
    {guard : Op → Prop}
    {post : α → Prop}
    {a : α} :
    (Program.done a :
      Program Op Ans α).Ensures guard post ↔ post a :=
  Iff.rfl

@[simp] theorem ensures_call
    {guard : Op → Prop}
    {post : α → Prop}
    {op : Op}
    {k : Ans op → Program Op Ans α} :
    (Program.call op k).Ensures guard post ↔
      guard op ∧ ∀ ans, (k ans).Ensures guard post :=
  Iff.rfl

/- The rule of composition. -/
theorem ensures_bind
    {guard : Op → Prop}
    {post : β → Prop}
    {p : Program Op Ans α}
    {f : α → Program Op Ans β} :
    (p >>= f).Ensures guard post ↔
      p.Ensures guard fun a =>
        (f a).Ensures guard post := by
  induction p with
  | done a => rfl
  | call op k ih =>
      rw [call_bind, ensures_call, ensures_call]
      exact and_congr_right fun _ =>
        forall_congr' fun ans => ih ans

/- The rule of the conditional. -/
theorem ensures_ite
    {guard : Op → Prop}
    {post : α → Prop}
    {c : Prop} [Decidable c]
    {p q : Program Op Ans α}
    (hThen : c → p.Ensures guard post)
    (hElse : ¬ c → q.Ensures guard post) :
    (if c then p else q).Ensures guard post := by
  split
  next hc => exact hThen hc
  next hc => exact hElse hc

/- The rule of consequence. -/
theorem Ensures.mono
    {guard guard' : Op → Prop}
    {post post' : α → Prop}
    {p : Program Op Ans α}
    (hp : p.Ensures guard post)
    (hGuard : ∀ op, guard op → guard' op)
    (hPost : ∀ a, post a → post' a) :
    p.Ensures guard' post' := by
  induction p with
  | done a => exact hPost a hp
  | call op k ih =>
      exact ⟨hGuard op hp.1, fun ans => ih ans (hp.2 ans)⟩

/- Nothing is asked of any program. -/
theorem ensures_trivial (p : Program Op Ans α) :
    p.Ensures (fun _ => True) fun _ => True := by
  induction p with
  | done a => trivial
  | call op k ih => exact ⟨trivial, ih⟩

/-
  The invariant rule: what every permitted operation keeps
  under a handler, a whole run keeps.
-/
theorem run_ensures
    {h : Handler Op Ans σ}
    {guard : Op → Prop}
    {post : α → Prop}
    {I : σ → Prop}
    (hStep :
      ∀ op s, guard op → I s → I (h op s).2)
    {p : Program Op Ans α}
    (hp : p.Ensures guard post)
    {s : σ}
    (hs : I s) :
    post (run h p s).1 ∧ I (run h p s).2 := by
  induction p generalizing s with
  | done a => exact ⟨hp, hs⟩
  | call op k ih =>
      rw [run_call]
      exact ih _ (hp.2 _) (hStep op s hp.1 hs)

/- The same rule for what every operation keeps. -/
theorem run_invariant
    {h : Handler Op Ans σ}
    {I : σ → Prop}
    (hStep : ∀ op s, I s → I (h op s).2)
    (p : Program Op Ans α)
    {s : σ}
    (hs : I s) :
    I (run h p s).2 :=
  (run_ensures (fun op s _ => hStep op s)
    p.ensures_trivial hs).2

/- What is guaranteed holds of every execution. -/
theorem Ensures.exec
    {guard : Op → Prop}
    {post : α → Prop}
    {p : Program Op Ans α}
    {calls : List (Answered Op Ans)}
    {a : α}
    (hp : p.Ensures guard post)
    (hExec : Exec p calls a) :
    (∀ c ∈ calls, guard c.op) ∧ post a := by
  induction hExec with
  | done a => exact ⟨by simp, hp⟩
  | call hRest ih =>
      rcases ih (hp.2 _) with ⟨hCalls, hPost⟩
      refine ⟨?_, hPost⟩
      intro c hc
      rcases List.mem_cons.mp hc with rfl | hc
      · exact hp.1
      · exact hCalls c hc

------------------------------------------------------------
-- What Is Seen
------------------------------------------------------------

/-
  `p.Shows see post` holds when, whatever the answers, the
  operations of `p` that `see` lets through, in their order,
  and its result satisfy `post`.
-/
def Shows
    (see : Op → Bool)
    (post : List Op → α → Prop) :
    Program Op Ans α → Prop
| .done a => post [] a
| .call op k =>
    ∀ ans,
      (k ans).Shows see fun ops a =>
        post (if see op then op :: ops else ops) a

section Shows

variable {see : Op → Bool}

/- The rule of consequence. -/
theorem Shows.mono
    {post post' : List Op → α → Prop}
    {p : Program Op Ans α}
    (hp : p.Shows see post)
    (hPost : ∀ ops a, post ops a → post' ops a) :
    p.Shows see post' := by
  induction p generalizing post post' with
  | done a => exact hPost [] a hp
  | call op k ih =>
      exact fun ans =>
        ih ans (hp ans) fun ops a => hPost _ a

/- What is shown is what is seen of every execution. -/
theorem Shows.exec
    {post : List Op → α → Prop}
    {p : Program Op Ans α}
    {calls : List (Answered Op Ans)}
    {a : α}
    (hp : p.Shows see post)
    (hExec : Exec p calls a) :
    post ((calls.map Answered.op).filter see) a := by
  induction hExec generalizing post with
  | done a => exact hp
  | @call op k ans calls a hRest ih =>
      have hThis := ih (hp ans)
      rw [List.map_cons, List.filter_cons]
      exact hThis

end Shows

end Program
