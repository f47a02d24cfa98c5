import MeshCore.Library.Program

/-
  Programs that can be cut short. What an operation does to
  the state is a relation, and an execution can be stopped
  before any of its calls; a guarantee says what holds all
  the way, and what holds at the end.

  Key definitions include:
    * `Program.Gets`
    * `Program.Guards`

  Key rules include:
    * `Program.guards_bind`, `Program.guards_ite`
    * `Program.Guards.mono`
    * `Program.gets_run`
    * `Program.Guards.gets`, `Program.Guards.ends`
-/

namespace Program

variable {Op : Type} {Ans : Op → Type}
variable {α β σ : Type}

------------------------------------------------------------
-- Getting Somewhere
------------------------------------------------------------

/- What an operation, so answered, makes of a state. -/
abbrev Effects (Op : Type) (Ans : Op → Type) (σ : Type) :=
  σ → (op : Op) → Ans op → σ → Prop

/-
  From `s`, `p` gets to `s'` by the calls, and has `q` left
  to do. It has ended where `q` is done.
-/
inductive Gets
    (does : Effects Op Ans σ) :
    Program Op Ans α → σ →
      List (Answered Op Ans) →
        Program Op Ans α → σ → Prop where
| here (p : Program Op Ans α) (s : σ) : Gets does p s [] p s
| call
    {op : Op} {k : Ans op → Program Op Ans α}
    {ans : Ans op} {s s' s'' : σ}
    {calls : List (Answered Op Ans)}
    {q : Program Op Ans α}
    (hDoes : does s op ans s')
    (hRest : Gets does (k ans) s' calls q s'') :
    Gets does (.call op k) s (⟨op, ans⟩ :: calls) q s''

/- A run under a handler gets to its end. -/
theorem gets_run
    {does : Effects Op Ans σ}
    {h : Handler Op Ans σ}
    (hDoes : ∀ op s, does s op (h op s).1 (h op s).2)
    (p : Program Op Ans α)
    (s : σ) :
    Gets does p s (trace h p s) (.done (run h p s).1)
      (run h p s).2 := by
  induction p generalizing s with
  | done a => exact .here _ _
  | call op k ih => exact .call (hDoes op s) (ih _ _)

------------------------------------------------------------
-- Guarantees
------------------------------------------------------------

/-
  Wherever `p` is stopped `always` holds, and where it ends
  `post` holds of its calls and its result.
-/
def Guards
    (does : Effects Op Ans σ)
    (always : σ → Prop)
    (post : List (Answered Op Ans) → α → σ → Prop) :
    Program Op Ans α → σ → Prop
| .done a, s => always s ∧ post [] a s
| .call op k, s =>
    always s ∧
      ∀ ans s', does s op ans s' →
        (k ans).Guards does always
          (fun calls => post (⟨op, ans⟩ :: calls)) s'

section Guards

variable {does : Effects Op Ans σ}
variable {always : σ → Prop}

@[simp] theorem guards_done
    {post : List (Answered Op Ans) → α → σ → Prop}
    {a : α} {s : σ} :
    (Program.done a :
        Program Op Ans α).Guards does always post s ↔
      always s ∧ post [] a s :=
  Iff.rfl

theorem guards_call
    {post : List (Answered Op Ans) → α → σ → Prop}
    {op : Op} {k : Ans op → Program Op Ans α} {s : σ} :
    (Program.call op k).Guards does always post s ↔
      always s ∧
        ∀ ans s', does s op ans s' →
          (k ans).Guards does always
            (fun calls => post (⟨op, ans⟩ :: calls)) s' :=
  Iff.rfl

/- It holds at the outset. -/
theorem Guards.here
    {post : List (Answered Op Ans) → α → σ → Prop}
    {p : Program Op Ans α} {s : σ}
    (hp : p.Guards does always post s) :
    always s := by
  cases p with
  | done a => exact hp.1
  | call op k => exact hp.1

/- The rule of composition. -/
theorem guards_bind
    {post : List (Answered Op Ans) → β → σ → Prop}
    {p : Program Op Ans α}
    {f : α → Program Op Ans β}
    {s : σ} :
    (p >>= f).Guards does always post s ↔
      p.Guards does always
        (fun calls a s' =>
          (f a).Guards does always
            (fun more => post (calls ++ more)) s')
        s := by
  induction p generalizing s post with
  | done a =>
      rw [done_bind, guards_done]
      exact ⟨fun hf => ⟨hf.here, hf⟩, And.right⟩
  | call op k ih =>
      rw [call_bind, guards_call, guards_call]
      exact and_congr_right fun _ =>
        forall_congr' fun ans =>
          forall_congr' fun s' =>
            forall_congr' fun _ => ih ans

/- The rule of the conditional. -/
theorem guards_ite
    {post : List (Answered Op Ans) → α → σ → Prop}
    {c : Prop} [Decidable c]
    {p q : Program Op Ans α} {s : σ}
    (hThen : c → p.Guards does always post s)
    (hElse : ¬ c → q.Guards does always post s) :
    (if c then p else q).Guards does always post s := by
  split
  next hc => exact hThen hc
  next hc => exact hElse hc

/- The rule of consequence. -/
theorem Guards.mono
    {always' : σ → Prop}
    {post post' : List (Answered Op Ans) → α → σ → Prop}
    {p : Program Op Ans α} {s : σ}
    (hp : p.Guards does always post s)
    (hAlways : ∀ s, always s → always' s)
    (hPost : ∀ calls a s, post calls a s → post' calls a s) :
    p.Guards does always' post' s := by
  induction p generalizing s post post' with
  | done a => exact ⟨hAlways s hp.1, hPost [] a s hp.2⟩
  | call op k ih =>
      refine ⟨hAlways s hp.1, ?_⟩
      intro ans s' hDoes
      exact ih ans (hp.2 ans s' hDoes) fun calls => hPost _

/- Wherever an execution is stopped it holds. -/
theorem Guards.gets
    {post : List (Answered Op Ans) → α → σ → Prop}
    {p q : Program Op Ans α} {s s' : σ}
    {calls : List (Answered Op Ans)}
    (hp : p.Guards does always post s)
    (hGets : Gets does p s calls q s') :
    always s' := by
  induction hGets generalizing post with
  | here p s => exact hp.here
  | call hDoes hRest ih => exact ih (hp.2 _ _ hDoes)

/- Where one ends, so does what was promised of the end. -/
theorem Guards.ends
    {post : List (Answered Op Ans) → α → σ → Prop}
    {p : Program Op Ans α} {a : α} {s s' : σ}
    {calls : List (Answered Op Ans)}
    (hp : p.Guards does always post s)
    (hGets : Gets does p s calls (.done a) s') :
    post calls a s' := by
  generalize hq : (Program.done a : Program Op Ans α) = q
    at hGets
  induction hGets generalizing post with
  | here p s =>
      subst hq
      exact hp.2
  | call hDoes hRest ih => exact ih (hp.2 _ _ hDoes) hq

end Guards

end Program
