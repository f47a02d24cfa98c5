import MeshCore.Library.Program

/-
  Protocols of calls: which operation may be performed in
  which mode, and where each answer leads. A program obeys
  one when it keeps to it whatever it is answered.

  Key definitions include:
    * `Program.Protocol`
    * `Program.Protocol.after`
    * `Program.Obeys`

  Key rules include:
    * `Program.obeys_bind`
    * `Program.Obeys.mono`
    * `Program.Obeys.exec`
-/

namespace Program

variable {Op : Type} {Ans : Op → Type}
variable {α β μ : Type}

------------------------------------------------------------
-- Protocols
------------------------------------------------------------

/-
  From a mode, an operation and its answer to the next
  mode; nothing where the operation is not permitted.
-/
abbrev Protocol (Op : Type) (Ans : Op → Type) (μ : Type) :=
  μ → (op : Op) → Ans op → Option μ

/- Where answered calls lead, if each one was permitted. -/
def Protocol.after
    (P : Protocol Op Ans μ)
    (m : μ) :
    List (Answered Op Ans) → Option μ
| [] => some m
| c :: calls =>
    (P m c.op c.ans).bind fun m' => P.after m' calls

section After

variable {P : Protocol Op Ans μ}

@[simp] theorem Protocol.after_nil (m : μ) :
    P.after m [] = some m :=
  rfl

@[simp] theorem Protocol.after_cons
    (m : μ)
    (c : Answered Op Ans)
    (calls : List (Answered Op Ans)) :
    P.after m (c :: calls) =
      (P m c.op c.ans).bind fun m' => P.after m' calls :=
  rfl

theorem Protocol.after_append
    (m : μ)
    (calls more : List (Answered Op Ans)) :
    P.after m (calls ++ more) =
      (P.after m calls).bind fun m' => P.after m' more := by
  induction calls generalizing m with
  | nil => rfl
  | cons c calls ih =>
      rw [List.cons_append, after_cons, after_cons,
        Option.bind_assoc]
      congr 1
      funext m'
      exact ih m'

/- What is permitted is permitted call by call. -/
theorem Protocol.after_eq_some_append
    {m m' : μ}
    {calls more : List (Answered Op Ans)}
    (hAfter : P.after m (calls ++ more) = some m') :
    ∃ between,
      P.after m calls = some between ∧
        P.after between more = some m' := by
  rw [after_append] at hAfter
  exact Option.bind_eq_some_iff.mp hAfter

end After

------------------------------------------------------------
-- Obedience
------------------------------------------------------------

/-
  From mode `m` the program performs permitted operations
  only, and ends with a mode and a result that `post` holds
  of.
-/
def Obeys
    (P : Protocol Op Ans μ)
    (post : μ → α → Prop) :
    Program Op Ans α → μ → Prop
| .done a, m => post m a
| .call op k, m =>
    ∀ ans, ∃ m',
      P m op ans = some m' ∧ (k ans).Obeys P post m'

section Obeys

variable {P : Protocol Op Ans μ}

@[simp] theorem obeys_done
    {post : μ → α → Prop}
    {a : α} {m : μ} :
    (Program.done a : Program Op Ans α).Obeys P post m ↔
      post m a :=
  Iff.rfl

@[simp] theorem obeys_call
    {post : μ → α → Prop}
    {op : Op} {k : Ans op → Program Op Ans α} {m : μ} :
    (Program.call op k).Obeys P post m ↔
      ∀ ans, ∃ m',
        P m op ans = some m' ∧ (k ans).Obeys P post m' :=
  Iff.rfl

/- The rule of composition. -/
theorem obeys_bind
    {post : μ → β → Prop}
    {p : Program Op Ans α}
    {f : α → Program Op Ans β}
    {m : μ} :
    (p >>= f).Obeys P post m ↔
      p.Obeys P (fun m' a => (f a).Obeys P post m') m := by
  induction p generalizing m with
  | done a => rfl
  | call op k ih =>
      rw [call_bind, obeys_call, obeys_call]
      exact forall_congr' fun ans =>
        exists_congr fun m' =>
          and_congr_right fun _ => ih ans

/- The rule of consequence. -/
theorem Obeys.mono
    {post post' : μ → α → Prop}
    {p : Program Op Ans α}
    {m : μ}
    (hp : p.Obeys P post m)
    (hPost : ∀ m a, post m a → post' m a) :
    p.Obeys P post' m := by
  induction p generalizing m with
  | done a => exact hPost m a hp
  | call op k ih =>
      intro ans
      rcases hp ans with ⟨m', hNext, hRest⟩
      exact ⟨m', hNext, ih ans hRest⟩

/- An obedient program permits every one of its executions. -/
theorem Obeys.exec
    {post : μ → α → Prop}
    {p : Program Op Ans α}
    {m : μ}
    {calls : List (Answered Op Ans)}
    {a : α}
    (hp : p.Obeys P post m)
    (hExec : Exec p calls a) :
    ∃ m', P.after m calls = some m' ∧ post m' a := by
  induction hExec generalizing m with
  | done a => exact ⟨m, rfl, hp⟩
  | @call op k ans calls a hRest ih =>
      rcases hp ans with ⟨between, hNext, hMore⟩
      rcases ih hMore with ⟨m', hAfter, hPost⟩
      refine ⟨m', ?_, hPost⟩
      rw [Protocol.after_cons, hNext]
      exact hAfter

end Obeys

end Program
