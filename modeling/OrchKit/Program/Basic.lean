import Mathlib.Tactic.TypeStar
import Mathlib.Logic.Basic

/-! # Programs over atomic operations

A program is a tree: it returns a value, raises an error, or issues one operation
and continues with the answer. What an operation does is left to a semantics, so
the same translated procedure can be run alone, interleaved with others, or cut
off between any two of its operations.
-/

namespace Program

/-- The operations a program may issue, each with the type of its answer. -/
structure Sig where
  Op : Type
  Ans : Op → Type

inductive Prog (S : Sig) (ε α : Type) : Type
  | ret (a : α)
  | raise (e : ε)
  | call (o : S.Op) (k : S.Ans o → Prog S ε α)

namespace Prog

variable {S : Sig} {ε δ α β : Type}

protected def bind : Prog S ε α → (α → Prog S ε β) → Prog S ε β
  | ret a, f => f a
  | raise e, _ => raise e
  | call o k, f => call o fun r => (k r).bind f

instance : Monad (Prog S ε) where
  pure := ret
  bind := Prog.bind

/-- Run a program and hand what it raises to a handler. -/
def catching : Prog S ε α → (ε → Prog S δ α) → Prog S δ α
  | ret a, _ => ret a
  | raise e, h => h e
  | call o k, h => call o fun r => (k r).catching h

@[simp] theorem pure_eq (a : α) : (pure a : Prog S ε α) = ret a := rfl

@[simp] theorem ret_bind (a : α) (f : α → Prog S ε β) : (ret a >>= f) = f a := rfl

@[simp] theorem raise_bind (e : ε) (f : α → Prog S ε β) : (raise e >>= f) = raise e := rfl

@[simp] theorem call_bind (o : S.Op) (k : S.Ans o → Prog S ε α) (f : α → Prog S ε β) :
    (call o k >>= f) = call o fun r => k r >>= f := rfl

@[simp] theorem ret_catching (a : α) (h : ε → Prog S δ α) : (ret a).catching h = ret a := rfl

@[simp] theorem raise_catching (e : ε) (h : ε → Prog S δ α) :
    (raise e : Prog S ε α).catching h = h e := rfl

@[simp] theorem call_catching (o : S.Op) (k : S.Ans o → Prog S ε α) (h : ε → Prog S δ α) :
    (call o k).catching h = call o fun r => (k r).catching h := rfl

theorem bind_assoc {γ : Type} (p : Prog S ε α) (f : α → Prog S ε β) (g : β → Prog S ε γ) :
    p >>= f >>= g = p >>= fun a => f a >>= g := by
  induction p with
  | ret a => rfl
  | raise e => rfl
  | call o k ih => simp only [call_bind, ih]

theorem bind_ret (p : Prog S ε α) : p >>= ret = p := by
  induction p with
  | ret a => rfl
  | raise e => rfl
  | call o k ih => simp only [call_bind, ih]

/-- The next operation of a program, if it has not ended. -/
def next? : Prog S ε α → Option S.Op
  | call o _ => some o
  | _ => none

def returned? : Prog S ε α → Option α
  | ret a => some a
  | _ => none

theorem returned?_eq_some_iff {p : Prog S ε α} {a : α} : p.returned? = some a ↔ p = ret a := by
  cases p <;> simp [returned?]

/-- Whatever the answers, the program issues only operations in `φ` and ends only in `R`. -/
def Within (φ : S.Op → Prop) (R : Except ε α → Prop) : Prog S ε α → Prop
  | ret a => R (.ok a)
  | raise e => R (.error e)
  | call o k => φ o ∧ ∀ r, (k r).Within φ R

section Within

variable {φ : S.Op → Prop} {p : Prog S ε α} {R R' : Except ε α → Prop}

@[simp] theorem within_ret (a : α) : (ret a : Prog S ε α).Within φ R ↔ R (.ok a) := Iff.rfl

@[simp] theorem within_raise (e : ε) : (raise e : Prog S ε α).Within φ R ↔ R (.error e) := Iff.rfl

@[simp] theorem within_call (o : S.Op) (k : S.Ans o → Prog S ε α) :
    (call o k).Within φ R ↔ φ o ∧ ∀ r, (k r).Within φ R := Iff.rfl

theorem Within.mono {ψ : S.Op → Prop} (h : p.Within φ R) (ho : ∀ o, φ o → ψ o)
    (hR : ∀ x, R x → R' x) : p.Within ψ R' := by
  induction p with
  | ret a => exact hR _ h
  | raise e => exact hR _ h
  | call o k ih => exact ⟨ho o h.1, fun r => ih r (h.2 r)⟩

theorem Within.bind {f : α → Prog S ε β} {Q : Except ε β → Prop} (h : p.Within φ R)
    (hok : ∀ a, R (.ok a) → (f a).Within φ Q) (herr : ∀ e, R (.error e) → Q (.error e)) :
    (p >>= f).Within φ Q := by
  induction p with
  | ret a => exact hok a h
  | raise e => exact herr e h
  | call o k ih => exact ⟨h.1, fun r => ih r (h.2 r)⟩

theorem Within.catching {f : ε → Prog S δ α} {Q : Except δ α → Prop} (h : p.Within φ R)
    (hok : ∀ a, R (.ok a) → Q (.ok a)) (herr : ∀ e, R (.error e) → (f e).Within φ Q) :
    (p.catching f).Within φ Q := by
  induction p with
  | ret a => exact hok a h
  | raise e => exact herr e h
  | call o k ih => exact ⟨h.1, fun r => ih r (h.2 r)⟩

/-- Whatever the answers, the program issues only operations in `φ`. -/
abbrev Issues (φ : S.Op → Prop) (p : Prog S ε α) : Prop := p.Within φ fun _ => True

theorem Issues.bind {f : α → Prog S ε β} (h : p.Issues φ) (hf : ∀ a, (f a).Issues φ) :
    (p >>= f).Issues φ :=
  Within.bind h (fun a _ => hf a) fun _ _ => trivial

theorem Issues.catching {f : ε → Prog S δ α} (h : p.Issues φ) (hf : ∀ e, (f e).Issues φ) :
    (p.catching f).Issues φ :=
  Within.catching h (fun _ _ => trivial) fun e _ => hf e

end Within

end Prog

end Program
