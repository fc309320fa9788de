import OrchKit.Program.Counting

/-! # What a program keeps, and what it ends in

A program that nobody interferes with, under the choices of the environment that belong to
a class: a condition that holds after each of its operations, and so wherever it is cut
off, together with a postcondition of its end.
-/

namespace Program

namespace Prog

variable {S : Sig} {σ ι κ ε δ α β : Type} (M : Semantics S σ ι) (good : ι → Prop)

/-- Whatever the environment chooses within `good`, `J` holds after every operation of the
program and `Q` at its end. -/
def Keeps (J : σ → Prop) : Prog S ε α → (Except ε α → σ → Prop) → σ → Prop
  | ret a, Q, s => Q (.ok a) s
  | raise e, Q, s => Q (.error e) s
  | call o k, Q, s => ∀ i, good i →
      J (M.after i s o) ∧ Keeps J (k (M.answer i s o).1) Q (M.after i s o)

/-- Whatever the environment chooses within `good`, the program ends in `Q`. -/
abbrev MustEnd (p : Prog S ε α) (Q : Except ε α → σ → Prop) (s : σ) : Prop :=
  p.Keeps M good (fun _ => True) Q s

variable {M good} {J K : σ → Prop} {p : Prog S ε α} {Q R : Except ε α → σ → Prop} {s : σ}

@[simp] theorem keeps_ret {a : α} : (ret a : Prog S ε α).Keeps M good J Q s ↔ Q (.ok a) s :=
  Iff.rfl

@[simp] theorem keeps_raise {e : ε} :
    (raise e : Prog S ε α).Keeps M good J Q s ↔ Q (.error e) s := Iff.rfl

@[simp] theorem keeps_call {o : S.Op} {k : S.Ans o → Prog S ε α} :
    (call o k).Keeps M good J Q s ↔ ∀ i, good i →
      J (M.after i s o) ∧ (k (M.answer i s o).1).Keeps M good J Q (M.after i s o) := Iff.rfl

theorem Keeps.bind {f : α → Prog S ε β} {Q : Except ε β → σ → Prop}
    (h : p.Keeps M good J (fun x t => match x with
      | .ok a => (f a).Keeps M good J Q t
      | .error e => Q (.error e) t) s) : (p >>= f).Keeps M good J Q s := by
  induction p generalizing s with
  | ret a => exact h
  | raise e => exact h
  | call o k ih => exact fun i hi => ⟨(h i hi).1, ih _ (h i hi).2⟩

theorem Keeps.catching {f : ε → Prog S δ α} {Q : Except δ α → σ → Prop}
    (h : p.Keeps M good J (fun x t => match x with
      | .ok a => Q (.ok a) t
      | .error e => (f e).Keeps M good J Q t) s) : (p.catching f).Keeps M good J Q s := by
  induction p generalizing s with
  | ret a => exact h
  | raise e => exact h
  | call o k ih => exact fun i hi => ⟨(h i hi).1, ih _ (h i hi).2⟩

theorem Keeps.mono (h : p.Keeps M good J Q s) (hj : ∀ t, J t → K t) (hq : ∀ x t, Q x t → R x t) :
    p.Keeps M good K R s := by
  induction p generalizing s with
  | ret a => exact hq _ _ h
  | raise e => exact hq _ _ h
  | call o k ih => exact fun i hi => ⟨hj _ (h i hi).1, ih _ (h i hi).2⟩

theorem Keeps.of_within {φ : S.Op → Prop} {E : Except ε α → Prop}
    (hafter : ∀ t o i, J t → φ o → good i → J (M.after i t o)) (hp : p.Within φ E) (hs : J s) :
    p.Keeps M good J (fun x t => E x ∧ J t) s := by
  induction p generalizing s with
  | ret a => exact ⟨hp, hs⟩
  | raise e => exact ⟨hp, hs⟩
  | call o k ih =>
    intro i hi
    have hj := hafter s o i hs hp.1 hi
    exact ⟨hj, ih _ (hp.2 _) hj⟩

theorem Keeps.bind_of_within {φ : S.Op → Prop} {E : Except ε α → Prop} {f : α → Prog S ε β}
    {Q : Except ε β → σ → Prop} (hafter : ∀ o i, φ o → M.after i s o = s) (hp : p.Within φ E)
    (hs : J s) (hok : ∀ a, E (.ok a) → (f a).Keeps M good J Q s)
    (herr : ∀ e, E (.error e) → Q (.error e) s) : (p >>= f).Keeps M good J Q s := by
  induction p with
  | ret a => exact hok a hp
  | raise e => exact herr e hp
  | call o k ih =>
    intro i hi
    rw [hafter o i hp.1]
    exact ⟨hs, ih _ (hp.2 _)⟩

theorem MustEnd.bind_of_forall {f : α → Prog S ε β} {Q : Except ε β → σ → Prop}
    (hok : ∀ a t, (f a).MustEnd M good Q t) (herr : ∀ e t, Q (.error e) t) :
    (p >>= f).MustEnd M good Q s := by
  induction p generalizing s with
  | ret a => exact hok a s
  | raise e => exact herr e s
  | call o k ih => exact fun i _ => ⟨trivial, ih _⟩

theorem Keeps.exec (h : p.Keeps M good J Q s) (hs : J s) {is : List ι} (hi : ∀ i ∈ is, good i) :
    J (p.exec M is s).2 ∧ (p.exec M is s).1.Keeps M good J Q (p.exec M is s).2 := by
  induction p generalizing is s with
  | ret a =>
    rw [exec_ret]
    exact ⟨hs, h⟩
  | raise e =>
    rw [exec_raise]
    exact ⟨hs, h⟩
  | call o k ih =>
    cases is with
    | nil => exact ⟨hs, h⟩
    | cons i is =>
      have hnext := h i (hi i List.mem_cons_self)
      exact ih _ hnext.2 hnext.1 fun j hj => hi j (List.mem_cons_of_mem _ hj)

theorem Keeps.runAll (h : p.Keeps M good J Q s) {i : ι} (hi : good i) :
    Q (p.runAll M i s).1 (p.runAll M i s).2 := by
  induction p generalizing s with
  | ret a => exact h
  | raise e => exact h
  | call o k ih => exact ih _ (h i hi).2

end Prog

variable {S : Sig} {σ ι κ ε α : Type} {M : Semantics S σ ι} {J : σ → Prop}

end Program
