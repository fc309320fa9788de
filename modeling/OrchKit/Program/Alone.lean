import OrchKit.Program.Semantics

/-! # A program left alone

What a program does from a state when the environment never changes its choice: it returns or it
raises, in one way only.
-/

namespace Program

namespace Prog

variable {S : Sig} {σ ι ε δ α β : Type} (M : Semantics S σ ι) (i : ι)

def Yields (p : Prog S ε α) (s : σ) (a : α) (t : σ) : Prop := p.runAll M i s = (.ok a, t)

def Raises (p : Prog S ε α) (s : σ) (e : ε) (t : σ) : Prop := p.runAll M i s = (.error e, t)

variable {M i} {p : Prog S ε α} {f : α → Prog S ε β} {h : ε → Prog S δ α} {a b : α} {c : β}
  {e : ε} {d : δ} {s t u : σ}

@[simp] theorem yields_ret : (ret a : Prog S ε α).Yields M i s b t ↔ a = b ∧ s = t := by
  simp [Yields, runAll]

@[simp] theorem yields_raise : ¬ (raise e : Prog S ε α).Yields M i s b t := by
  simp [Yields, runAll]

@[simp] theorem raises_ret : ¬ (ret a : Prog S ε α).Raises M i s e t := by
  simp [Raises, runAll]

@[simp] theorem raises_raise {e' : ε} :
    (raise e : Prog S ε α).Raises M i s e' t ↔ e = e' ∧ s = t := by
  simp [Raises, runAll]

@[simp] theorem yields_call {o : S.Op} {k : S.Ans o → Prog S ε α} :
    (call o k).Yields M i s a t ↔ (k (M.answer i s o).1).Yields M i (M.after i s o) a t :=
  Iff.rfl

@[simp] theorem raises_call {o : S.Op} {k : S.Ans o → Prog S ε α} :
    (call o k).Raises M i s e t ↔ (k (M.answer i s o).1).Raises M i (M.after i s o) e t :=
  Iff.rfl

theorem Yields.unique (h : p.Yields M i s a t) (h' : p.Yields M i s b u) : a = b ∧ t = u := by
  rw [Yields, h, Prod.mk.injEq, Except.ok.injEq] at h'
  exact h'

theorem yields_bind : (p >>= f).Yields M i s c t ↔
    ∃ a u, p.Yields M i s a u ∧ (f a).Yields M i u c t := by
  rw [Yields, runAll_bind]
  rcases hp : p.runAll M i s with ⟨e | a, u⟩ <;> simp [Yields, hp]

theorem raises_bind : (p >>= f).Raises M i s e t ↔
    p.Raises M i s e t ∨ ∃ a u, p.Yields M i s a u ∧ (f a).Raises M i u e t := by
  rw [Raises, runAll_bind]
  rcases hp : p.runAll M i s with ⟨e' | a, u⟩ <;> simp [Yields, Raises, hp]

theorem runAll_catching (h : ε → Prog S δ α) (p : Prog S ε α) (s : σ) :
    (p.catching h).runAll M i s =
      match p.runAll M i s with
      | (.ok a, t) => (.ok a, t)
      | (.error e, t) => (h e).runAll M i t := by
  induction p generalizing s with
  | ret a => rfl
  | raise e => rfl
  | call o k ih => exact ih _ _

theorem yields_catching : (p.catching h).Yields M i s a t ↔
    p.Yields M i s a t ∨ ∃ e u, p.Raises M i s e u ∧ (h e).Yields M i u a t := by
  rw [Yields, runAll_catching]
  rcases hp : p.runAll M i s with ⟨e' | a, u⟩ <;> simp [Yields, Raises, hp]

theorem yields_caught {x : Except ε α} :
    ((p >>= fun a => (ret (.ok a) : Prog S ε (Except ε α))).catching fun e =>
      (ret (.error e) : Prog S δ (Except ε α))).Yields M i s x t ↔ p.runAll M i s = (x, t) := by
  rw [Yields, runAll_catching, runAll_bind]
  rcases hp : p.runAll M i s with ⟨e | a, u⟩ <;> simp [runAll]

theorem runAll_congr {φ : S.Op → Prop} {R : Except ε α → Prop} (hp : p.Within φ R)
    (hanswer : ∀ o, φ o → (M.answer i s o).1 = (M.answer i t o).1)
    (hs : ∀ o, φ o → M.after i s o = s) (ht : ∀ o, φ o → M.after i t o = t) :
    ∃ x, R x ∧ p.runAll M i s = (x, s) ∧ p.runAll M i t = (x, t) := by
  induction p with
  | ret a => exact ⟨.ok a, hp, rfl, rfl⟩
  | raise e => exact ⟨.error e, hp, rfl, rfl⟩
  | call o k ih =>
    obtain ⟨ho, hk⟩ := hp
    obtain ⟨x, hx, hxs, hxt⟩ := ih _ (hk (M.answer i s o).1)
    refine ⟨x, hx, ?_, ?_⟩
    · rw [runAll, hs o ho, hxs]
    · rw [runAll, ht o ho, ← hanswer o ho, hxt]

end Prog

end Program
