import OrchKit.Program.Logic

/-! # A part of a larger state

A semantics projects onto another if its operations do to a part of its state what they do in the
other, some choice of the environment being made there. Programs then do to that part what they do
in the other semantics, and are as safe as they are there.
-/

namespace Program

variable {S : Sig} {σ τ ι ν κ ε α : Type} {N : Semantics S τ ν} {M : Semantics S σ ι} {π : τ → σ}

/-- The operations of `N` do to the part `π` of the state what they do in `M`. -/
def Projects (N : Semantics S τ ν) (M : Semantics S σ ι) (π : τ → σ) : Prop :=
  ∀ j t o, ∃ i, (N.answer j t o).1 = (M.answer i (π t) o).1 ∧
    π (N.after j t o) = M.after i (π t) o

namespace Theory

/-- The theory of the part, as one of the whole. -/
def lift (h : Projects N M π) (T : Theory M) : Theory N where
  inv t := T.inv (π t)
  ok t o := T.ok (π t) o
  pre t o := T.pre (π t) o
  rely t u := T.rely (π t) (π u)
  inv_after {t o} j ht ho hp := by
    obtain ⟨i, -, hafter⟩ := h j t o
    rw [hafter]
    exact T.inv_after i ht ho hp

variable {T : Theory M} {p : Prog S ε α} {Q : Except ε α → σ → Prop}

theorem Safe.lift (h : Projects N M π) {t : τ} (hp : T.Safe p Q (π t)) :
    (T.lift h).Safe p (fun x u => Q x (π u)) t := by
  induction p generalizing t with
  | ret a => exact hp
  | raise e => exact hp
  | call o k ih =>
    obtain ⟨I, hI, hs, hk⟩ := hp
    refine Safe.call (I := fun u => I (π u)) (fun u v hu hv hr => hI _ _ hu hv hr) hs ?_
    intro u hu hi ho
    obtain ⟨hpre, hnext⟩ := hk (π u) hu hi ho
    refine ⟨hpre, fun j => ?_⟩
    obtain ⟨i, hanswer, hafter⟩ := h j u o
    refine ih _ ?_
    rw [hanswer, hafter]
    exact hnext i

end Theory

end Program
