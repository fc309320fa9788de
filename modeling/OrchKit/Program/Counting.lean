import OrchKit.Program.Logic

/-! # Counting operations

A semantics beside a counter of the operations that satisfy a predicate where they are
issued. What is to be said of how often something happens along a run is then said of
the states the run reaches.
-/

namespace Program

variable {S : Sig} {σ ι κ ε α : Type}

/-- The same semantics, counting the operations that satisfy `P`. -/
def Semantics.counting (M : Semantics S σ ι) (P : ι → σ → S.Op → Bool) :
    Semantics S (σ × ℕ) ι where
  answer i s o := ((M.answer i s.1 o).1, (M.after i s.1 o, s.2 + if P i s.1 o then 1 else 0))

variable {M : Semantics S σ ι} {P : ι → σ → S.Op → Bool}

@[simp] theorem counting_answer_fst (i : ι) (s : σ × ℕ) (o : S.Op) :
    ((M.counting P).answer i s o).1 = (M.answer i s.1 o).1 := rfl

@[simp] theorem counting_after (i : ι) (s : σ × ℕ) (o : S.Op) :
    (M.counting P).after i s o = (M.after i s.1 o, s.2 + if P i s.1 o then 1 else 0) := rfl

theorem exec_counting (p : Prog S ε α) (is : List ι) (s : σ × ℕ) :
    (p.exec (M.counting P) is s).1 = (p.exec M is s.1).1 ∧
      (p.exec (M.counting P) is s).2.1 = (p.exec M is s.1).2 := by
  induction p generalizing is s with
  | ret a => simp only [Prog.exec_ret, and_self]
  | raise e => simp only [Prog.exec_raise, and_self]
  | call o k ih =>
    cases is with
    | nil => exact ⟨rfl, rfl⟩
    | cons i is => exact ih _ is _

end Program
