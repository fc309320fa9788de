import Mathlib.Data.List.Basic
import OrchKit.Program.Basic

/-! # Runs: alone, cut off, interleaved

A semantics answers each operation in a shared state, with the environment's
choices as an extra input. A list of choices runs a program for as many
operations as it has entries, so every prefix of an execution, and with it every
crash point, is one such list. A world holds the programs that are under way
together; its actions start a program, let one of them issue its next operation,
or crash it.
-/

namespace Program

variable {S : Sig} {σ ι κ ε α β : Type}

/-- The answer to an operation and the state it leaves, for each choice of the environment. -/
structure Semantics (S : Sig) (σ ι : Type) where
  answer : ι → σ → (o : S.Op) → S.Ans o × σ

def Semantics.after (M : Semantics S σ ι) (i : ι) (s : σ) (o : S.Op) : σ := (M.answer i s o).2

namespace Prog

variable (M : Semantics S σ ι)

/-- Run a program for one operation per choice, or until it ends. -/
def exec : Prog S ε α → List ι → σ → Prog S ε α × σ
  | call o k, i :: is, s => (k (M.answer i s o).1).exec is (M.after i s o)
  | p, _, s => (p, s)

/-- Run a program to its end, the environment making the same choice every time. -/
def runAll (i : ι) : Prog S ε α → σ → Except ε α × σ
  | ret a, s => (.ok a, s)
  | raise e, s => (.error e, s)
  | call o k, s => (k (M.answer i s o).1).runAll i (M.after i s o)

@[simp] theorem exec_ret (a : α) (is : List ι) (s : σ) :
    (ret a : Prog S ε α).exec M is s = (ret a, s) := by
  cases is <;> rfl

@[simp] theorem exec_raise (e : ε) (is : List ι) (s : σ) :
    (raise e : Prog S ε α).exec M is s = (raise e, s) := by
  cases is <;> rfl

@[simp] theorem exec_nil (p : Prog S ε α) (s : σ) : p.exec M [] s = (p, s) := by
  cases p <;> rfl

@[simp] theorem exec_cons (o : S.Op) (k : S.Ans o → Prog S ε α) (i : ι) (is : List ι) (s : σ) :
    (call o k).exec M (i :: is) s = (k (M.answer i s o).1).exec M is (M.after i s o) := rfl

theorem runAll_bind (i : ι) (p : Prog S ε α) (f : α → Prog S ε β) (s : σ) :
    (p >>= f).runAll M i s =
      match p.runAll M i s with
      | (.ok a, t) => (f a).runAll M i t
      | (.error e, t) => (.error e, t) := by
  induction p generalizing s with
  | ret a => rfl
  | raise e => rfl
  | call o k ih => exact ih _ _

end Prog

/-! ### Calls one after another -/

/-- A sequence of calls, each cut off after as many operations as it has choices. -/
def session (M : Semantics S σ ι) (prog : κ → Prog S ε α) : List (κ × List ι) → σ → σ
  | [], s => s
  | (c, is) :: cs, s => session M prog cs ((prog c).exec M is s).2

@[simp] theorem session_nil (M : Semantics S σ ι) (prog : κ → Prog S ε α) (s : σ) :
    session M prog [] s = s := rfl

@[simp] theorem session_cons (M : Semantics S σ ι) (prog : κ → Prog S ε α) (c : κ)
    (is : List ι) (cs : List (κ × List ι)) (s : σ) :
    session M prog ((c, is) :: cs) s = session M prog cs ((prog c).exec M is s).2 := rfl

theorem session_append (M : Semantics S σ ι) (prog : κ → Prog S ε α)
    (cs ds : List (κ × List ι)) (s : σ) :
    session M prog (cs ++ ds) s = session M prog ds (session M prog cs s) := by
  induction cs generalizing s with
  | nil => rfl
  | cons c cs ih => exact ih _

/-! ### Calls side by side -/

/-- The shared state and the programs under way. -/
structure World (S : Sig) (σ ε α : Type) where
  shared : σ
  procs : List (Prog S ε α)

inductive Action (κ ι : Type)
  | start (c : κ)
  | step (n : ℕ) (i : ι)
  | crash (n : ℕ)

namespace World

variable (M : Semantics S σ ι) (prog : κ → Prog S ε α)

/-- The operation an action issues in a world, if it issues one. -/
def issued (w : World S σ ε α) : Action κ ι → Option S.Op
  | .step n _ => w.procs[n]?.bind Prog.next?
  | _ => none

def act (w : World S σ ε α) : Action κ ι → World S σ ε α
  | .start c => ⟨w.shared, w.procs ++ [prog c]⟩
  | .crash n => ⟨w.shared, w.procs.eraseIdx n⟩
  | .step n i =>
    match w.procs[n]? with
    | some (.call o k) => ⟨M.after i w.shared o, w.procs.set n (k (M.answer i w.shared o).1)⟩
    | _ => w

def run (w : World S σ ε α) (as : List (Action κ ι)) : World S σ ε α :=
  as.foldl (act M prog) w

@[simp] theorem run_nil (w : World S σ ε α) : w.run M prog [] = w := rfl

@[simp] theorem run_cons (w : World S σ ε α) (a : Action κ ι) (as : List (Action κ ι)) :
    w.run M prog (a :: as) = (w.act M prog a).run M prog as := rfl

theorem run_append (w : World S σ ε α) (as bs : List (Action κ ι)) :
    w.run M prog (as ++ bs) = (w.run M prog as).run M prog bs :=
  List.foldl_append

/-- Every operation issued along the actions meets `ok` in the state it is issued in. -/
def Guarded (ok : σ → S.Op → Prop) : World S σ ε α → List (Action κ ι) → Prop
  | _, [] => True
  | w, a :: as => (∀ o, w.issued a = some o → ok w.shared o) ∧ Guarded ok (w.act M prog a) as

variable {M prog} {ok : σ → S.Op → Prop}

theorem guarded_append {w : World S σ ε α} {as bs : List (Action κ ι)} :
    w.Guarded M prog ok (as ++ bs) ↔
      w.Guarded M prog ok as ∧ (w.run M prog as).Guarded M prog ok bs := by
  induction as generalizing w with
  | nil => simp [Guarded]
  | cons a as ih => simp only [List.cons_append, Guarded, run_cons, ih, and_assoc]

theorem guarded_of_forall (h : ∀ s o, ok s o) {w : World S σ ε α} {as : List (Action κ ι)} :
    w.Guarded M prog ok as := by
  induction as generalizing w with
  | nil => trivial
  | cons a as ih => exact ⟨fun o _ => h _ o, ih⟩

instance decidableGuarded [∀ s o, Decidable (ok s o)] :
    ∀ (w : World S σ ε α) (as : List (Action κ ι)), Decidable (w.Guarded M prog ok as)
  | _, [] => .isTrue trivial
  | w, a :: as =>
    have : Decidable (∀ o, w.issued a = some o → ok w.shared o) :=
      match h : w.issued a with
      | none => .isTrue (by simp)
      | some o => decidable_of_iff (ok w.shared o) (by simp)
    have := decidableGuarded (w.act M prog a) as
    inferInstanceAs (Decidable (_ ∧ _))

theorem act_step_call {w : World S σ ε α} {n : ℕ} {o : S.Op} {k : S.Ans o → Prog S ε α}
    (h : w.procs[n]? = some (.call o k)) (i : ι) :
    w.act M prog (.step n i) =
      ⟨M.after i w.shared o, w.procs.set n (k (M.answer i w.shared o).1)⟩ := by
  simp only [act, h]

theorem act_step_of_issued_none {w : World S σ ε α} {n : ℕ} {i : ι}
    (h : w.issued (Action.step n i : Action κ ι) = none) : w.act M prog (.step n i) = w := by
  simp only [issued] at h
  simp only [act]
  rcases hn : w.procs[n]? with _ | p
  · rfl
  · cases p with
    | ret a => rfl
    | raise e => rfl
    | call o k => simp [hn, Prog.next?] at h

/-- The actions of a call that runs as the last of `n + 1` programs and is then gone. -/
def alone (n : ℕ) (c : κ) (is : List ι) : List (Action κ ι) :=
  .start c :: (is.map (.step n) ++ [.crash n])

theorem run_steps (is : List ι) (s : σ) (ps : List (Prog S ε α)) (p : Prog S ε α) :
    (⟨s, ps ++ [p]⟩ : World S σ ε α).run M prog (is.map (.step ps.length)) =
      ⟨(p.exec M is s).2, ps ++ [(p.exec M is s).1]⟩ := by
  induction is generalizing s p with
  | nil => simp
  | cons i is ih =>
    have hat : (ps ++ [p])[ps.length]? = some p := by simp
    rw [List.map_cons, run_cons]
    cases p with
    | call o k =>
      rw [act_step_call hat, List.set_append_right _ _ (Nat.le_refl _), Nat.sub_self,
        List.set_cons_zero, ih, Prog.exec_cons]
    | ret a | raise e =>
      rw [act_step_of_issued_none (by simp only [issued, hat, Option.bind_some, Prog.next?])]
      exact ih s _

variable (M prog) in
theorem run_start_steps (c : κ) (is : List ι) (s : σ) (ps : List (Prog S ε α)) :
    (⟨s, ps⟩ : World S σ ε α).run M prog (.start c :: is.map (.step ps.length)) =
      ⟨((prog c).exec M is s).2, ps ++ [((prog c).exec M is s).1]⟩ :=
  run_steps is s ps (prog c)

variable (M prog) in
theorem run_alone (c : κ) (is : List ι) (s : σ) (ps : List (Prog S ε α)) :
    (⟨s, ps⟩ : World S σ ε α).run M prog (alone ps.length c is) =
      ⟨((prog c).exec M is s).2, ps⟩ := by
  rw [alone, ← List.cons_append, run_append, run_start_steps, run_cons, run_nil, act,
    List.eraseIdx_append_of_length_le (Nat.le_refl _), Nat.sub_self, List.eraseIdx_cons_zero,
    List.append_nil]

variable (M prog) in
theorem run_session (cs : List (κ × List ι)) (s : σ) (ps : List (Prog S ε α)) :
    (⟨s, ps⟩ : World S σ ε α).run M prog (cs.flatMap fun c => alone ps.length c.1 c.2) =
      ⟨session M prog cs s, ps⟩ := by
  induction cs generalizing s with
  | nil => rfl
  | cons c cs ih => rw [List.flatMap_cons, run_append, run_alone, ih, session_cons]

theorem issued_step_eq_some {w : World S σ ε α} {n : ℕ} {i : ι} {o : S.Op}
    (h : w.issued (Action.step n i : Action κ ι) = some o) :
    ∃ k, w.procs[n]? = some (.call o k) := by
  simp only [issued, Option.bind_eq_some_iff] at h
  obtain ⟨p, hp, ho⟩ := h
  cases p with
  | ret a => cases ho
  | raise e => cases ho
  | call o' k => cases ho; exact ⟨k, hp⟩

theorem act_shared_of_none {w : World S σ ε α} {a : Action κ ι} (h : w.issued a = none) :
    (w.act M prog a).shared = w.shared := by
  cases a with
  | start c => rfl
  | crash n => rfl
  | step n i => rw [act_step_of_issued_none h]

theorem act_shared_of_some (prog : κ → Prog S ε α) {w : World S σ ε α} {a : Action κ ι} {o : S.Op}
    (h : w.issued a = some o) : ∃ i, (w.act M prog a).shared = M.after i w.shared o := by
  cases a with
  | start c => cases h
  | crash n => cases h
  | step n i =>
    obtain ⟨k, hk⟩ := issued_step_eq_some h
    rw [act_step_call hk]
    exact ⟨i, rfl⟩

theorem run_rel {R : σ → σ → Prop} (hrefl : ∀ s, R s s) (htrans : ∀ s t u, R s t → R t u → R s u)
    (hstep : ∀ s o i, R s (M.after i s o)) (w : World S σ ε α) (as : List (Action κ ι)) :
    R w.shared (w.run M prog as).shared := by
  induction as generalizing w with
  | nil => exact hrefl _
  | cons a as ih =>
    refine htrans _ _ _ ?_ (ih _)
    rcases ho : w.issued a with _ | o
    · rw [act_shared_of_none ho]
      exact hrefl _
    · obtain ⟨i, he⟩ := act_shared_of_some (M := M) prog ho
      rw [he]
      exact hstep _ _ _

variable (M prog) in
/-- How many of the operations issued along the actions satisfy `P` where they are issued. -/
def tally (P : ι → σ → S.Op → Bool) : World S σ ε α → List (Action κ ι) → ℕ
  | _, [] => 0
  | w, .step n i :: as =>
    (match w.issued (.step n i : Action κ ι) with
      | some o => if P i w.shared o then 1 else 0
      | none => 0) + tally P (w.act M prog (.step n i)) as
  | w, a :: as => tally P (w.act M prog a) as

/-- What holds of the shared state and of how often `P` has been satisfied, if every operation
keeps it, holds along every run. -/
theorem tally_invariant {P : ι → σ → S.Op → Bool} {J : σ → ℕ → Prop}
    (hstep : ∀ s o i n, J s n → J (M.after i s o) (n + if P i s o then 1 else 0))
    {w : World S σ ε α} (as : List (Action κ ι)) {n : ℕ} (h : J w.shared n) :
    J (w.run M prog as).shared (n + w.tally M prog P as) := by
  induction as generalizing w n with
  | nil => exact h
  | cons a as ih =>
    cases a with
    | start c => exact ih h
    | crash k => exact ih h
    | step k i =>
      rw [tally, ← Nat.add_assoc]
      refine ih ?_
      rcases ho : w.issued (.step k i : Action κ ι) with _ | o
      · rw [act_step_of_issued_none ho]
        exact h
      · obtain ⟨f, hf⟩ := issued_step_eq_some ho
        rw [act_step_call hf]
        exact hstep _ o i n h

theorem Guarded.invariant (inv : σ → Prop)
    (hstep : ∀ s o i, inv s → ok s o → inv (M.after i s o))
    {w : World S σ ε α} {as : List (Action κ ι)}
    (hg : w.Guarded M prog ok as) (h : inv w.shared) : inv (w.run M prog as).shared := by
  induction as generalizing w with
  | nil => exact h
  | cons a as ih =>
    refine ih hg.2 ?_
    rcases ho : w.issued a with _ | o
    · rw [act_shared_of_none ho]
      exact h
    · obtain ⟨i, he⟩ := act_shared_of_some (M := M) prog ho
      rw [he]
      exact hstep _ _ _ h (hg.1 o ho)

/-- Where just the guarded operations keep the invariant, a run is guarded exactly when the
invariant holds after each of its prefixes. -/
theorem guarded_iff {base inv : σ → Prop} (hbase : ∀ s o i, base s → base (M.after i s o))
    (hstep : ∀ s o i, base s → inv s → (ok s o ↔ inv (M.after i s o)))
    {w : World S σ ε α} {as : List (Action κ ι)} (hb : base w.shared) (h : inv w.shared) :
    w.Guarded M prog ok as ↔ ∀ bs, bs <+: as → inv (w.run M prog bs).shared := by
  constructor
  · rintro hg bs ⟨cs, rfl⟩
    refine (Guarded.invariant (fun s => base s ∧ inv s) (fun s o i hs ho => ?_)
      (guarded_append.mp hg).1 ⟨hb, h⟩).2
    exact ⟨hbase s o i hs.1, (hstep s o i hs.1 hs.2).mp ho⟩
  · intro hp
    induction as generalizing w with
    | nil => trivial
    | cons a as ih =>
      have hnext : inv (w.act M prog a).shared := hp [a] ⟨as, rfl⟩
      have hrest : ∀ bs, bs <+: as → inv ((w.act M prog a).run M prog bs).shared :=
        fun bs hbs => hp (a :: bs) (List.cons_prefix_cons.mpr ⟨rfl, hbs⟩)
      rcases ho : w.issued a with _ | o
      · have hb' : base (w.act M prog a).shared := (act_shared_of_none ho).symm ▸ hb
        exact ⟨by simp [ho], ih hb' hnext hrest⟩
      · obtain ⟨i, he⟩ := act_shared_of_some (M := M) prog ho
        have hb' : base (w.act M prog a).shared := he.symm ▸ hbase _ _ _ hb
        refine ⟨fun o' h' => ?_, ih hb' hnext hrest⟩
        cases ho.symm.trans h'
        exact (hstep _ _ i hb h).mpr (he ▸ hnext)

end World

end Program
