import OrchKit.Program.Semantics

/-! # A program logic for crashes and interference

A theory names an invariant of the shared state, what each operation needs when
it is issued, and what the environment may do between two operations of a
program. A program is safe in a state if it always establishes what its
operations need; then the invariant survives every cut of the program, every
sequence of calls, and every interleaving of calls whose steps are what the
theory expects of the environment.
-/

namespace Program

variable {S : Sig} {σ ι κ ε δ α β : Type} {M : Semantics S σ ι}

/-- The invariant of a system, the guard its runs are assumed to keep, the precondition its
programs establish, and the interference they tolerate. -/
structure Theory (M : Semantics S σ ι) where
  inv : σ → Prop
  ok : σ → S.Op → Prop
  pre : σ → S.Op → Prop
  rely : σ → σ → Prop
  inv_after : ∀ {s o} (i : ι), inv s → ok s o → pre s o → inv (M.after i s o)

namespace Theory

variable (T : Theory M)

def Stable (I : σ → Prop) : Prop := ∀ s t, T.inv s → T.inv t → T.rely s t → I s → I t

/-- The program, started now, establishes the precondition of each operation it issues and
ends in `Q`; between its operations only a stable assertion is kept. -/
def Safe : Prog S ε α → (Except ε α → σ → Prop) → σ → Prop
  | .ret a, Q, s => Q (.ok a) s
  | .raise e, Q, s => Q (.error e) s
  | .call o k, Q, s => ∃ I : σ → Prop, T.Stable I ∧ I s ∧ ∀ t, T.inv t → I t → T.ok t o →
      T.pre t o ∧ ∀ i, Safe (k (M.answer i t o).1) Q (M.after i t o)

variable {T} {p : Prog S ε α} {Q R : Except ε α → σ → Prop} {s : σ}

@[simp] theorem safe_ret (a : α) : T.Safe (.ret a : Prog S ε α) Q s ↔ Q (.ok a) s := Iff.rfl

@[simp] theorem safe_raise (e : ε) : T.Safe (.raise e : Prog S ε α) Q s ↔ Q (.error e) s :=
  Iff.rfl

theorem Safe.call {o : S.Op} {k : S.Ans o → Prog S ε α} {I : σ → Prop} (hI : T.Stable I)
    (hs : I s) (h : ∀ t, T.inv t → I t → T.ok t o →
      T.pre t o ∧ ∀ i, T.Safe (k (M.answer i t o).1) Q (M.after i t o)) :
    T.Safe (.call o k) Q s := ⟨I, hI, hs, h⟩

theorem Safe.mono (h : T.Safe p Q s) (hq : ∀ x t, Q x t → R x t) : T.Safe p R s := by
  induction p generalizing s with
  | ret a => exact hq _ _ h
  | raise e => exact hq _ _ h
  | call o k ih =>
    obtain ⟨I, hI, hs, hk⟩ := h
    refine ⟨I, hI, hs, fun t ht hi ho => ⟨(hk t ht hi ho).1, fun i => ih _ ?_⟩⟩
    exact (hk t ht hi ho).2 i

theorem Safe.bind {f : α → Prog S ε β} {Q : Except ε β → σ → Prop}
    (h : T.Safe p (fun x t => match x with
      | .ok a => T.Safe (f a) Q t
      | .error e => Q (.error e) t) s) : T.Safe (p >>= f) Q s := by
  induction p generalizing s with
  | ret a => exact h
  | raise e => exact h
  | call o k ih =>
    obtain ⟨I, hI, hs, hk⟩ := h
    refine ⟨I, hI, hs, fun t ht hi ho => ⟨(hk t ht hi ho).1, fun i => ih _ ?_⟩⟩
    exact (hk t ht hi ho).2 i

theorem Safe.catching {f : ε → Prog S δ α} {Q : Except δ α → σ → Prop}
    (h : T.Safe p (fun x t => match x with
      | .ok a => Q (.ok a) t
      | .error e => T.Safe (f e) Q t) s) : T.Safe (p.catching f) Q s := by
  induction p generalizing s with
  | ret a => exact h
  | raise e => exact h
  | call o k ih =>
    obtain ⟨I, hI, hs, hk⟩ := h
    refine ⟨I, hI, hs, fun t ht hi ho => ⟨(hk t ht hi ho).1, fun i => ih _ ?_⟩⟩
    exact (hk t ht hi ho).2 i

theorem Safe.ite_pos {c : Prop} [Decidable c] {q : Prog S ε α} (hc : c) (h : T.Safe p Q s) :
    T.Safe (if c then p else q) Q s := by
  rwa [if_pos hc]

theorem Safe.ite_neg {c : Prop} [Decidable c] {q : Prog S ε α} (hc : ¬ c) (h : T.Safe p Q s) :
    T.Safe (if c then q else p) Q s := by
  rwa [if_neg hc]

theorem Safe.of_within {φ : S.Op → Prop} {E : Except ε α → Prop} {I : σ → Prop}
    (hI : T.Stable I) (hpre : ∀ t o, T.inv t → I t → T.ok t o → φ o → T.pre t o)
    (hafter : ∀ t o (i : ι), T.inv t → I t → T.ok t o → φ o → I (M.after i t o))
    (hp : p.Within φ E) (hs : I s) : T.Safe p (fun x t => E x ∧ I t) s := by
  induction p generalizing s with
  | ret a => exact ⟨hp, hs⟩
  | raise e => exact ⟨hp, hs⟩
  | call o k ih =>
    refine ⟨I, hI, hs, fun t ht hi ho => ⟨hpre t o ht hi ho hp.1, fun i => ?_⟩⟩
    exact ih _ (hp.2 _) (hafter t o i ht hi ho hp.1)

theorem Safe.interfere {t : σ} (h : T.Safe p (fun _ _ => True) s) (hs : T.inv s) (ht : T.inv t)
    (hr : T.rely s t) : T.Safe p (fun _ _ => True) t := by
  cases p with
  | ret a => trivial
  | raise e => trivial
  | call o k =>
    obtain ⟨I, hI, hi, hk⟩ := h
    exact ⟨I, hI, hI s t hs ht hr hi, hk⟩

theorem Safe.strengthen {T' : Theory M} {φ : S.Op → Prop} (inv : ∀ s, T'.inv s → T.inv s)
    (ok : ∀ s o, T'.ok s o → T.ok s o) (rely : ∀ s t, T'.rely s t → T.rely s t)
    (pre : ∀ s o, T.pre s o → φ o → T'.pre s o) (h : T.Safe p Q s) (hp : p.Issues φ) :
    T'.Safe p Q s := by
  induction p generalizing s with
  | ret a => exact h
  | raise e => exact h
  | call o k ih =>
    obtain ⟨I, hI, hs, hk⟩ := h
    refine ⟨I, fun s t hs ht hr => hI s t (inv s hs) (inv t ht) (rely s t hr), hs, ?_⟩
    intro t ht hi ho
    obtain ⟨hpre, hnext⟩ := hk t (inv t ht) hi (ok t o ho)
    exact ⟨pre t o hpre hp.1, fun i => ih _ (hnext i) (hp.2 _)⟩

/-! ### Calls one after another -/

/-- A theory in which nobody interferes and every run is admitted. -/
structure Alone (T : Theory M) : Prop where
  ok : ∀ s o, T.ok s o
  rely : ∀ s t, ¬ T.rely s t

theorem Alone.stable (hT : Alone T) (I : σ → Prop) : T.Stable I :=
  fun s t _ _ hr => absurd hr (hT.rely s t)

theorem Alone.safe_call (hT : Alone T) {o : S.Op} {k : S.Ans o → Prog S ε α} (hs : T.inv s) :
    T.Safe (.call o k) Q s ↔
      T.pre s o ∧ ∀ i, T.Safe (k (M.answer i s o).1) Q (M.after i s o) := by
  constructor
  · rintro ⟨I, -, hi, hk⟩
    exact hk s hs hi (hT.ok s o)
  · rintro ⟨hp, hk⟩
    refine ⟨fun t => t = s, hT.stable _, rfl, ?_⟩
    rintro t - rfl -
    exact ⟨hp, hk⟩

theorem Alone.safe_of_both (hT : Alone T) {T₁ T₂ : Theory M}
    (inv : ∀ s, T.inv s → T₁.inv s ∧ T₂.inv s) (ok : ∀ s o, T₁.ok s o ∧ (T₁.pre s o → T₂.ok s o))
    (pre : ∀ s o, T₁.pre s o → T₂.pre s o → T.pre s o) {Q₂ : Except ε α → σ → Prop}
    (h₁ : T₁.Safe p Q s) (h₂ : T₂.Safe p Q₂ s) (hs : T.inv s) : T.Safe p Q s := by
  induction p generalizing s with
  | ret a => exact h₁
  | raise e => exact h₁
  | call o k ih =>
    obtain ⟨I₁, -, hi₁, hk₁⟩ := h₁
    obtain ⟨I₂, -, hi₂, hk₂⟩ := h₂
    obtain ⟨hp₁, hnext₁⟩ := hk₁ s (inv s hs).1 hi₁ (ok s o).1
    obtain ⟨hp₂, hnext₂⟩ := hk₂ s (inv s hs).2 hi₂ ((ok s o).2 hp₁)
    have hp := pre s o hp₁ hp₂
    exact (hT.safe_call hs).mpr ⟨hp, fun i =>
      ih _ (hnext₁ i) (hnext₂ i) (T.inv_after i hs (hT.ok s o) hp)⟩

theorem Alone.exec (hT : Alone T) (is : List ι) (hs : T.inv s) (h : T.Safe p Q s) :
    T.inv (p.exec M is s).2 ∧ T.Safe (p.exec M is s).1 Q (p.exec M is s).2 := by
  induction p generalizing is s with
  | ret a => rw [Prog.exec_ret]; exact ⟨hs, h⟩
  | raise e => rw [Prog.exec_raise]; exact ⟨hs, h⟩
  | call o k ih =>
    cases is with
    | nil => exact ⟨hs, h⟩
    | cons i is =>
      obtain ⟨hp, hk⟩ := (hT.safe_call hs).mp h
      exact ih _ is (T.inv_after i hs (hT.ok s o) hp) (hk i)

theorem Alone.pre (hT : Alone T) (is : List ι) (hs : T.inv s) (h : T.Safe p Q s) {o : S.Op}
    (ho : (p.exec M is s).1.next? = some o) : T.pre (p.exec M is s).2 o := by
  obtain ⟨hs', h'⟩ := hT.exec is hs h
  generalize p.exec M is s = q at ho hs' h'
  obtain ⟨p, t⟩ := q
  cases p with
  | ret a => cases ho
  | raise e => cases ho
  | call o' k =>
    cases ho
    exact ((hT.safe_call hs').mp h').1

theorem Alone.runAll (hT : Alone T) (i : ι) (hs : T.inv s) (h : T.Safe p Q s) :
    T.inv (p.runAll M i s).2 ∧ Q (p.runAll M i s).1 (p.runAll M i s).2 := by
  induction p generalizing s with
  | ret a => exact ⟨hs, (safe_ret a).mp h⟩
  | raise e => exact ⟨hs, (safe_raise e).mp h⟩
  | call o k ih =>
    obtain ⟨hp, hk⟩ := (hT.safe_call hs).mp h
    exact ih _ (T.inv_after i hs (hT.ok s o) hp) (hk i)

theorem Alone.session (hT : Alone T) {prog : κ → Prog S ε α}
    (hprog : ∀ c s, T.inv s → T.Safe (prog c) (fun _ _ => True) s)
    (cs : List (κ × List ι)) (hs : T.inv s) : T.inv (session M prog cs s) := by
  induction cs generalizing s with
  | nil => exact hs
  | cons c cs ih => exact ih (hT.exec c.2 hs (hprog c.1 s hs)).1

/-! ### Calls side by side -/

/-- A theory whose interference covers the operations of its own programs. -/
def Shared (T : Theory M) : Prop :=
  ∀ s o i, T.inv s → T.ok s o → T.pre s o → T.rely s (M.after i s o)

theorem Shared.safe_of_within (hT : T.Shared) {φ : S.Op → Prop} {E : Except ε α → Prop}
    {I : σ → Prop} (hI : T.Stable I)
    (hpre : ∀ t o, T.inv t → I t → T.ok t o → φ o → T.pre t o)
    (hp : p.Within φ E) (hs : I s) : T.Safe p (fun x t => E x ∧ I t) s := by
  refine Safe.of_within hI hpre (fun t o i ht hi ho hφ => ?_) hp hs
  have hpre' := hpre t o ht hi ho hφ
  exact hI t _ ht (T.inv_after i ht ho hpre') (hT t o i ht ho hpre') hi

/-- Every program under way is safe where the shared state is now. -/
def Sound (T : Theory M) (w : World S σ ε α) : Prop :=
  T.inv w.shared ∧ ∀ p ∈ w.procs, T.Safe p (fun _ _ => True) w.shared

theorem Shared.sound_act (hT : T.Shared) {prog : κ → Prog S ε α}
    (hprog : ∀ c s, T.inv s → T.Safe (prog c) (fun _ _ => True) s) {w : World S σ ε α}
    {a : Action κ ι} (hok : ∀ o, w.issued a = some o → T.ok w.shared o) (h : T.Sound w) :
    T.Sound (w.act M prog a) := by
  obtain ⟨hinv, hsafe⟩ := h
  cases a with
  | start c =>
    refine ⟨hinv, fun p hp => ?_⟩
    rcases List.mem_append.mp hp with hp | hp
    · exact hsafe p hp
    · rw [List.mem_singleton.mp hp]; exact hprog c _ hinv
  | crash n => exact ⟨hinv, fun p hp => hsafe p (List.mem_of_mem_eraseIdx hp)⟩
  | step n i =>
    rcases hn : w.issued (Action.step n i : Action κ ι) with _ | o
    · rw [World.act_step_of_issued_none hn]; exact ⟨hinv, hsafe⟩
    obtain ⟨k, hk⟩ := World.issued_step_eq_some hn
    obtain ⟨I, -, hi, hop⟩ := hsafe _ (List.mem_of_getElem? hk)
    have ho := hok o hn
    obtain ⟨hp, hnext⟩ := hop _ hinv hi ho
    have hinv' := T.inv_after i hinv ho hp
    rw [World.act_step_call hk]
    refine ⟨hinv', fun q hq => ?_⟩
    rcases List.mem_or_eq_of_mem_set hq with hq | rfl
    · exact (hsafe q hq).interfere hinv hinv' (hT _ _ i hinv ho hp)
    · exact hnext i

theorem sound_of_inv (h : T.inv s) : T.Sound (⟨s, []⟩ : World S σ ε α) :=
  ⟨h, fun _ hp => by cases hp⟩

theorem Sound.pre {w : World S σ ε α} (h : T.Sound w) {a : Action κ ι} {o : S.Op}
    (ho : w.issued a = some o) (hok : T.ok w.shared o) : T.pre w.shared o := by
  cases a with
  | start c => cases ho
  | crash n => cases ho
  | step n i =>
    obtain ⟨k, hk⟩ := World.issued_step_eq_some ho
    obtain ⟨I, -, hi, hop⟩ := h.2 _ (List.mem_of_getElem? hk)
    exact (hop _ h.1 hi hok).1

theorem Shared.sound_run (hT : T.Shared) {prog : κ → Prog S ε α}
    (hprog : ∀ c s, T.inv s → T.Safe (prog c) (fun _ _ => True) s) {w : World S σ ε α}
    {as : List (Action κ ι)} (hg : w.Guarded M prog T.ok as) (h : T.Sound w) :
    T.Sound (w.run M prog as) := by
  induction as generalizing w with
  | nil => exact h
  | cons a as ih => exact ih hg.2 (hT.sound_act hprog hg.1 h)

/-- What every guarded operation does to the shared state, a guarded run of safe programs does. -/
theorem Shared.run_rel (hT : T.Shared) {prog : κ → Prog S ε α}
    (hprog : ∀ c s, T.inv s → T.Safe (prog c) (fun _ _ => True) s) {R : σ → σ → Prop}
    (hrefl : ∀ s, R s s) (htrans : ∀ s t u, R s t → R t u → R s u)
    (hstep : ∀ s o i, T.inv s → T.ok s o → T.pre s o → R s (M.after i s o))
    {w : World S σ ε α} {as : List (Action κ ι)} (hg : w.Guarded M prog T.ok as)
    (h : T.Sound w) : R w.shared (w.run M prog as).shared := by
  induction as generalizing w with
  | nil => exact hrefl _
  | cons a as ih =>
    refine htrans _ _ _ ?_ (ih hg.2 (hT.sound_act hprog hg.1 h))
    rcases ho : w.issued a with _ | o
    · rw [World.act_shared_of_none ho]
      exact hrefl _
    · obtain ⟨i, he⟩ := World.act_shared_of_some (M := M) prog ho
      rw [he]
      exact hstep _ _ i h.1 (hg.1 o ho) (h.pre ho (hg.1 o ho))

/-- The theory of an invariant that whatever the programs issue keeps. -/
def ofIssued {φ : S.Op → Prop} {inv : σ → Prop}
    (hstep : ∀ s o (i : ι), inv s → φ o → inv (M.after i s o)) : Theory M where
  inv := inv
  ok _ _ := True
  pre _ o := φ o
  rely _ _ := True
  inv_after i hs _ ho := hstep _ _ i hs ho

theorem run_invariant {φ : S.Op → Prop} {inv : σ → Prop} {prog : κ → Prog S ε α}
    (hprog : ∀ c, (prog c).Issues φ) (hstep : ∀ s o (i : ι), inv s → φ o → inv (M.after i s o))
    (as : List (Action κ ι)) (h : inv s) :
    inv ((⟨s, []⟩ : World S σ ε α).run M prog as).shared := by
  have hshared : (ofIssued hstep).Shared := fun _ _ _ _ _ _ => trivial
  have hsafe : ∀ (c : κ) t, (ofIssued hstep).inv t →
      (ofIssued hstep).Safe (prog c) (fun _ _ => True) t := fun c t _ =>
    (hshared.safe_of_within (I := fun _ => True) (fun _ _ _ _ _ _ => trivial)
      (fun _ _ _ _ _ ho => ho) (hprog c) trivial).mono fun _ _ _ => trivial
  exact (hshared.sound_run hsafe (World.guarded_of_forall fun _ _ => trivial) (sound_of_inv h)).1

end Theory

end Program
