import OrchKit.Program.Logic

/-! # One program amid the steps of others

Calls that follow one another while somebody else steps in between any two of their
operations. Where those steps are what the theory's programs tolerate, safe calls keep
the invariant and establish what their operations need.
-/

namespace Program

variable {S : Sig} {σ ι κ ε α η : Type} (M : Semantics S σ ι) (env : η → σ → σ)

/-- A step of somebody else, or the program's next operation. -/
def amid (c : Prog S ε α × σ) : η ⊕ ι → Prog S ε α × σ
  | .inl e => (c.1, env e c.2)
  | .inr i =>
    match c.1 with
    | .call o k => (k (M.answer i c.2 o).1, M.after i c.2 o)
    | p => (p, c.2)

def execAmid (as : List (η ⊕ ι)) (c : Prog S ε α × σ) : Prog S ε α × σ :=
  as.foldl (amid M env) c

/-- The steps of the others are all admitted where they are taken. -/
def Admitted (ok : σ → η → Prop) : List (η ⊕ ι) → Prog S ε α × σ → Prop
  | [], _ => True
  | a :: as, c => (∀ e, a = .inl e → ok c.2 e) ∧ Admitted ok as (amid M env c a)

/-- A sequence of calls amid the steps of others, each cut off where its steps end. -/
def sessionAmid (prog : κ → Prog S ε α) : List (κ × List (η ⊕ ι)) → σ → σ
  | [], s => s
  | (c, as) :: cs, s => sessionAmid prog cs (execAmid M env as (prog c, s)).2

def SessionAdmitted (prog : κ → Prog S ε α) (ok : σ → η → Prop) :
    List (κ × List (η ⊕ ι)) → σ → Prop
  | [], _ => True
  | (c, as) :: cs, s => Admitted M env ok as (prog c, s) ∧
      SessionAdmitted prog ok cs (execAmid M env as (prog c, s)).2

theorem admitted_of_forall {ok : σ → η → Prop} {as : List (η ⊕ ι)}
    (h : ∀ e, .inl e ∈ as → ∀ s, ok s e) (c : Prog S ε α × σ) : Admitted M env ok as c := by
  induction as generalizing c with
  | nil => trivial
  | cons a as ih =>
    refine ⟨fun e he => h e (he ▸ List.mem_cons_self ..) c.2, ih (fun e he => ?_) _⟩
    exact h e (List.mem_cons_of_mem _ he)

theorem sessionAdmitted_append {prog : κ → Prog S ε α} {ok : σ → η → Prop}
    {cs ds : List (κ × List (η ⊕ ι))} {s : σ} :
    SessionAdmitted M env prog ok (cs ++ ds) s ↔ SessionAdmitted M env prog ok cs s ∧
      SessionAdmitted M env prog ok ds (sessionAmid M env prog cs s) := by
  induction cs generalizing s with
  | nil => exact ⟨fun h => ⟨trivial, h⟩, fun h => h.2⟩
  | cons c cs ih =>
    simp only [List.cons_append, SessionAdmitted, sessionAmid, ih, and_assoc]

namespace Theory

variable {M env} {T : Theory M} {may : σ → η → Prop}

/-- The theory tolerates the admitted steps of others, and guards nothing else. -/
structure Tolerates (T : Theory M) (env : η → σ → σ) (may : σ → η → Prop) : Prop where
  ok : ∀ s o, T.ok s o
  inv : ∀ s e, T.inv s → may s e → T.inv (env e s)
  rely : ∀ s e, T.inv s → may s e → T.rely s (env e s)

theorem Tolerates.amid (hT : Tolerates T env may) {c : Prog S ε α × σ} (a : η ⊕ ι)
    (hmay : ∀ e, a = .inl e → may c.2 e)
    (h : T.inv c.2 ∧ T.Safe c.1 (fun _ _ => True) c.2) :
    T.inv (Program.amid M env c a).2 ∧
      T.Safe (Program.amid M env c a).1 (fun _ _ => True) (Program.amid M env c a).2 := by
  obtain ⟨p, s⟩ := c
  obtain ⟨hs, hp⟩ := h
  cases a with
  | inl e =>
    have hs' := hT.inv s e hs (hmay e rfl)
    exact ⟨hs', hp.interfere hs hs' (hT.rely s e hs (hmay e rfl))⟩
  | inr i =>
    cases p with
    | ret a => exact ⟨hs, hp⟩
    | raise e => exact ⟨hs, hp⟩
    | call o k =>
      obtain ⟨I, -, hi, hk⟩ := hp
      obtain ⟨hpre, hnext⟩ := hk s hs hi (hT.ok s o)
      exact ⟨T.inv_after i hs (hT.ok s o) hpre, hnext i⟩

theorem Tolerates.execAmid (hT : Tolerates T env may) {c : Prog S ε α × σ} {as : List (η ⊕ ι)}
    (hadm : Admitted M env may as c) (h : T.inv c.2 ∧ T.Safe c.1 (fun _ _ => True) c.2) :
    T.inv (Program.execAmid M env as c).2 ∧ T.Safe (Program.execAmid M env as c).1
      (fun _ _ => True) (Program.execAmid M env as c).2 := by
  induction as generalizing c with
  | nil => exact h
  | cons a as ih => exact ih hadm.2 (hT.amid a hadm.1 h)

theorem Tolerates.pre (hT : Tolerates T env may) {c : Prog S ε α × σ} {as : List (η ⊕ ι)}
    (hadm : Admitted M env may as c) (h : T.inv c.2 ∧ T.Safe c.1 (fun _ _ => True) c.2) {o : S.Op}
    (ho : (Program.execAmid M env as c).1.next? = some o) :
    T.pre (Program.execAmid M env as c).2 o := by
  obtain ⟨hs, hp⟩ := hT.execAmid hadm h
  generalize Program.execAmid M env as c = c' at ho hs hp
  obtain ⟨p, s⟩ := c'
  cases p with
  | ret a => cases ho
  | raise e => cases ho
  | call o' k =>
    cases ho
    obtain ⟨I, -, hi, hk⟩ := hp
    exact (hk s hs hi (hT.ok s _)).1

theorem Tolerates.sessionAmid (hT : Tolerates T env may) {prog : κ → Prog S ε α}
    {cs : List (κ × List (η ⊕ ι))}
    (hprog : ∀ c ∈ cs, ∀ s, T.inv s → T.Safe (prog c.1) (fun _ _ => True) s) {s : σ}
    (hadm : SessionAdmitted M env prog may cs s) (hs : T.inv s) :
    T.inv (Program.sessionAmid M env prog cs s) := by
  induction cs generalizing s with
  | nil => exact hs
  | cons c cs ih =>
    refine ih (fun c' hc' => hprog c' (List.mem_cons_of_mem _ hc')) hadm.2 ?_
    exact (hT.execAmid hadm.1 ⟨hs, hprog c List.mem_cons_self s hs⟩).1

end Theory

end Program
