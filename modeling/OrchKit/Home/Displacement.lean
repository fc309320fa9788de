import OrchKit.Home.Recovery
import OrchKit.Ledger.Operations
import OrchKit.Program.Interference

/-! # Displacement of a live home

A replacement reads the gates of the live home once, and then it, or a later reconciliation,
renames the home away. In between the ledger inside belongs to everybody: the gates hold at the
rename if nobody's ledger step makes a gate fail that it found satisfied.
-/

namespace OrchKit.Home

open Program Theory HomeScript

/-- The verdicts on a ledger that other parts of the system compute. -/
structure Verdicts where
  stateReady : Ledger → Bool
  reconcileClean : Ledger → Bool
  recoveryClean : Ledger → Bool

/-- `SELECT ... WHERE status NOT IN ('DONE','CANCELLED') ORDER BY queue_seq,task_id`. -/
def nonterminalTasks (L : Ledger) : List TaskId :=
  ((L.tasks.entries.filter fun e => e.2.status ∉ [TaskStatus.done, .cancelled]).insertionSort
    fun a b => a.2.queueSeq < b.2.queueSeq ∨ a.2.queueSeq = b.2.queueSeq ∧ a.1 ≤ b.1).map
      Sigma.fst

def projectPauses (L : Ledger) : List ProjectId := sorted (L.projectPauses.entries.map Sigma.fst)

inductive LiveGate
  | stateReady
  | reconcileClean
  | recoveryClean
  | noNonterminalTasks
  | noGlobalPause
  | noProjectPauses

def LiveGate.holds (v : Verdicts) (L : Ledger) : LiveGate → Prop
  | stateReady => v.stateReady L
  | reconcileClean => v.reconcileClean L
  | recoveryClean => v.recoveryClean L
  | noNonterminalTasks => nonterminalTasks L = []
  | noGlobalPause => L.paused = none
  | noProjectPauses => projectPauses L = []

def Passes (v : Verdicts) (L : Ledger) : Prop := ∀ gate : LiveGate, gate.holds v L

/-- The paths, and the ledger inside the old home. -/
structure Site where
  disk : Disk
  ledger : Ledger

def siteSemantics (g : Setting) (v : Verdicts) : Semantics homeSig Site Unit where
  answer _ s
    | .checkState => (v.stateReady s.ledger, s)
    | .reconcileState => (v.reconcileClean s.ledger, s)
    | .recoveryInspect => (v.recoveryClean s.ledger, s)
    | .selectNonterminal => (nonterminalTasks s.ledger, s)
    | .selectGlobalPause => (s.ledger.paused.isSome, s)
    | .selectProjectPauses => (projectPauses s.ledger, s)
    | o => (((diskSemantics g).answer () s.disk o).1,
        { s with disk := ((diskSemantics g).answer () s.disk o).2 })

def oldInPlace (g : Setting) (s : Disk) : Prop :=
  ∃ d, s.destination = dir d ∧ d.identity = g.old.identity

instance (g : Setting) (s : Disk) : Decidable (oldInPlace g s) :=
  match hd : s.destination with
  | some (.directory d) =>
    if h : d.identity = g.old.identity then .isTrue ⟨d, hd, h⟩
    else .isFalse fun ⟨e, he, hi⟩ => h (by rw [hd] at he; cases he; exact hi)
  | none => .isFalse fun ⟨e, he, _⟩ => by rw [hd] at he; cases he
  | some .other => .isFalse fun ⟨e, he, _⟩ => by rw [hd] at he; cases he

/-- A step of somebody's command on the home at the destination. -/
def ledgerStep (g : Setting) (sha : Sha256) (e : Op × Host) (s : Site) : Site :=
  if oldInPlace g s.disk then
    { s with ledger := (ledgerSemantics sha).after e.2 s.ledger e.1 }
  else s

/-- The old home may still be renamed away: it is in place, and nothing says that it has been. -/
def Displaceable (g : Setting) (s : Disk) : Prop :=
  oldInPlace g s ∧ ∀ data, s.journal = some data → data.status = .prepared

/-- While the old home may be renamed away, the step makes no gate fail that it finds satisfied. -/
def KeepsGates (g : Setting) (v : Verdicts) (sha : Sha256) (s : Site) (e : Op × Host) : Prop :=
  Displaceable g s.disk → ∀ gate : LiveGate, gate.holds v s.ledger →
    gate.holds v (ledgerStep g sha e s).ledger

variable {g : Setting} {v : Verdicts} {sha : Sha256} {mode : Mode}

/-- What a home call needs when it renames the old home away. -/
def displacing (g : Setting) (v : Verdicts) : Theory (siteSemantics g v) where
  inv s := Reached g s.disk ∧ (s.disk.prepared ≠ none → Passes v s.ledger)
  ok _ _ := True
  pre s o := Reached g ((diskSemantics g).after () s.disk o) ∧
    (((diskSemantics g).after () s.disk o).prepared ≠ none → Passes v s.ledger) ∧
    ∀ target, o = .rename .destination target → oldInPlace g s.disk → Passes v s.ledger
  rely s t := t.disk = s.disk ∧ (Displaceable g s.disk → ∀ gate : LiveGate,
    gate.holds v s.ledger → gate.holds v t.ledger)
  inv_after := by
    rintro s o - ⟨hs, hp⟩ - ⟨hr, hpre, -⟩
    cases o <;> exact ⟨hr, hpre⟩

theorem displaceable_of_prepared {s : Disk} (hs : Reached g s) (hp : s.prepared ≠ none)
    (ho : oldInPlace g s) : Displaceable g s := by
  refine ⟨ho, fun data hj => ?_⟩
  obtain ⟨d, hd, -⟩ := ho
  rcases hs with rfl | ⟨-, hs⟩
  · cases hj
  cases hs with
  | prepared => cases hj; rfl
  | preparedMoved | oldMoved => cases hd
  | restored => cases hj
  | _ => exact absurd rfl hp

theorem displacing_tolerates :
    Tolerates (displacing g v) (ledgerStep g sha) (KeepsGates g v sha) where
  ok _ _ := trivial
  inv := by
    rintro s e ⟨hs, hp⟩ hk
    by_cases ho : oldInPlace g s.disk
    · have hd : (ledgerStep g sha e s).disk = s.disk := by rw [ledgerStep, if_pos ho]
      refine ⟨by rwa [hd], fun hprep gate => ?_⟩
      rw [hd] at hprep
      exact hk (displaceable_of_prepared hs hprep ho) gate (hp hprep gate)
    · rw [ledgerStep, if_neg ho]
      exact ⟨hs, hp⟩
  rely := by
    rintro s e - hk
    refine ⟨?_, hk⟩
    rw [ledgerStep]
    split <;> rfl

/-! ### Calls that pass no gate -/

/-- Only a restoring operation puts something at the prepared path. -/
theorem prepared_of_after {s : Disk} {o : HomeOp} (hm : mode.replacing = false)
    (hc : Careful g mode s o) (hp : ((diskSemantics g).after () s o).prepared ≠ none) :
    s.prepared ≠ none := by
  cases o with
  | rename source target =>
    obtain ⟨ht, hroute, -⟩ := hc
    simp only [Semantics.after, diskSemantics, ht, replaceable, if_true] at hp
    rcases hsource : s.at source with _ | n
    · rwa [hsource] at hp
    rw [hsource] at hp
    cases target with
    | prepared => exact absurd hroute id
    | _ => cases source <;> first | exact hp | exact absurd rfl hp
  | unlink slot name =>
    obtain ⟨-, rfl, -⟩ := hc
    simp only [Semantics.after, diskSemantics] at hp
    split at hp
    · split at hp <;> exact hp
    · exact hp
  | rmdir slot =>
    obtain ⟨-, rfl, -⟩ := hc
    simp only [Semantics.after, diskSemantics] at hp
    split at hp
    · split at hp <;> exact hp
    · exact hp
  | writeReceipt =>
    simp only [Semantics.after, diskSemantics] at hp
    split at hp <;> exact hp
  | restore => exact absurd (hm.symm.trans hc) (by decide)
  | _ => exact hp

/-- The old home is renamed away only while there is a prepared one. -/
theorem prepared_of_displaced {s : Disk} {target : Slot}
    (hc : Careful g mode s (.rename .destination target))
    (hr : Reached g ((diskSemantics g).after () s (.rename .destination target)))
    (ho : oldInPlace g s) : s.prepared ≠ none := by
  obtain ⟨ht, hroute, hdiscard⟩ := hc
  obtain ⟨d, hd, hid⟩ := ho
  cases target with
  | destination => exact absurd (hd.symm.trans ht) (by simp)
  | prepared => exact absurd hroute id
  | rollback => exact hroute
  | discard =>
    obtain ⟨-, data, role, d', h, -, hat, hdest, -, hlost, hkept, -⟩ := hdiscard rfl
    cases hat.symm.trans hd
    cases hdest.symm.trans hd
    cases role with
    | rollbackOld => exact absurd (hkept.1.symm.trans hlost) g.new_ne_old
    | failedNew => exact absurd (hlost.symm.trans hkept.1) g.new_ne_old
  | failed =>
    have hafter : ((diskSemantics g).after () s (.rename .destination .failed)).failed = dir d := by
      have hat : s.at .destination = some (.directory d) := hd
      simp only [Semantics.after, diskSemantics, hat, ht, replaceable, if_true]
      rfl
    have hnew : ∀ t : Disk, Reached g t → ∀ d, t.failed = dir d → d = g.new := by
      rintro t (rfl | ⟨-, ht⟩) d hf
      · cases hf
      · cases ht <;> cases hf <;> rfl
    rw [hnew _ hr d hafter] at hid
    exact absurd hid g.new_ne_old

/-- What is safe on the paths, without passing gates, needs no more of the ledger. -/
theorem displacing_of_staging {α : Type} (mode : Mode) {p : HomeScript α}
    {Q : Except String α → Disk → Prop}
    {s : Site} (hm : mode.replacing = false) (hs : (displacing g v).inv s)
    (h : (staging g mode).Safe p Q s.disk) :
    (displacing g v).Safe p (fun x t => Q x t.disk ∧ (displacing g v).inv t) s := by
  induction p generalizing s with
  | ret a => exact ⟨h, hs⟩
  | raise e => exact ⟨h, hs⟩
  | call o k ih =>
    obtain ⟨⟨hr, hc⟩, hk⟩ := ((staging_alone mode).safe_call hs.1).mp h
    refine Safe.call (I := fun t => t.disk = s.disk)
      (fun t u _ _ hrely hd => hrely.1.trans hd) rfl ?_
    rintro t ht hd -
    have ha : (siteSemantics g v).answer () t o = (((diskSemantics g).answer () t.disk o).1,
        { t with disk := ((diskSemantics g).answer () t.disk o).2 }) := by
      cases o <;> first | rfl | exact absurd (hm.symm.trans hc) (by decide)
    have hpre : (displacing g v).pre t o := by
      refine ⟨by rwa [hd], fun hp => ht.2 ?_, ?_⟩
      · rw [hd] at hp ⊢
        exact prepared_of_after hm hc hp
      · rintro target rfl ho
        rw [hd] at ho
        refine ht.2 ?_
        rw [hd]
        exact prepared_of_displaced hc hr ho
    refine ⟨hpre, fun i => ?_⟩
    have hinv := (displacing g v).inv_after i ht trivial hpre
    rw [Semantics.after, ha] at hinv ⊢
    refine ih _ hinv ?_
    rw [hd]
    exact hk ()

/-! ### The gates -/

/-- The gates known to hold while nothing has been done to the paths. -/
def Known (g : Setting) (v : Verdicts) (known : LiveGate → Prop) (s : Site) : Prop :=
  s.disk = g.initial ∧ ∀ gate, known gate → gate.holds v s.ledger

theorem known_stable (known : LiveGate → Prop) :
    (displacing g v).Stable (Known g v known) := by
  rintro s t - - ⟨hd, hgates⟩ ⟨hs, hk⟩
  refine ⟨hd.trans hs, fun gate hgate => hgates ?_ gate (hk gate hgate)⟩
  rw [hs]
  exact ⟨⟨g.old, rfl, rfl⟩, fun _ hj => by cases hj⟩

theorem answer_gate {o : HomeOp} (ho : o.Gate) (s : Site) :
    (siteSemantics g v).after () s o = s := by
  cases o <;> first | rfl | cases ho

section Gates

variable {α : Type} {Q : Except String α → Site → Prop} {known : LiveGate → Prop} {s : Site}

theorem safe_gate {o : HomeOp} {k : o.Ans → HomeScript α} (ho : o.Gate) (hs : Known g v known s)
    (h : ∀ t, Known g v known t →
      (displacing g v).Safe (k ((siteSemantics g v).answer () t o).1) Q t) :
    (displacing g v).Safe (.call o k) Q s := by
  refine Safe.call (known_stable known) hs fun t ht hk _ => ⟨⟨?_, ?_, ?_⟩, fun _ => ?_⟩
  · rw [after_gate ho]
    exact ht.1
  · rw [after_gate ho]
    exact ht.2
  · rintro target rfl
    cases ho
  · rw [answer_gate ho]
    exact h t hk

theorem Known.add {p : Prop} (gate : LiveGate) (hs : Known g v known s)
    (hp : p → gate.holds v s.ledger) : Known g v (fun x => known x ∨ x = gate ∧ p) s := by
  refine ⟨hs.1, ?_⟩
  rintro x (hx | ⟨rfl, hx⟩)
  · exact hs.2 x hx
  · exact hp hx

theorem safe_required {p : Prop} [Decidable p] {e : String} {k : Unit → HomeScript α}
    (hq : ∀ e, Q (.error e) s) (h : p → (displacing g v).Safe (k ()) Q s) :
    (displacing g v).Safe (ofChecked (Except.require p e) >>= k) Q s := by
  by_cases hp : p
  · rw [Except.require_of hp]
    exact h hp
  · rw [Except.require, if_neg hp]
    exact hq _

/-- Where the gates let a replacement through, the ledger passes them all. -/
theorem liveGates_passes (hs : s.disk = g.initial) :
    (displacing g v).Safe liveGates (fun x t => x = .ok () → Known g v (fun _ => True) t) s := by
  have hq : ∀ (e : String) (t : Site), (Except.error e : Except String Unit) = .ok () →
      Known g v (fun _ => True) t := fun _ _ h => by cases h
  have h₀ : Known g v (fun _ => False) s := ⟨hs, fun _ h => h.elim⟩
  unfold liveGates
  refine safe_gate trivial h₀ fun t ht => safe_required (hq · _) fun h₁ => ?_
  refine safe_gate trivial (ht.add .stateReady fun _ : True => h₁) fun t ht =>
    safe_required (hq · _) fun h₂ => ?_
  refine safe_gate trivial (ht.add .reconcileClean fun _ : True => h₂) fun t ht =>
    safe_required (hq · _) fun h₃ => ?_
  refine safe_gate trivial (ht.add .recoveryClean fun _ : True => h₃) fun t₁ ht => ?_
  refine safe_gate trivial (ht.add (p := nonterminalTasks t₁.ledger = []) .noNonterminalTasks id)
    fun t₂ ht => ?_
  refine safe_gate trivial (ht.add (p := t₂.ledger.paused = none) .noGlobalPause id)
    fun t₃ ht => ?_
  replace ht := ht.add (p := projectPauses t₃.ledger = []) .noProjectPauses id
  change (displacing g v).Safe (ofChecked (Except.noneOf (nonterminalTasks t₁.ledger) _) >>=
    fun _ => ofChecked (Except.require (t₂.ledger.paused.isSome = false ∧
      projectPauses t₃.ledger = []) _)) _ t₃
  rcases hn : nonterminalTasks t₁.ledger with _ | ⟨taskId, rest⟩
  · by_cases hpauses : t₂.ledger.paused.isSome = false ∧ projectPauses t₃.ledger = []
    · rw [Except.require_of hpauses]
      refine fun _ => ⟨ht.1, fun gate _ => ht.2 gate ?_⟩
      cases gate <;> simp_all
    · rw [Except.require, if_neg hpauses]
      exact hq _ _
  · exact hq _ _

end Gates

/-! ### Runs -/

theorem prepareAndActivate_displacing (hsafe : standaloneHomeSafe (dir g.old) = true) {s : Site}
    (hs : Known g v (fun _ => True) s) :
    (displacing g v).Safe prepareAndActivate (fun _ _ => True) s := by
  have hkept : ∀ d : Disk, (displacing g v).Stable fun t => t.disk = d :=
    fun d t u _ _ hrely ht => hrely.1.trans ht
  refine Safe.call (known_stable _) hs fun t ht hk _ => ⟨⟨ht.1, ht.2, fun _ h => by cases h⟩, ?_⟩
  intro i
  have hlook : ((siteSemantics g v).answer i t (.look .destination)).1 = dir g.old := by
    change t.disk.destination = _
    rw [hk.1]
    rfl
  rw [hlook]
  refine Safe.call (known_stable _) hk fun t ht hk _ => ?_
  rcases hrefusal : g.backup.refusal with _ | e
  swap
  · have hrefused : (diskSemantics g).answer () t.disk .restore = (.error e, g.initial) := by
      rw [hk.1]
      exact answer_restore_refused hrefusal
    refine ⟨⟨?_, fun _ gate => hk.2 gate trivial, fun _ h => by cases h⟩, fun _ => ?_⟩
    · rw [Semantics.after, hrefused]
      exact .inl rfl
    · change (displacing g v).Safe (ofChecked ((diskSemantics g).answer () t.disk .restore).1 >>= _)
        _ _
      rw [hrefused]
      trivial
  have hrestored : (diskSemantics g).answer () t.disk .restore =
      (.ok g.backup.archiveSha256, ⟨dir g.old, dir g.new, none, none, none, none⟩) := by
    rw [hk.1]
    exact answer_restore hrefusal
  have hafter : (siteSemantics g v).answer () t .restore =
      (.ok g.backup.archiveSha256, ⟨⟨dir g.old, dir g.new, none, none, none, none⟩, t.ledger⟩) := by
    change (((diskSemantics g).answer () t.disk .restore).1,
      { t with disk := ((diskSemantics g).answer () t.disk .restore).2 }) = _
    rw [hrestored]
  refine ⟨⟨?_, fun _ gate => hk.2 gate trivial, fun _ h => by cases h⟩, fun _ => ?_⟩
  · rw [Semantics.after, hrestored]
    exact .inr ⟨hsafe, .restored⟩
  rw [Semantics.after, hafter]
  refine Safe.call (hkept _) rfl fun u hu hd _ => ?_
  have hpasses : Passes v u.ledger := hu.2 (by rw [hd]; simp)
  have hwritten : ∀ data, (diskSemantics g).after () u.disk (.write data) =
      ⟨dir g.old, dir g.new, none, none, none, some data⟩ := by
    intro data
    rw [hd]
    rfl
  refine ⟨⟨?_, fun _ => hpasses, fun _ h => by cases h⟩, fun _ => ?_⟩
  · rw [hwritten]
    exact .inr ⟨hsafe, .prepared⟩
  have hw : (siteSemantics g v).after () u (.write (g.journal .prepared none)) =
      ⟨⟨dir g.old, dir g.new, none, none, none, some (g.journal .prepared none)⟩, u.ledger⟩ := by
    change Site.mk ((diskSemantics g).after () u.disk (.write _)) _ = _
    rw [hwritten]
  change (displacing g v).Safe (activatePrepared (g.journal .prepared none)) _
    ((siteSemantics g v).after () u (.write (g.journal .prepared none)))
  rw [hw]
  exact (displacing_of_staging ⟨false, false⟩ (s := ⟨_, u.ledger⟩) rfl
    ⟨.inr ⟨hsafe, .prepared⟩, fun _ => hpasses⟩ (activatePrepared_safe hsafe)).mono
      fun _ _ _ => trivial

theorem safe_unchanged {α : Type} {Q : Except String α → Site → Prop} {o : HomeOp}
    {k : o.Ans → HomeScript α} {s : Site} (hs : Known g v (fun _ => False) s)
    (ho : ∀ s, (diskSemantics g).after () s o = s) (ho' : ∀ s, (siteSemantics g v).after () s o = s)
    (hr : ∀ target, o ≠ .rename .destination target)
    (h : ∀ t, Known g v (fun _ => False) t →
      (displacing g v).Safe (k ((siteSemantics g v).answer () t o).1) Q t) :
    (displacing g v).Safe (.call o k) Q s := by
  refine Safe.call (known_stable _) hs fun t ht hk _ => ⟨⟨?_, ?_, ?_⟩, fun _ => ?_⟩
  · rw [ho]
    exact ht.1
  · rw [ho]
    exact ht.2
  · exact fun target h => absurd h (hr target)
  · rw [ho']
    exact h t hk

theorem replace_displacing {s : Site} (hs : s.disk = g.initial) :
    (displacing g v).Safe replaceHomeFromBackup (fun _ _ => True) s := by
  refine safe_unchanged ⟨hs, fun _ h => h.elim⟩ (fun _ => rfl) (fun _ => rfl)
    (fun _ h => by cases h) fun t ht => ?_
  change (displacing g v).Safe (match t.disk.journal with
    | some _ => _
    | none => _) _ t
  rw [ht.1]
  refine safe_unchanged ht (fun _ => rfl) (fun _ => rfl) (fun _ h => by cases h) fun t ht => ?_
  change (displacing g v).Safe (ofChecked (Except.require
    (standaloneHomeSafe t.disk.destination = true) _) >>= _) _ t
  rw [ht.1]
  refine safe_required (fun _ => trivial) fun hsafe => ?_
  refine Safe.bind ((liveGates_passes ht.1).mono ?_)
  rintro (e | _) t hpass
  · trivial
  have hknown := hpass rfl
  refine Safe.call (known_stable _) hknown fun t ht hk _ =>
    ⟨⟨ht.1, ht.2, fun _ h => by cases h⟩, ?_⟩
  intro
  change (displacing g v).Safe (ofChecked (Backup.guard g.backup.verified g.backup.errors) >>=
    fun _ => prepareAndActivate) _ t
  rcases Backup.guard g.backup.verified g.backup.errors with e | _
  · trivial
  · exact prepareAndActivate_displacing hsafe hk

/-- A step of somebody else, or the next operation of the call under way. -/
abbrev Turn := (Op × Host) ⊕ Unit

/-- A replacement amid the steps of others, and calls to reconcile it, each cut off where its turns
end. -/
def siteHistory (turns : List Turn) (calls : List (Actions × List Turn)) :
    List (HomeCall × List Turn) :=
  (.replace, turns) :: calls.map fun c => (.reconcile c.1, c.2)

def siteAfter (g : Setting) (v : Verdicts) (sha : Sha256) (L : Ledger) (turns : List Turn)
    (calls : List (Actions × List Turn)) : Site :=
  sessionAmid (siteSemantics g v) (ledgerStep g sha) HomeCall.script (siteHistory turns calls)
    ⟨g.initial, L⟩

theorem reconcile_displacing (a : Actions) {s : Site} (hs : (displacing g v).inv s) :
    (displacing g v).Safe (reconcileHomeReplacement a) (fun _ _ => True) s :=
  (displacing_of_staging ⟨a.finalize, false⟩ rfl hs (reconcile_keeps a hs.1 fun h => h)).mono
    fun _ _ _ => trivial

/-- Whenever the old home is about to be renamed away from the destination, by a replacement or
by a later reconciliation, its ledger passes the gates, if no step of somebody else has made a
gate fail, that it found satisfied, while the home might still be renamed away. -/
theorem passes_of_displaced (g : Setting) (v : Verdicts) (sha : Sha256) (L : Ledger)
    (turns : List Turn) (calls : List (Actions × List Turn)) (a : Actions) (last : List Turn)
    (hadm : SessionAdmitted (siteSemantics g v) (ledgerStep g sha) HomeCall.script
      (KeepsGates g v sha) (siteHistory turns (calls ++ [(a, last)])) ⟨g.initial, L⟩)
    (target : Slot) :
    (∀ c, c = execAmid (siteSemantics g v) (ledgerStep g sha) turns
        (replaceHomeFromBackup, ⟨g.initial, L⟩) →
      c.1.next? = some (.rename .destination target) → oldInPlace g c.2.disk →
        Passes v c.2.ledger) ∧
    ∀ c, c = execAmid (siteSemantics g v) (ledgerStep g sha) last
        (reconcileHomeReplacement a, siteAfter g v sha L turns calls) →
      c.1.next? = some (.rename .destination target) → oldInPlace g c.2.disk →
        Passes v c.2.ledger := by
  have htol : Tolerates (displacing g v) (ledgerStep g sha) (KeepsGates g v sha) :=
    displacing_tolerates
  have hi : (displacing g v).inv ⟨g.initial, L⟩ := ⟨.inl rfl, fun h => absurd rfl h⟩
  have hreplace : (displacing g v).inv ⟨g.initial, L⟩ ∧ (displacing g v).Safe
      replaceHomeFromBackup (fun _ _ => True) ⟨g.initial, L⟩ := ⟨hi, replace_displacing rfl⟩
  constructor
  · rintro _ rfl hnext ho
    exact (htol.pre hadm.1 hreplace hnext).2.2 target rfl ho
  · rintro _ rfl hnext ho
    rw [siteHistory, List.map_append, ← List.cons_append, sessionAdmitted_append] at hadm
    obtain ⟨⟨hadm₁, hadm₂⟩, hadm₃⟩ := hadm
    have hs : (displacing g v).inv (siteAfter g v sha L turns calls) := by
      change (displacing g v).inv
        (sessionAmid _ _ _ (calls.map fun c => (HomeCall.reconcile c.1, c.2))
        (execAmid _ _ turns (replaceHomeFromBackup, _)).2)
      refine htol.sessionAmid ?_ hadm₂ (htol.execAmid hadm₁ hreplace).1
      rintro _ hc s hs
      obtain ⟨c, -, rfl⟩ := List.mem_map.mp hc
      exact reconcile_displacing c.1 hs
    exact (htol.pre hadm₃.1 ⟨hs, reconcile_displacing a hs⟩ hnext).2.2 target rfl ho

namespace Scenario

def allClear : Verdicts := ⟨fun _ => true, fun _ => true, fun _ => true⟩

def upToRename : List Turn := List.replicate 12 (.inr ())

def answers : Host := fun _ _ => .error (.other "RuntimeError" "unused")

def task : TaskPayload := ⟨"t", none, "k", "w", [], [], [], false, none, false, {}, 1, []⟩

def planLoaded : Op × Host := (.transaction (.loadPlan "p" "d" [task]), answers)

def digests : Sha256 := ⟨fun _ => "s", fun _ => "p", fun _ => "f", id⟩

/-- Verdicts on what is under way. -/
def idle : Verdicts where
  stateReady L := L.runs.entries.isEmpty
  reconcileClean L := L.publications.entries.isEmpty
  recoveryClean L := L.operations.entries.isEmpty

/-- A ledger with a finished task, paused as a whole and in a project. -/
def pausedLedger : Ledger :=
  { Ledger.empty with
    tasks := Ledger.empty.tasks.put "t" ⟨"r", 0, 1, .done, task⟩
    paused := some "maintenance"
    projectPauses := Ledger.empty.projectPauses.put "p" "maintenance" }

def resumed : Op × Host := (.setPaused none, answers)

def projectResumed : Op × Host := (.transaction (.resumeProject "p"), answers)

def projectRemoved : Op × Host := (.transaction (.recordProjectRemoved "p"), answers)

def whileResumed : List Turn :=
  .inl resumed :: List.replicate 3 (.inr ()) ++ .inl projectResumed :: List.replicate 9 (.inr ())

def whileRemoved : List Turn := .inr () :: .inl projectRemoved :: List.replicate 4 (.inr ())

/-- Nothing is put under way, and no pause is set. -/
structure OnlyLifts (L L' : Ledger) : Prop where
  tasks : L'.tasks = L.tasks
  runs : L'.runs = L.runs
  publications : L'.publications = L.publications
  operations : L'.operations = L.operations
  paused : L.paused = none → L'.paused = none
  projectPauses : L'.projectPauses.entries.Sublist L.projectPauses.entries

theorem keepsGates_of_onlyLifts {e : Op × Host}
    (h : ∀ L, OnlyLifts L ((ledgerSemantics digests).after e.2 L e.1)) (s : Site) :
    KeepsGates setting idle digests s e := by
  rintro ⟨ho, -⟩ gate hgate
  rw [ledgerStep, if_pos ho]
  have hlifts := h s.ledger
  generalize (ledgerSemantics digests).after e.2 s.ledger e.1 = L' at hlifts ⊢
  cases gate with
  | stateReady => simpa [LiveGate.holds, idle, hlifts.runs] using hgate
  | reconcileClean => simpa [LiveGate.holds, idle, hlifts.publications] using hgate
  | recoveryClean => simpa [LiveGate.holds, idle, hlifts.operations] using hgate
  | noNonterminalTasks => simpa [LiveGate.holds, nonterminalTasks, hlifts.tasks] using hgate
  | noGlobalPause => exact hlifts.paused hgate
  | noProjectPauses =>
    have hnone : s.ledger.projectPauses.entries = [] := by
      have hlength := (List.perm_insertionSort (· ≤ ·)
        (s.ledger.projectPauses.entries.map Sigma.fst)).length_eq
      rw [show List.insertionSort _ _ = [] from hgate] at hlength
      simpa using hlength.symm
    have hnil := hlifts.projectPauses
    rw [hnone, List.sublist_nil] at hnil
    simp [LiveGate.holds, projectPauses, hnil, sorted]

theorem onlyLifts_resumed (L : Ledger) :
    OnlyLifts L ((ledgerSemantics digests).after resumed.2 L resumed.1) :=
  ⟨rfl, rfl, rfl, rfl, fun _ => rfl, List.Sublist.refl _⟩

theorem onlyLifts_delete (L : Ledger) (projectId : ProjectId) (kind : EventKind) :
    OnlyLifts L ({ L with projectPauses := L.projectPauses.delete projectId }.record kind) :=
  ⟨rfl, rfl, rfl, rfl, id, List.kerase_sublist projectId L.projectPauses.entries⟩

theorem onlyLifts_projectResumed (L : Ledger) :
    OnlyLifts L ((ledgerSemantics digests).after projectResumed.2 L projectResumed.1) := by
  simp only [Semantics.after, ledgerSemantics, projectResumed, Txn.run]
  rcases h : L.resumeProject "p" with e | ⟨reply, L'⟩
  · exact ⟨rfl, rfl, rfl, rfl, id, List.Sublist.refl _⟩
  simp only [Ledger.resumeProject, Except.bind_eq_ok_iff] at h
  obtain ⟨-, -, h⟩ := h
  split at h <;> simp only [Except.pure_eq_ok_iff, Prod.mk.injEq] at h <;> obtain ⟨-, rfl⟩ := h
  · exact ⟨rfl, rfl, rfl, rfl, id, List.Sublist.refl _⟩
  · exact onlyLifts_delete L "p" _

theorem onlyLifts_projectRemoved (L : Ledger) :
    OnlyLifts L ((ledgerSemantics digests).after projectRemoved.2 L projectRemoved.1) := by
  simp only [Semantics.after, ledgerSemantics, projectRemoved, Txn.run]
  rcases h : L.recordProjectRemoved "p" with e | ⟨reply, L'⟩
  · exact ⟨rfl, rfl, rfl, rfl, id, List.Sublist.refl _⟩
  simp only [Ledger.recordProjectRemoved, Except.bind_eq_ok_iff, Except.pure_eq_ok_iff,
    Prod.mk.injEq] at h
  obtain ⟨-, -, -, rfl⟩ := h
  exact onlyLifts_delete L "p" _

theorem keepsGates_lifts {e : Op × Host} (he : e ∈ [resumed, projectResumed, projectRemoved])
    (s : Site) : KeepsGates setting idle digests s e := by
  refine keepsGates_of_onlyLifts (fun L => ?_) s
  simp only [List.mem_cons, List.not_mem_nil, or_false] at he
  rcases he with rfl | rfl | rfl
  · exact onlyLifts_resumed L
  · exact onlyLifts_projectResumed L
  · exact onlyLifts_projectRemoved L

end Scenario

open OrchKit.Home.Scenario in
/-- The pauses of a home with a finished task are lifted while its replacement reads the gates; the
replacement crashes before its first rename, the project is removed, and reconciliation renames. -/
theorem passes_of_displaced_resumed :
    let crashed := siteAfter setting idle digests pausedLedger whileResumed []
    let c := execAmid (siteSemantics setting idle) (ledgerStep setting digests) whileRemoved
      (reconcileHomeReplacement ⟨true, false, false⟩, crashed)
    (crashed.disk.journal.map Journal.status = some .prepared ∧ Passes idle crashed.ledger) ∧
      c.1.next? = some (.rename .destination .rollback) ∧ Passes idle c.2.ledger := by
  have hsteps : ∀ turns ∈ [whileResumed, whileRemoved], ∀ e, .inl e ∈ turns →
      ∀ s, KeepsGates setting idle digests s e := by
    intro turns ht e he s
    refine keepsGates_lifts ?_ s
    simp only [List.mem_cons, List.not_mem_nil, or_false] at ht
    rcases ht with rfl | rfl <;> simp [whileResumed, whileRemoved] at he ⊢ <;> tauto
  have h := passes_of_displaced setting idle digests pausedLedger whileResumed []
    ⟨true, false, false⟩ whileRemoved ⟨admitted_of_forall _ _ (hsteps _ (by simp)) _,
      admitted_of_forall _ _ (hsteps _ (by simp)) _, trivial⟩ .rollback
  exact ⟨⟨rfl, h.1 _ rfl rfl ⟨setting.old, rfl, rfl⟩⟩, rfl, h.2 _ rfl rfl ⟨setting.old, rfl, rfl⟩⟩

open OrchKit.Home.Scenario in
/-- A plan is loaded after the gates have been passed, and its task is displaced. -/
theorem not_always_passes_of_displaced : ¬ ∀ g v sha L turns target c,
    c = execAmid (siteSemantics g v) (ledgerStep g sha) turns
        (replaceHomeFromBackup, ⟨g.initial, L⟩) →
      c.1.next? = some (.rename .destination target) → oldInPlace g c.2.disk →
        Passes v c.2.ledger := by
  intro h
  have hgate := h setting allClear digests Ledger.empty
    (upToRename ++ [.inl planLoaded]) .rollback _
    rfl rfl ⟨setting.old, rfl, rfl⟩ .noNonterminalTasks
  exact absurd hgate (by simp only [LiveGate.holds]; decide)

end OrchKit.Home
