import OrchKit.Home.Stages

/-! # Recovery of a home replacement

A replacement is cut off somewhere, then reconciled by calls that are cut off themselves.
No home is lost on the way, and there is a way out of every disk this leaves but two: where the
journal says complete, or where the restored home cannot be proven, nothing removes the journal
any more.
-/

namespace OrchKit.Home

open Program Theory HomeScript

variable {g : Setting} {mode : Mode}

theorem safe_ofChecked {α β : Type} {x : Except String β} {k : β → HomeScript α} {s : Disk}
    (h : ∀ b, x = .ok b → (staging g mode).Safe (k b) (fun _ _ => True) s) :
    (staging g mode).Safe (ofChecked x >>= k) (fun _ _ => True) s := by
  cases x with
  | error e => trivial
  | ok b => exact h b rfl

theorem activatePrepared_safe (hsafe : standaloneHomeSafe (dir g.old) = true) :
    (staging g mode).Safe (activatePrepared (g.journal .prepared none)) (fun _ _ => True)
      ⟨dir g.old, dir g.new, none, none, none, some (g.journal .prepared none)⟩ := by
  have hmoved : Reached g _ := .inr ⟨hsafe, .preparedMoved⟩
  have hactive : Reached g _ := .inr ⟨hsafe, .oldMovedActive⟩
  have hnew : Reached g _ := .inr ⟨hsafe, .newActive none⟩
  refine safe_rename (.inr ⟨hsafe, .prepared⟩) rfl rfl hmoved (fun h => by cases h)
    (fun h => by cases h) ?_
  refine safe_write hmoved (.inr ⟨hsafe, .oldMoved⟩) ?_
  refine safe_rename (.inr ⟨hsafe, .oldMoved⟩) rfl rfl hactive trivial (fun h => by cases h) ?_
  refine safe_write hactive hnew ?_
  refine (safe_look hnew).mpr ?_
  by_cases hread : g.ReceiptReadable
  swap
  · exact Safe.ite_neg (mt g.new_matches_iff.mp hread) trivial
  refine Safe.ite_pos (Setting.new_matches hread) (safe_call hnew hnew trivial ?_)
  cases hb : g.newBlocked with
  | true => exact Safe.ite_pos hb trivial
  | false => exact Safe.ite_neg (by simp [diskSemantics, hb]) trivial

theorem answer_restore (h : g.backup.refusal = none) :
    (diskSemantics g).answer () g.initial .restore =
      (.ok g.backup.archiveSha256, ⟨dir g.old, dir g.new, none, none, none, none⟩) := by
  simp only [diskSemantics, Setting.initial, if_true, h]
  rfl

theorem answer_restore_refused {e : String} (h : g.backup.refusal = some e) :
    (diskSemantics g).answer () g.initial .restore = (.error e, g.initial) := by
  simp only [diskSemantics, Setting.initial, if_true, h]

theorem prepareAndActivate_safe (hsafe : standaloneHomeSafe (dir g.old) = true)
    (hm : mode.replacing = true) :
    (staging g mode).Safe prepareAndActivate (fun _ _ => True) g.initial := by
  have hi : Reached g g.initial := .inl rfl
  refine (safe_look hi).mpr ?_
  rcases hrefusal : g.backup.refusal with _ | e
  · have ha := answer_restore hrefusal
    refine safe_call hi ?_ hm ?_ <;> rw [Semantics.after, ha]
    · exact .inr ⟨hsafe, .restored⟩
    · refine safe_call (.inr ⟨hsafe, .restored⟩) (.inr ⟨hsafe, .prepared⟩) trivial ?_
      exact activatePrepared_safe hsafe
  · have ha := answer_restore_refused hrefusal
    refine safe_call hi ?_ hm ?_ <;> rw [Semantics.after, ha]
    · exact hi
    · trivial

/-- The reads of the gates. -/
def HomeOp.Gate : HomeOp → Prop
  | .checkState | .reconcileState | .recoveryInspect => True
  | .selectNonterminal | .selectGlobalPause | .selectProjectPauses => True
  | _ => False

theorem ofChecked_issues {α : Type} {φ : HomeOp → Prop} (x : Except String α) :
    (ofChecked x).Issues φ := by
  cases x <;> trivial

theorem liveGates_issues : liveGates.Issues HomeOp.Gate := by
  unfold liveGates
  refine ⟨trivial, fun _ => (ofChecked_issues _).bind fun _ => ?_⟩
  refine ⟨trivial, fun _ => (ofChecked_issues _).bind fun _ => ?_⟩
  refine ⟨trivial, fun _ => (ofChecked_issues _).bind fun _ => ?_⟩
  refine ⟨trivial, fun _ => ⟨trivial, fun _ => ⟨trivial, fun _ => ?_⟩⟩⟩
  exact (ofChecked_issues _).bind fun _ => ofChecked_issues _

theorem after_gate {o : HomeOp} (ho : o.Gate) (s : Disk) :
    (diskSemantics g).after () s o = s := by
  cases o <;> first | rfl | cases ho

theorem careful_gate {o : HomeOp} (hm : mode.replacing = true) (ho : o.Gate) (s : Disk) :
    Careful g mode s o := by
  cases o <;> first | exact hm | cases ho

theorem liveGates_safe {s : Disk} (hm : mode.replacing = true) (hs : Reached g s) :
    (staging g mode).Safe liveGates (fun _ t => t = s) s := by
  refine (Safe.of_within ((staging_alone mode).stable fun t => t = s) ?_ ?_ liveGates_issues
    rfl).mono fun _ _ h => h.2
  · rintro _ o - rfl - ho
    exact ⟨by rwa [after_gate ho], careful_gate hm ho _⟩
  · rintro _ o _ - rfl - ho
    exact after_gate ho _

theorem replace_safe (hm : mode.replacing = true) :
    (staging g mode).Safe replaceHomeFromBackup (fun _ _ => True) g.initial := by
  have hi : Reached g g.initial := .inl rfl
  unfold replaceHomeFromBackup
  refine (safe_load hi).mpr ((safe_look hi).mpr (safe_ofChecked fun _ hr => ?_))
  have hsafe : standaloneHomeSafe (dir g.old) = true := Except.require_eq_ok_iff.mp hr
  refine Safe.bind ((liveGates_safe hm hi).mono ?_)
  rintro (e | _) _ rfl
  · trivial
  refine safe_call hi hi trivial (safe_ofChecked fun _ _ => ?_)
  exact prepareAndActivate_safe hsafe hm

/-! ### Histories -/

/-- A replacement, cut off after so many operations, and calls to reconcile it, each cut off
likewise. -/
def history (cut : ℕ) (calls : List (Actions × ℕ)) : List (HomeCall × List Unit) :=
  (.replace, List.replicate cut ()) ::
    calls.map fun c => (.reconcile c.1, List.replicate c.2 ())

def diskAfter (g : Setting) (cut : ℕ) (calls : List (Actions × ℕ)) : Disk :=
  session (diskSemantics g) HomeCall.script (history cut calls) g.initial

def reconciled (g : Setting) (s : Disk) (a : Actions) : Disk :=
  ((reconcileHomeReplacement a).runAll (diskSemantics g) () s).2

theorem reconcile_keeps (a : Actions) {s : Disk} (hs : Reached g s)
    (hf : a.finalize = true → mode.finalize = true) :
    (staging g mode).Safe (reconcileHomeReplacement a) (fun _ _ => True) s := by
  by_cases hc : Conflict a
  · exact Safe.ite_pos hc trivial
  rcases hj : s.journal with _ | data
  · unfold reconcileHomeReplacement
    refine Safe.ite_neg hc ?_
    simp only [safe_load hs, hj]
    trivial
  by_cases hread : g.ReceiptReadable
  · exact (reconcile_safe hread hf hs hj hc).mono fun _ _ _ => trivial
  · exact (reconcile_unproven hread hs hj hc).mono fun _ _ _ => trivial

theorem reached_reconciling (calls : List (Actions × ℕ)) {s : Disk} (hs : Reached g s) :
    Reached g (session (diskSemantics g) HomeCall.script
      (calls.map fun c => (.reconcile c.1, List.replicate c.2 ())) s) := by
  induction calls generalizing s with
  | nil => exact hs
  | cons c calls ih =>
    exact ih ((staging_alone ⟨true, true⟩).exec _ hs (reconcile_keeps c.1 hs fun _ => rfl)).1

theorem reached_diskAfter (cut : ℕ) (calls : List (Actions × ℕ)) :
    Reached g (diskAfter g cut calls) :=
  reached_reconciling calls
    ((staging_alone ⟨true, true⟩).exec (List.replicate cut ()) (.inl rfl) (replace_safe rfl)).1

theorem reached_reconciled {s : Disk} (hs : Reached g s) (a : Actions) :
    Reached g (reconciled g s a) :=
  ((staging_alone ⟨true, true⟩).runAll () hs (reconcile_keeps a hs fun _ => rfl)).1

/-! ### A way out -/

/-- The journal is gone and one of the two homes is at the destination. -/
def Recovered (g : Setting) (s : Disk) : Prop :=
  s.journal = none ∧ ∃ d, s.destination = dir d ∧ (d.Is g.old ∨ d.Is g.new)

theorem Reached.recovered {s : Disk} (hs : Reached g s) (hj : s.journal = none) :
    Recovered g s := by
  rcases hs with rfl | ⟨-, hs⟩
  · exact ⟨rfl, _, rfl, .inl (Directory.Is.refl _)⟩
  cases hs with
  | restored => exact ⟨rfl, _, rfl, .inl (Directory.Is.refl _)⟩
  | @complete role _ _ _ hd _ =>
    cases role with
    | rollbackOld => exact ⟨hj, _, rfl, .inr hd⟩
    | failedNew => exact ⟨hj, _, rfl, .inl hd⟩
  | _ => cases hj

def Stuck (s : Disk) : Prop := ∃ data, s.journal = some data ∧ data.status = .complete

theorem reconciled_of_stuck {s : Disk} (hs : Stuck s) (a : Actions) : reconciled g s a = s := by
  obtain ⟨data, hj, hc⟩ := hs
  unfold reconciled reconcileHomeReplacement
  split
  · rfl
  · simp [perform, look, Prog.runAll, diskSemantics, Semantics.after, hj,
      continueFrom, hc]

/-- The action that gets a replacement on. -/
def wayOut : JournalStatus → Actions
  | .prepared | .oldMoved => ⟨true, false, false⟩
  | .rollbackPrepared | .rollbackNewMoved => ⟨false, false, true⟩
  | _ => ⟨false, true, false⟩

theorem getsOn_wayOut {status : JournalStatus} (h : status ≠ .complete) :
    GetsOn (wayOut status) status := by
  cases status <;> first | exact absurd rfl h | exact rfl | exact trivial

theorem out_reconciled (hread : g.ReceiptReadable) {s : Disk} {a : Actions} (hs : Reached g s)
    (ha : ¬ Conflict a) {data : Journal} (hj : s.journal = some data)
    (hg : GetsOn a data.status) : Out a.finalize (reconciled g s a) :=
  ((staging_alone ⟨true, true⟩).runAll () hs
    (reconcile_safe hread (fun _ => rfl) hs hj ha)).2.2 hg

theorem recovered_of_near (hread : g.ReceiptReadable) {s : Disk} (hs : Reached g s)
    (hn : Near s) :
    Recovered g (reconciled g s ⟨false, true, false⟩) := by
  obtain ⟨data, hj, hstatus⟩ := hn
  refine (reached_reconciled hs _).recovered ?_
  refine out_reconciled hread hs (a := ⟨false, true, false⟩) (by decide) hj ?_
  simp only [List.mem_cons, List.not_mem_nil, or_false] at hstatus
  rcases hstatus with h | h | h | h <;> rw [h] <;> trivial

theorem foldl_reconciled_of_stuck {s : Disk} (hs : Stuck s) (further : List Actions) :
    further.foldl (reconciled g) s = s := by
  induction further with
  | nil => rfl
  | cons a further ih => rw [List.foldl_cons, reconciled_of_stuck hs, ih]

theorem journalled_of_unproven (hlong : ¬ g.ReceiptReadable) (further : List Actions) {s : Disk}
    (hs : Reached g s) (hj : s.journal ≠ none) :
    (further.foldl (reconciled g) s).journal ≠ none := by
  induction further generalizing s with
  | nil => exact hj
  | cons a further ih =>
    refine ih (reached_reconciled hs a) ?_
    by_cases hc : Conflict a
    · unfold reconciled reconcileHomeReplacement
      rw [if_pos hc]
      exact hj
    obtain ⟨data, hdata⟩ := Option.ne_none_iff_exists'.mp hj
    exact ((staging_alone ⟨true, true⟩).runAll () hs (reconcile_unproven hlong hs hdata hc)).2

namespace Scenario

/-- A home with a ledger, and a backup of one. -/
def setting : Setting where
  old := ⟨⟨1, 1⟩, [(".runtime/orch.sqlite3", .file 0o600 4096 none)]⟩
  live := ⟨true, true, true, [], false, []⟩
  backup :=
    ⟨true, [], "a", ⟨1, 2⟩, [(".runtime/orch.sqlite3", .file 0o600 4096 none)], none, 2048⟩
  newBlocked := false
  replacementReceiptBytes := 512
  fresh := by decide

def finalizedShort : List (Actions × ℕ) := [(⟨false, true, false⟩, 22)]

end Scenario

def Holds (s : Disk) (slot : Slot) (h : Directory) : Prop := ∃ d, s.at slot = dir d ∧ d.Is h

/-- A home has been discarded in a role: the journal, while there is one, records its identity, and
what stays instead is at the destination, proven by what the journal records of it. -/
def Discarded (g : Setting) (s : Disk) (role : DiscardRole) : Prop :=
  Holds s .destination (g.kept role) ∧ ∀ data, s.journal = some data →
    data.discard = g.bound role ∧ provenBy data role s.destination = true

/-- Where the two homes are. -/
structure HomesKept (g : Setting) (s : Disk) : Prop where
  old : Holds s .destination g.old ∨ Holds s .rollback g.old ∨ Discarded g s .rollbackOld
  new : s = g.initial ∨ Holds s .prepared g.new ∨ Holds s .destination g.new ∨
    Holds s .failed g.new ∨ Discarded g s .failedNew

theorem Reached.keepsHomes {s : Disk} (hs : Reached g s) : HomesKept g s := by
  have holds : ∀ {s : Disk} {slot : Slot} {h : Directory}, s.at slot = dir h → Holds s slot h :=
    fun h => ⟨_, h, Directory.Is.refl _⟩
  rcases hs with rfl | ⟨-, hs⟩
  · exact ⟨.inl (holds rfl), .inl rfl⟩
  cases hs with
  | restored | prepared => exact ⟨.inl (holds rfl), .inr (.inl (holds rfl))⟩
  | preparedMoved | oldMoved => exact ⟨.inr (.inl (holds rfl)), .inr (.inl (holds rfl))⟩
  | oldMovedActive | newActive b | rollbackPrepared _ b =>
    exact ⟨.inr (.inl (holds rfl)), .inr (.inr (.inl (holds rfl)))⟩
  | rollbackPreparedMoved _ b | rollbackNewMoved _ b =>
    exact ⟨.inr (.inl (holds rfl)), .inr (.inr (.inr (.inl (holds rfl))))⟩
  | rollbackNewMovedRestored _ b | rolledBack _ b =>
    exact ⟨.inl (holds rfl), .inr (.inr (.inr (.inl (holds rfl))))⟩
  | newActiveDiscarded hread =>
    refine ⟨.inr (.inr ⟨holds rfl, ?_⟩), .inr (.inr (.inl (holds rfl)))⟩
    rintro _ ⟨⟩
    exact ⟨rfl, Setting.new_matches hread⟩
  | rolledBackDiscarded _ =>
    refine ⟨.inl (holds rfl), .inr (.inr (.inr (.inr ⟨holds rfl, ?_⟩)))⟩
    rintro _ ⟨⟩
    exact ⟨rfl, decide_eq_true rfl⟩
  | @pending role d n hread hd _ =>
    have hdiscarded : Discarded g ⟨dir d, none, none, n, none,
        some (g.journal (pendingStatus role) (g.bound role))⟩ role :=
      ⟨⟨d, rfl, hd⟩, by rintro _ ⟨⟩; exact ⟨rfl, proven_kept hread hd _ _⟩⟩
    cases role with
    | rollbackOld => exact ⟨.inr (.inr hdiscarded), .inr (.inr (.inl ⟨d, rfl, hd⟩))⟩
    | failedNew => exact ⟨.inl ⟨d, rfl, hd⟩, .inr (.inr (.inr (.inr hdiscarded)))⟩
  | @complete role d j hread hd hj =>
    have hdiscarded : Discarded g ⟨dir d, none, none, none, none, j⟩ role := by
      refine ⟨⟨d, rfl, hd⟩, fun data hdata => ?_⟩
      obtain ⟨-, hold, harchive, hb⟩ := hj data hdata
      refine ⟨hb, ?_⟩
      cases role with
      | rollbackOld =>
        simp only [provenBy, harchive]
        exact (hd.restoredHomeMatches _).trans (Setting.new_matches hread)
      | failedNew => exact decide_eq_true (hd.1.trans hold.symm)
    cases role with
    | rollbackOld => exact ⟨.inr (.inr hdiscarded), .inr (.inr (.inl ⟨d, rfl, hd⟩))⟩
    | failedNew => exact ⟨.inl ⟨d, rfl, hd⟩, .inr (.inr (.inr (.inr hdiscarded)))⟩

/-- No home is lost, wherever a replacement and its reconciliation are cut off: both homes are
where they should be unless one of them has been discarded, a call that does not finalize never
renames onto anything, discards or removes, and one that does removes only what the journal
identifies, the other home being proven to be at the destination. -/
theorem homesKept (g : Setting) (cut : ℕ) (calls : List (Actions × ℕ)) (a : Actions) (n : ℕ) :
    HomesKept g (diskAfter g cut calls) ∧
      (∀ o, (replaceHomeFromBackup.exec (diskSemantics g) (List.replicate n ()) g.initial).1.next? =
          some o →
        Careful g ⟨false, true⟩
          (replaceHomeFromBackup.exec (diskSemantics g) (List.replicate n ()) g.initial).2 o) ∧
      ∀ o, ((reconcileHomeReplacement a).exec (diskSemantics g) (List.replicate n ())
          (diskAfter g cut calls)).1.next? = some o →
        Careful g ⟨a.finalize, false⟩ ((reconcileHomeReplacement a).exec (diskSemantics g)
          (List.replicate n ()) (diskAfter g cut calls)).2 o := by
  have hs := reached_diskAfter (g := g) cut calls
  refine ⟨hs.keepsHomes, fun o ho => ?_, fun o ho => ?_⟩
  · exact ((staging_alone ⟨false, true⟩).pre _ (.inl rfl) (replace_safe rfl) ho).2
  · exact ((staging_alone ⟨a.finalize, false⟩).pre _ hs (reconcile_keeps a hs fun h => h) ho).2

end OrchKit.Home
