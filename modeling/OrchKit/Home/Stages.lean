import OrchKit.Home.Replacement
import OrchKit.Program.Logic

/-! # The stages of a home replacement

Every disk a replacement and its reconciliation can leave, wherever they are cut off. Each
operation of the two procedures leads from one stage to another, and what it removes or
discards has been proven dispensable. A restored home whose receipt is too long to be read is
never proven, and its replacement gets no further than to the destination.
-/

namespace OrchKit.Home

open Program Theory HomeScript

abbrev dir (d : Directory) : Option Node := some (.directory d)

namespace Setting

variable (g : Setting)

def new : Directory := g.backup.restored

/-- What stays at the destination once something is discarded in a role. -/
def kept : DiscardRole → Directory
  | .rollbackOld => g.new
  | .failedNew => g.old

def lost : DiscardRole → Directory
  | .rollbackOld => g.old
  | .failedNew => g.new

def initial : Disk := { destination := dir g.old }

def journal (status : JournalStatus) (discard : Option (DiscardRole × Identity)) : Journal :=
  ⟨status, g.old.identity, g.backup.archiveSha256, discard, false⟩

def bound (role : DiscardRole) : Option (DiscardRole × Identity) :=
  some (role, (g.lost role).identity)

/-- The receipt of the restored home is short enough to be read. -/
def ReceiptReadable : Prop := g.backup.receiptBytes ≤ restoreReceiptMaxBytes

instance : Decidable g.ReceiptReadable := inferInstanceAs (Decidable (_ ≤ _))

theorem new_matches_iff :
    restoredHomeMatches g.backup.archiveSha256 (dir g.new) = true ↔ g.ReceiptReadable := by
  simp [restoredHomeMatches, new, Backup.restored, Directory.write, ReceiptReadable]

variable {g} in
theorem new_matches (hread : g.ReceiptReadable) :
    restoredHomeMatches g.backup.archiveSha256 (dir g.new) = true :=
  g.new_matches_iff.mpr hread

theorem new_ne_old : g.new.identity ≠ g.old.identity := g.fresh

end Setting

def pendingStatus : DiscardRole → JournalStatus
  | .rollbackOld => .finalizePendingDelete
  | .failedNew => .rollbackFinalizePendingDelete

variable {g : Setting}

/-- What a recursive delete of a directory may have left of it. -/
def Remains (identity : Identity) (n : Option Node) : Prop :=
  ∀ x, n = some x → ∃ es, x = .directory ⟨identity, es⟩

/-- The stages, as destination, prepared, rollback, discard and failed path and journal. -/
inductive Stage (g : Setting) : Disk → Prop
  | restored : Stage g ⟨dir g.old, dir g.new, none, none, none, none⟩
  | prepared :
      Stage g ⟨dir g.old, dir g.new, none, none, none, some (g.journal .prepared none)⟩
  | preparedMoved :
      Stage g ⟨none, dir g.new, dir g.old, none, none, some (g.journal .prepared none)⟩
  | oldMoved :
      Stage g ⟨none, dir g.new, dir g.old, none, none, some (g.journal .oldMoved none)⟩
  | oldMovedActive :
      Stage g ⟨dir g.new, none, dir g.old, none, none, some (g.journal .oldMoved none)⟩
  | newActive (b) :
      Stage g ⟨dir g.new, none, dir g.old, none, none, some (g.journal .newActive b)⟩
  -- From here on the new home has been proven.
  | newActiveDiscarded (hread : g.ReceiptReadable) :
      Stage g ⟨dir g.new, none, none, dir g.old, none,
        some (g.journal .newActive (g.bound .rollbackOld))⟩
  | rollbackPrepared (hread : g.ReceiptReadable) (b) :
      Stage g ⟨dir g.new, none, dir g.old, none, none, some (g.journal .rollbackPrepared b)⟩
  | rollbackPreparedMoved (hread : g.ReceiptReadable) (b) :
      Stage g ⟨none, none, dir g.old, none, dir g.new, some (g.journal .rollbackPrepared b)⟩
  | rollbackNewMoved (hread : g.ReceiptReadable) (b) :
      Stage g ⟨none, none, dir g.old, none, dir g.new, some (g.journal .rollbackNewMoved b)⟩
  | rollbackNewMovedRestored (hread : g.ReceiptReadable) (b) :
      Stage g ⟨dir g.old, none, none, none, dir g.new, some (g.journal .rollbackNewMoved b)⟩
  | rolledBack (hread : g.ReceiptReadable) (b) :
      Stage g ⟨dir g.old, none, none, none, dir g.new, some (g.journal .rolledBack b)⟩
  | rolledBackDiscarded (hread : g.ReceiptReadable) :
      Stage g ⟨dir g.old, none, none, dir g.new, none,
        some (g.journal .rolledBack (g.bound .failedNew))⟩
  | pending {role d n} (hread : g.ReceiptReadable) (hd : d.Is (g.kept role))
      (hn : Remains (g.lost role).identity n) :
      Stage g ⟨dir d, none, none, n, none, some (g.journal (pendingStatus role) (g.bound role))⟩
  | complete {role d j} (hread : g.ReceiptReadable) (hd : d.Is (g.kept role))
      (hj : ∀ data ∈ j, data.status = .complete ∧ data.oldRoot = g.old.identity ∧
        data.archiveSha256 = g.backup.archiveSha256 ∧ data.discard = g.bound role) :
      Stage g ⟨dir d, none, none, none, none, j⟩

/-- The disk before anything is done, or a stage; only a standalone home gets to one. -/
def Reached (g : Setting) (s : Disk) : Prop :=
  s = g.initial ∨ standaloneHomeSafe (dir g.old) = true ∧ Stage g s

/-- What the journal records of the side that stays when something is discarded in a role. -/
def provenBy (data : Journal) : DiscardRole → Option Node → Bool
  | .rollbackOld => restoredHomeMatches data.archiveSha256
  | .failedNew => oldHomeIdentityMatches data

/-- The directory of a slot is the one the journal records for discarding, and what is to stay
instead is at the destination, proven by what the journal records of it. -/
def Discardable (g : Setting) (s : Disk) (slot : Slot) : Prop :=
  ∃ data role d h, s.journal = some data ∧ s.at slot = dir d ∧ s.destination = dir h ∧
    data.discard = some (role, d.identity) ∧ d.identity = (g.lost role).identity ∧
      h.Is (g.kept role) ∧ provenBy data role (dir h) = true

/-- What a call may do beside looking and renaming: to finalize, or to prepare a replacement. -/
structure Mode where
  finalize : Bool
  replacing : Bool

/-- What may be renamed: nothing to the prepared path, and to the rollback path only while there is
a prepared home. -/
def Route (s : Disk) : Slot → Prop
  | .prepared => False
  | .rollback => s.prepared ≠ none
  | _ => True

/-- Nothing is overwritten by a rename, only a finalizing call discards or removes, and then only
what is discardable, and only a replacement passes gates and restores. -/
def Careful (g : Setting) (mode : Mode) (s : Disk) : HomeOp → Prop
  | .rename source target =>
    s.at target = none ∧ Route s target ∧
      (target = .discard → mode.finalize = true ∧ Discardable g s source)
  | .unlink slot _ => mode.finalize = true ∧ slot = .discard ∧ Discardable g s slot
  | .rmdir slot => mode.finalize = true ∧ slot = .discard ∧ Discardable g s slot
  | .checkState | .reconcileState | .recoveryInspect => mode.replacing = true
  | .selectNonterminal | .selectGlobalPause | .selectProjectPauses => mode.replacing = true
  | .restore => mode.replacing = true
  | _ => True

/-- Carefully from stage to stage. -/
def staging (g : Setting) (mode : Mode) : Theory (diskSemantics g) where
  inv := Reached g
  ok _ _ := True
  pre s o := Reached g ((diskSemantics g).after () s o) ∧ Careful g mode s o
  rely _ _ := False
  inv_after _ _ _ h := h.1

theorem staging_alone (mode : Mode) : Alone (staging g mode) where
  ok _ _ := trivial
  rely _ _ h := h

section Rules

variable {mode : Mode} {α : Type} {Q : Except String α → Disk → Prop} {s : Disk}

theorem safe_call {o : HomeOp} {k : o.Ans → HomeScript α} (hs : Reached g s)
    (ht : Reached g ((diskSemantics g).after () s o)) (hc : Careful g mode s o)
    (h : (staging g mode).Safe (k ((diskSemantics g).answer () s o).1) Q
      ((diskSemantics g).after () s o)) :
    (staging g mode).Safe (.call o k) Q s :=
  ((staging_alone mode).safe_call hs).mpr ⟨⟨ht, hc⟩, fun _ => h⟩

theorem safe_look {slot : Slot} {k : Option Node → HomeScript α} (hs : Reached g s) :
    (staging g mode).Safe (look slot >>= k) Q s ↔
      (staging g mode).Safe (k (s.at slot)) Q s := by
  unfold look
  rw [Prog.call_bind, (staging_alone mode).safe_call hs]
  exact ⟨fun h => h.2 (), fun h => ⟨⟨hs, trivial⟩, fun _ => h⟩⟩

theorem safe_load {k : Option Journal → HomeScript α} (hs : Reached g s) :
    (staging g mode).Safe (perform .load >>= k) Q s ↔
      (staging g mode).Safe (k s.journal) Q s := by
  unfold perform
  rw [Prog.call_bind, (staging_alone mode).safe_call hs]
  exact ⟨fun h => h.2 (), fun h => ⟨⟨hs, trivial⟩, fun _ => h⟩⟩

theorem safe_write {data : Journal} {k : Unit → HomeScript α} (hs : Reached g s)
    (ht : Reached g { s with journal := some data })
    (h : (staging g mode).Safe (k ()) Q { s with journal := some data }) :
    (staging g mode).Safe (write data >>= k) Q s :=
  safe_call hs ht trivial h

theorem safe_rename {source target : Slot} {n : Node} {k : Unit → HomeScript α}
    (hs : Reached g s) (hsource : s.at source = some n) (htarget : s.at target = none)
    (ht : Reached g ((s.put none source).put (some n) target)) (hr : Route s target)
    (hc : target = .discard → mode.finalize = true ∧ Discardable g s source)
    (h : (staging g mode).Safe (k ()) Q ((s.put none source).put (some n) target)) :
    (staging g mode).Safe (rename source target >>= k) Q s := by
  have ha : (diskSemantics g).answer () s (.rename source target) =
      (.ok (), (s.put none source).put (some n) target) := by
    simp only [diskSemantics, hsource, htarget, replaceable, if_true]
  refine safe_call hs ?_ ⟨htarget, hr, hc⟩ ?_
  · rw [Semantics.after, ha]
    exact ht
  · rw [Semantics.after, ha]
    exact h

end Rules

variable {mode : Mode}

section Delete

variable {s : Disk} {identity : Identity}

/-- What is under a discardable directory is removed name by name. -/
theorem unlinkAll_safe (hf : mode.finalize = true)
    (hs : ∀ es, Reached g { s with discard := dir ⟨identity, es⟩ })
    (hd : ∀ es, Discardable g { s with discard := dir ⟨identity, es⟩ } .discard)
    (es : List (String × Entry)) :
    (staging g mode).Safe (unlinkAll .discard (es.map Prod.fst))
      (fun x t => x = .ok true ∧ t = { s with discard := dir ⟨identity, []⟩ })
      { s with discard := dir ⟨identity, es⟩ } := by
  induction es with
  | nil => exact ⟨rfl, rfl⟩
  | cons e es ih =>
    have ha : (diskSemantics g).answer () { s with discard := dir ⟨identity, e :: es⟩ }
        (.unlink .discard e.1) = (true, { s with discard := dir ⟨identity, es⟩ }) := by
      simp [diskSemantics, Disk.at, Disk.put]
    rw [List.map_cons, unlinkAll]
    refine safe_call (hs _) ?_ ⟨hf, rfl, hd _⟩ ?_
    · rw [Semantics.after, ha]
      exact hs es
    · rw [Semantics.after, ha]
      exact ih

theorem deleteBoundDiscard_safe {data : Journal} {role : DiscardRole} (hf : mode.finalize = true)
    (hs : ∀ es, Reached g { s with discard := dir ⟨identity, es⟩ })
    (hd : ∀ es, Discardable g { s with discard := dir ⟨identity, es⟩ } .discard)
    (hs' : Reached g { s with discard := none })
    (hdata : data.discard = some (role, identity)) (es : List (String × Entry)) :
    (staging g mode).Safe (deleteBoundDiscard data role)
      (fun x t => x = .ok true ∧ t = { s with discard := none })
      { s with discard := dir ⟨identity, es⟩ } := by
  have ha : (diskSemantics g).answer () { s with discard := dir ⟨identity, []⟩ }
      (.rmdir .discard) = (true, { s with discard := none }) := by
    simp [diskSemantics, Disk.at, Disk.put]
  unfold deleteBoundDiscard
  rw [safe_look (hs es)]
  simp only [Disk.at, hdata, if_true]
  refine Safe.bind ((unlinkAll_safe hf hs hd es).mono ?_)
  rintro _ _ ⟨rfl, rfl⟩
  simp only [if_true]
  rw [safe_look (hs [])]
  simp only [Disk.at, if_true]
  refine safe_call (hs []) ?_ ⟨hf, rfl, hd _⟩ ?_
  · rw [Semantics.after, ha]
    exact hs'
  · rw [Semantics.after, ha]
    exact ⟨rfl, rfl⟩

end Delete

/-- The statuses from which a finalizing call gets to the end. -/
def Near (s : Disk) : Prop :=
  ∃ data, s.journal = some data ∧
    data.status ∈ [JournalStatus.newActive, .rolledBack, .rollbackFinalizePendingDelete,
      .finalizePendingDelete]

def Out (finalize : Bool) (s : Disk) : Prop := if finalize then s.journal = none else Near s

def Unblocked (x : Except String Reply) : Prop := ∃ r, x = .ok r ∧ ∀ reason, r ≠ .blocked reason

/-- How a call in a stage ends: not blocked, and further on if it `getsOn`. -/
def Ends (getsOn : Prop) (finalize : Bool) (x : Except String Reply) (s : Disk) : Prop :=
  Unblocked x ∧ (getsOn → Out finalize s)

theorem Ends.imp {p q : Prop} {finalize : Bool} {x : Except String Reply} {s : Disk}
    (h : Ends p finalize x s) (hqp : q → p) : Ends q finalize x s :=
  ⟨h.1, fun hq => h.2 (hqp hq)⟩

theorem ends_reply {p : Prop} {finalize : Bool} {r : Reply} {s : Disk}
    (hr : ∀ reason, r ≠ .blocked reason) (h : p → Out finalize s) : Ends p finalize (.ok r) s :=
  ⟨⟨r, rfl, hr⟩, h⟩

theorem proven_kept (hread : g.ReceiptReadable) {role : DiscardRole} {d : Directory}
    (hd : d.Is (g.kept role)) (status : JournalStatus) (b : Option (DiscardRole × Identity)) :
    provenBy (g.journal status b) role (dir d) = true := by
  cases role with
  | rollbackOld => exact (hd.restoredHomeMatches _).trans (Setting.new_matches hread)
  | failedNew => exact decide_eq_true hd.1

theorem discardIdentityMatches_bound (g : Setting) (status : JournalStatus) (role : DiscardRole) :
    discardIdentityMatches (g.journal status (g.bound role)) role (dir (g.lost role)) = true :=
  decide_eq_true rfl

theorem remains_lost (g : Setting) (role : DiscardRole) :
    Remains (g.lost role).identity (dir (g.lost role)) := by
  rintro _ ⟨⟩
  exact ⟨_, rfl⟩

theorem not_oldHomeIdentityMatches_new (status : JournalStatus)
    (b : Option (DiscardRole × Identity)) :
    ¬ oldHomeIdentityMatches (g.journal status b) (dir g.new) = true :=
  fun h => g.new_ne_old (of_decide_eq_true h)

variable {a : Actions} {seen : Seen}

/-- Which actions get a replacement on from each status. -/
def GetsOn (a : Actions) : JournalStatus → Prop
  | .prepared | .oldMoved => a.resume = true
  | .rollbackPrepared | .rollbackNewMoved => a.rollback = true
  | .complete => False
  | _ => True

theorem continue_safe {s : Disk} {data : Journal} {Q : Except String Reply → Disk → Prop}
    (hs : Reached g s) (hj : s.journal = some data)
    (h : ∀ seen : Seen, seen.destExists = isDirectory s.destination →
      seen.preparedExists = isDirectory s.prepared → seen.rollbackExists = isDirectory s.rollback →
      seen.discardExists = isDirectory s.discard →
      seen.destIsNew = (isDirectory s.destination &&
        restoredHomeMatches data.archiveSha256 s.destination) →
      (staging g mode).Safe (continueFrom data seen a) Q s) (hc : ¬ Conflict a) :
    (staging g mode).Safe (reconcileHomeReplacement a) Q s := by
  unfold reconcileHomeReplacement
  refine Safe.ite_neg hc ?_
  simp only [safe_load hs, hj, safe_look hs]
  exact h _ rfl rfl rfl rfl rfl

/-! ### A home that is proven -/

section Proven

variable (hread : g.ReceiptReadable)
  (hsafe : standaloneHomeSafe (dir g.old) = true)
  (hf : a.finalize = true → mode.finalize = true)
include hread hsafe

theorem completeReplacement_safe {role : DiscardRole} {d : Directory} (hd : d.Is (g.kept role)) :
    (staging g mode).Safe
      (completeReplacement (g.journal (pendingStatus role) (g.bound role)) role)
      (Ends True true)
      ⟨dir d, none, none, none, none, some (g.journal (pendingStatus role) (g.bound role))⟩ := by
  have hn : Remains (g.lost role).identity none := fun _ h => by cases h
  have hd' := hd.writeReceipt (.file 0o600 g.replacementReceiptBytes none)
  refine safe_call (.inr ⟨hsafe, .pending hread hd hn⟩)
    (.inr ⟨hsafe, .pending hread hd' hn⟩) trivial ?_
  have hs : Reached g {
      destination := dir (d.write replacementReceipt (.file 0o600 g.replacementReceiptBytes none))
      journal := some { g.journal (pendingStatus role) (g.bound role) with
        status := .complete
        outcomeRolledBack := false || role = .failedNew } } :=
    .inr ⟨hsafe, .complete hread hd' fun _ h => by cases h; exact ⟨rfl, rfl, rfl, rfl⟩⟩
  refine safe_write (.inr ⟨hsafe, .pending hread hd' hn⟩) hs ?_
  refine safe_call hs
    (.inr ⟨hsafe, .complete hread hd' fun _ h => by cases h⟩) trivial ?_
  exact ends_reply (fun _ h => by cases h) fun _ => rfl

include hf

theorem deletePending_safe {role : DiscardRole} {d : Directory} {n : Option Node}
    (hd : d.Is (g.kept role)) (hn : Remains (g.lost role).identity n) :
    (staging g mode).Safe
      (deletePending (g.journal (pendingStatus role) (g.bound role)) role a.finalize)
      (Ends True a.finalize)
      ⟨dir d, none, none, n, none, some (g.journal (pendingStatus role) (g.bound role))⟩ := by
  have near : Near ⟨dir d, none, none, n, none,
      some (g.journal (pendingStatus role) (g.bound role))⟩ :=
    ⟨_, rfl, by cases role <;> simp [Setting.journal, pendingStatus]⟩
  have hpending : Ends True false (.ok (.pendingDelete role)) ⟨dir d, none, none, n, none,
      some (g.journal (pendingStatus role) (g.bound role))⟩ :=
    ends_reply (fun _ h => by cases h) fun _ => near
  unfold deletePending
  rw [safe_look (.inr ⟨hsafe, .pending hread hd hn⟩)]
  cases hfin : a.finalize with
  | false =>
    rcases n with _ | x
    · exact hpending
    · obtain ⟨es, rfl⟩ := hn x rfl
      exact Safe.ite_pos rfl (Safe.ite_pos (decide_eq_true rfl) hpending)
  | true =>
    rcases n with _ | x
    · exact completeReplacement_safe hread hsafe hd
    · obtain ⟨es, rfl⟩ := hn x rfl
      refine Safe.ite_pos rfl (Safe.ite_pos (decide_eq_true rfl) (Safe.ite_pos rfl ?_))
      refine Safe.bind ((deleteBoundDiscard_safe (s := ⟨dir d, none, none, none, none, _⟩) (hf hfin)
        ?_ ?_ ?_ rfl es).mono ?_)
      · intro es
        exact .inr ⟨hsafe, .pending hread hd fun _ h => ⟨es, by cases h; rfl⟩⟩
      · intro es
        exact ⟨_, role, _, d, rfl, rfl, rfl, rfl, rfl, hd, proven_kept hread hd _ _⟩
      · exact .inr ⟨hsafe, .pending hread hd fun _ h => by cases h⟩
      · rintro _ _ ⟨rfl, rfl⟩
        exact completeReplacement_safe hread hsafe hd

theorem finalizePending_safe {d : Directory} {n : Option Node}
    (hd : d.Is (g.kept .rollbackOld)) (hn : Remains (g.lost .rollbackOld).identity n) :
    (staging g mode).Safe
      (finalizePending (g.journal .finalizePendingDelete (g.bound .rollbackOld)) a)
      (Ends True a.finalize)
      ⟨dir d, none, none, n, none,
        some (g.journal .finalizePendingDelete (g.bound .rollbackOld))⟩ := by
  have hs : Reached g ⟨dir d, none, none, n, none,
      some (g.journal .finalizePendingDelete (g.bound .rollbackOld))⟩ :=
    .inr ⟨hsafe, .pending hread hd hn⟩
  unfold finalizePending
  simp only [safe_look hs]
  exact Safe.ite_pos ⟨rfl, rfl, rfl, proven_kept hread hd .finalizePendingDelete _⟩
    (deletePending_safe hread hsafe hf hd hn)

theorem rollbackFinalizePending_safe {d : Directory} {n : Option Node}
    (hd : d.Is (g.kept .failedNew)) (hn : Remains (g.lost .failedNew).identity n) :
    (staging g mode).Safe
      (rollbackFinalizePending (g.journal .rollbackFinalizePendingDelete (g.bound .failedNew)) a)
      (Ends True a.finalize)
      ⟨dir d, none, none, n, none,
        some (g.journal .rollbackFinalizePendingDelete (g.bound .failedNew))⟩ := by
  have hs : Reached g ⟨dir d, none, none, n, none,
      some (g.journal .rollbackFinalizePendingDelete (g.bound .failedNew))⟩ :=
    .inr ⟨hsafe, .pending hread hd hn⟩
  unfold rollbackFinalizePending
  simp only [safe_look hs]
  exact Safe.ite_pos ⟨proven_kept hread hd .rollbackFinalizePendingDelete _, rfl, rfl, rfl⟩
    (deletePending_safe hread hsafe hf hd hn)

theorem rolledBackDiscarded_safe :
    (staging g mode).Safe (rolledBack (g.journal .rolledBack (g.bound .failedNew)) a)
      (Ends True a.finalize)
      ⟨dir g.old, none, none, dir g.new, none,
        some (g.journal .rolledBack (g.bound .failedNew))⟩ := by
  have hs : Reached g _ := .inr ⟨hsafe, .rolledBackDiscarded hread⟩
  have hp : (Directory.Is g.old (g.kept .failedNew)) := Directory.Is.refl _
  have hr : Remains (g.lost .failedNew).identity (dir g.new) := remains_lost g .failedNew
  have hm : discardIdentityMatches (g.journal .rolledBack (g.bound .failedNew)) .failedNew
      (dir g.new) = true := discardIdentityMatches_bound ..
  unfold rolledBack
  simp only [safe_look hs]
  refine Safe.ite_pos ⟨proven_kept hread hp .rolledBack _, rfl, rfl, rfl⟩ ?_
  refine Safe.ite_pos hm ?_
  refine safe_write hs (.inr ⟨hsafe, .pending hread hp hr⟩) ?_
  exact rollbackFinalizePending_safe hread hsafe hf hp hr

theorem rolledBack_safe (b : Option (DiscardRole × Identity)) :
    (staging g mode).Safe (rolledBack (g.journal .rolledBack b) a)
      (Ends True a.finalize)
      ⟨dir g.old, none, none, none, dir g.new, some (g.journal .rolledBack b)⟩ := by
  have hs : ∀ b, Reached g _ := fun b => .inr ⟨hsafe, .rolledBack hread b⟩
  have hp : (Directory.Is g.old (g.kept .failedNew)) := Directory.Is.refl _
  have hproven := fun b => proven_kept hread hp .rolledBack b
  unfold rolledBack
  simp only [safe_look (hs b)]
  refine Safe.ite_neg (by rintro ⟨-, -, -, h⟩; cases h) ?_
  refine Safe.ite_pos ⟨hproven b, rfl, ⟨rfl, Setting.new_matches hread⟩, rfl, rfl⟩ ?_
  cases hfin : a.finalize with
  | false => exact ends_reply (fun _ h => by cases h) fun _ => ⟨_, rfl, by simp [Setting.journal]⟩
  | true =>
    refine safe_write (hs b) (hs (g.bound .failedNew)) ?_
    refine safe_rename (hs _) rfl rfl (.inr ⟨hsafe, .rolledBackDiscarded hread⟩) trivial
      (fun _ => ⟨hf hfin, ?_⟩) ?_
    · exact ⟨_, .failedNew, _, _, rfl, rfl, rfl, rfl, rfl, hp, hproven _⟩
    · refine safe_write (.inr ⟨hsafe, .rolledBackDiscarded hread⟩)
        (.inr ⟨hsafe, .pending hread hp (remains_lost g .failedNew)⟩) ?_
      rw [← hfin]
      exact rollbackFinalizePending_safe hread hsafe hf hp (remains_lost g .failedNew)

theorem rollbackNewMoved_safe (b : Option (DiscardRole × Identity)) :
    (staging g mode).Safe (rollbackNewMoved (g.journal .rollbackNewMoved b) a)
      (Ends (a.rollback = true) a.finalize)
      ⟨none, none, dir g.old, none, dir g.new, some (g.journal .rollbackNewMoved b)⟩ := by
  have hs : Reached g _ := .inr ⟨hsafe, .rollbackNewMoved hread b⟩
  have hs' : Reached g _ := .inr ⟨hsafe, .rollbackNewMovedRestored hread b⟩
  unfold rollbackNewMoved
  simp only [safe_look hs]
  refine Safe.ite_neg (by rintro ⟨h, -⟩; cases h) ?_
  refine Safe.ite_pos ⟨rfl, decide_eq_true rfl, Setting.new_matches hread, rfl⟩ ?_
  cases hr : a.rollback with
  | false => exact ends_reply (fun _ h => by cases h) fun h => absurd h (by decide)
  | true =>
    refine safe_rename hs rfl rfl hs' trivial (fun h => by cases h) ?_
    refine safe_write hs' (.inr ⟨hsafe, .rolledBack hread b⟩) ?_
    exact (rolledBack_safe hread hsafe hf b).mono fun _ _ h => h.imp fun _ => trivial

theorem rollbackNewMovedRestored_safe (b : Option (DiscardRole × Identity)) :
    (staging g mode).Safe (rollbackNewMoved (g.journal .rollbackNewMoved b) a)
      (Ends True a.finalize)
      ⟨dir g.old, none, none, none, dir g.new, some (g.journal .rollbackNewMoved b)⟩ := by
  have hs : Reached g _ := .inr ⟨hsafe, .rollbackNewMovedRestored hread b⟩
  unfold rollbackNewMoved
  simp only [safe_look hs]
  refine Safe.ite_pos ⟨decide_eq_true rfl, rfl, Setting.new_matches hread⟩ ?_
  exact safe_write hs (.inr ⟨hsafe, .rolledBack hread b⟩) (rolledBack_safe hread hsafe hf b)

theorem rollbackPrepared_safe (b : Option (DiscardRole × Identity)) :
    (staging g mode).Safe (rollbackPrepared (g.journal .rollbackPrepared b) a)
      (Ends (a.rollback = true) a.finalize)
      ⟨dir g.new, none, dir g.old, none, none, some (g.journal .rollbackPrepared b)⟩ := by
  have hs : Reached g _ := .inr ⟨hsafe, .rollbackPrepared hread b⟩
  have hs' : Reached g _ := .inr ⟨hsafe, .rollbackPreparedMoved hread b⟩
  unfold rollbackPrepared
  simp only [safe_look hs]
  refine Safe.ite_neg (by rintro ⟨h, -⟩; cases h) ?_
  refine Safe.ite_neg (fun h => not_oldHomeIdentityMatches_new _ _ h.1) ?_
  refine Safe.ite_pos ⟨Setting.new_matches hread, decide_eq_true rfl, rfl, rfl, rfl⟩ ?_
  cases hr : a.rollback with
  | false => exact ends_reply (fun _ h => by cases h) fun h => absurd h (by decide)
  | true =>
    refine safe_rename hs rfl rfl hs' trivial (fun h => by cases h) ?_
    refine safe_write hs' (.inr ⟨hsafe, .rollbackNewMoved hread b⟩) ?_
    exact (rollbackNewMoved_safe hread hsafe hf b).mono fun _ _ h => h.imp fun _ => hr

theorem rollbackPreparedMoved_safe (b : Option (DiscardRole × Identity)) :
    (staging g mode).Safe (rollbackPrepared (g.journal .rollbackPrepared b) a)
      (Ends (a.rollback = true) a.finalize)
      ⟨none, none, dir g.old, none, dir g.new, some (g.journal .rollbackPrepared b)⟩ := by
  have hs : Reached g _ := .inr ⟨hsafe, .rollbackPreparedMoved hread b⟩
  unfold rollbackPrepared
  simp only [safe_look hs]
  refine Safe.ite_pos ⟨rfl, decide_eq_true rfl, Setting.new_matches hread⟩ ?_
  exact safe_write hs (.inr ⟨hsafe, .rollbackNewMoved hread b⟩)
    (rollbackNewMoved_safe hread hsafe hf b)

theorem newActiveDiscarded_safe (hseen : seen.destIsNew = true ∧ seen.discardExists = true) :
    (staging g mode).Safe (newActive (g.journal .newActive (g.bound .rollbackOld)) seen a)
      (Ends True a.finalize)
      ⟨dir g.new, none, none, dir g.old, none,
        some (g.journal .newActive (g.bound .rollbackOld))⟩ := by
  have hs : Reached g _ := .inr ⟨hsafe, .newActiveDiscarded hread⟩
  have hp : Directory.Is g.new (g.kept .rollbackOld) := Directory.Is.refl _
  have hr : Remains (g.lost .rollbackOld).identity (dir g.old) := remains_lost g .rollbackOld
  unfold newActive
  simp only [safe_look hs]
  refine Safe.ite_pos ⟨hseen.1, rfl, rfl, hseen.2⟩ ?_
  refine Safe.ite_pos (discardIdentityMatches_bound g .newActive .rollbackOld) ?_
  exact safe_write hs (.inr ⟨hsafe, .pending hread hp hr⟩)
    (finalizePending_safe hread hsafe hf hp hr)

theorem newActive_safe (b : Option (DiscardRole × Identity)) :
    (staging g mode).Safe (newActive (g.journal .newActive b) seen a)
      (Ends True a.finalize)
      ⟨dir g.new, none, dir g.old, none, none, some (g.journal .newActive b)⟩ := by
  have hs : ∀ b, Reached g ⟨dir g.new, none, dir g.old, none, none,
      some (g.journal .newActive b)⟩ := fun b => .inr ⟨hsafe, .newActive b⟩
  have hd : Reached g _ := .inr ⟨hsafe, .newActiveDiscarded hread⟩
  have hp : Directory.Is g.new (g.kept .rollbackOld) := Directory.Is.refl _
  have hl : Remains (g.lost .rollbackOld).identity (dir g.old) := remains_lost g .rollbackOld
  unfold newActive
  simp only [safe_look (hs b)]
  refine Safe.ite_neg (by rintro ⟨-, -, h, -⟩; cases h) ?_
  refine Safe.ite_pos ⟨rfl, rfl, rfl, rfl, Setting.new_matches hread⟩ ?_
  cases hr : a.rollback with
  | true =>
    refine Safe.ite_pos rfl ?_
    rw [safe_look (hs b)]
    refine Safe.ite_pos ⟨hsafe, decide_eq_true rfl, rfl, rfl⟩ ?_
    refine safe_write (hs b) (.inr ⟨hsafe, .rollbackPrepared hread b⟩) ?_
    exact (rollbackPrepared_safe hread hsafe hf b).mono fun _ _ h => h.imp fun _ => hr
  | false =>
    refine Safe.ite_neg (by decide) ?_
    cases hfin : a.finalize with
    | false => exact ends_reply (fun _ h => by cases h) fun _ => ⟨_, rfl, by simp [Setting.journal]⟩
    | true =>
      refine Safe.ite_pos rfl (Safe.ite_pos ⟨hsafe, decide_eq_true rfl⟩ ?_)
      refine safe_write (hs b) (hs (g.bound .rollbackOld)) ?_
      refine safe_rename (hs _) rfl rfl hd trivial (fun _ => ⟨hf hfin, ?_⟩) ?_
      · exact ⟨_, .rollbackOld, _, _, rfl, rfl, rfl, rfl, rfl, hp, Setting.new_matches hread⟩
      · refine safe_write hd (.inr ⟨hsafe, .pending hread hp hl⟩) ?_
        rw [← hfin]
        exact finalizePending_safe hread hsafe hf hp hl

theorem oldMovedActive_safe (hseen : seen.destIsNew = true ∧ seen.rollbackExists = true ∧
      seen.preparedExists = false) :
    (staging g mode).Safe (oldMoved (g.journal .oldMoved none) seen a)
      (Ends True a.finalize)
      ⟨dir g.new, none, dir g.old, none, none, some (g.journal .oldMoved none)⟩ := by
  have hs : Reached g _ := .inr ⟨hsafe, .oldMovedActive⟩
  unfold oldMoved
  refine Safe.ite_pos ⟨hseen.1, hseen.2.1, by rw [hseen.2.2]; decide⟩ ?_
  exact safe_write hs (.inr ⟨hsafe, .newActive none⟩) (newActive_safe hread hsafe hf none)

theorem oldMoved_safe (hseen : seen.destExists = false ∧ seen.rollbackExists = true ∧
      seen.preparedExists = true) :
    (staging g mode).Safe (oldMoved (g.journal .oldMoved none) seen a)
      (Ends (a.resume = true) a.finalize)
      ⟨none, dir g.new, dir g.old, none, none, some (g.journal .oldMoved none)⟩ := by
  have hs : Reached g _ := .inr ⟨hsafe, .oldMoved⟩
  have hs' : Reached g _ := .inr ⟨hsafe, .oldMovedActive⟩
  have hn : Reached g _ := .inr ⟨hsafe, .newActive none⟩
  unfold oldMoved
  refine Safe.ite_neg (fun h => h.2.2 hseen.2.2) ?_
  refine Safe.ite_pos ⟨by rw [hseen.1]; decide, hseen.2⟩ ?_
  cases hr : a.resume with
  | false => exact ends_reply (fun _ h => by cases h) fun h => absurd h (by decide)
  | true =>
    refine safe_rename hs rfl rfl hs' trivial (fun h => by cases h) ?_
    refine safe_write hs' hn ?_
    refine (safe_look hn).mpr ?_
    exact (newActive_safe hread hsafe hf none).mono fun _ _ h => h.imp fun _ => trivial

theorem preparedMoved_safe (hseen : seen.destExists = false ∧ seen.rollbackExists = true ∧
      seen.preparedExists = true) :
    (staging g mode).Safe (prepared (g.journal .prepared none) seen a)
      (Ends (a.resume = true) a.finalize)
      ⟨none, dir g.new, dir g.old, none, none, some (g.journal .prepared none)⟩ := by
  have hs : Reached g _ := .inr ⟨hsafe, .preparedMoved⟩
  unfold prepared
  refine Safe.ite_pos ⟨by rw [hseen.1]; decide, hseen.2⟩ ?_
  exact safe_write hs (.inr ⟨hsafe, .oldMoved⟩) (oldMoved_safe hread hsafe hf hseen)

theorem prepared_safe (hseen : seen.destExists = true ∧ seen.rollbackExists = false ∧
      seen.preparedExists = true) :
    (staging g mode).Safe (prepared (g.journal .prepared none) seen a)
      (Ends (a.resume = true) a.finalize)
      ⟨dir g.old, dir g.new, none, none, none, some (g.journal .prepared none)⟩ := by
  have hs : Reached g _ := .inr ⟨hsafe, .prepared⟩
  have hs' : Reached g _ := .inr ⟨hsafe, .preparedMoved⟩
  have hrollback : ¬ seen.rollbackExists = true := by rw [hseen.2.1]; decide
  unfold prepared
  refine Safe.ite_neg (fun h => h.1 hseen.1) ?_
  refine Safe.ite_neg (fun h => hrollback h.2.1) ?_
  refine Safe.ite_pos ⟨hseen.1, hseen.2.2, hrollback⟩ ?_
  cases hr : a.resume with
  | false => exact ends_reply (fun _ h => by cases h) fun h => absurd h (by decide)
  | true =>
    refine safe_rename hs rfl rfl hs' (fun h => by cases h) (fun h => by cases h) ?_
    refine safe_write hs' (.inr ⟨hsafe, .oldMoved⟩) ?_
    exact (oldMoved_safe hread hsafe hf ⟨rfl, rfl, rfl⟩).mono fun _ _ h => h.imp fun _ => hr

omit hsafe in
/-- No call is blocked in a stage, and each that fits the status gets on. -/
theorem reconcile_safe {s : Disk} {data : Journal} (hs : Reached g s) (hj : s.journal = some data)
    (hc : ¬ Conflict a) :
    (staging g mode).Safe (reconcileHomeReplacement a)
      (Ends (GetsOn a data.status) a.finalize) s := by
  rcases id hs with rfl | ⟨hsafe, hst⟩
  · cases hj
  refine continue_safe hs hj (fun seen hd hp hr hdisc hn => ?_) hc
  cases hst with
  | restored => cases hj
  | prepared => cases hj; exact prepared_safe hread hsafe hf ⟨hd, hr, hp⟩
  | preparedMoved => cases hj; exact preparedMoved_safe hread hsafe hf ⟨hd, hr, hp⟩
  | oldMoved => cases hj; exact oldMoved_safe hread hsafe hf ⟨hd, hr, hp⟩
  | oldMovedActive =>
    cases hj
    exact (oldMovedActive_safe hread hsafe hf ⟨hn.trans (Setting.new_matches hread), hr, hp⟩).mono
      fun _ _ h => h.imp fun _ => trivial
  | newActive b => cases hj; exact newActive_safe hread hsafe hf b
  | newActiveDiscarded _ =>
    cases hj
    exact newActiveDiscarded_safe hread hsafe hf ⟨hn.trans (Setting.new_matches hread), hdisc⟩
  | rollbackPrepared _ b => cases hj; exact rollbackPrepared_safe hread hsafe hf b
  | rollbackPreparedMoved _ b => cases hj; exact rollbackPreparedMoved_safe hread hsafe hf b
  | rollbackNewMoved _ b => cases hj; exact rollbackNewMoved_safe hread hsafe hf b
  | rollbackNewMovedRestored _ b =>
    cases hj
    exact (rollbackNewMovedRestored_safe hread hsafe hf b).mono fun _ _ h => h.imp fun _ => trivial
  | rolledBack _ b => cases hj; exact rolledBack_safe hread hsafe hf b
  | rolledBackDiscarded _ => cases hj; exact rolledBackDiscarded_safe hread hsafe hf
  | @pending role _ _ _ hkept hleft =>
    cases hj
    cases role with
    | rollbackOld => exact finalizePending_safe hread hsafe hf hkept hleft
    | failedNew => exact rollbackFinalizePending_safe hread hsafe hf hkept hleft
  | complete _ _ hcomplete =>
    have hstatus := (hcomplete data hj).1
    rw [continueFrom, hstatus]
    exact ends_reply (fun _ h => by cases h) fun h => absurd h (by simp [GetsOn])

end Proven

/-! ### A home that is not proven -/

section Unproven

theorem oldMovedActive_unproven (hseen : seen.destIsNew = false ∧ seen.destExists = true) :
    (staging g mode).Safe (oldMoved (g.journal .oldMoved none) seen a)
      (fun _ t => t.journal ≠ none)
      ⟨dir g.new, none, dir g.old, none, none, some (g.journal .oldMoved none)⟩ := by
  unfold oldMoved
  refine Safe.ite_neg (fun h => by simp [hseen.1] at h) ?_
  exact Safe.ite_neg (fun h => h.1 hseen.2) (fun h => by cases h)

variable (hlong : ¬ g.ReceiptReadable) (hsafe : standaloneHomeSafe (dir g.old) = true)
include hlong hsafe

theorem newActive_unproven (b : Option (DiscardRole × Identity)) (hseen : seen.destIsNew = false) :
    (staging g mode).Safe (newActive (g.journal .newActive b) seen a)
      (fun _ t => t.journal ≠ none)
      ⟨dir g.new, none, dir g.old, none, none, some (g.journal .newActive b)⟩ := by
  have hs : Reached g _ := .inr ⟨hsafe, .newActive b⟩
  unfold newActive
  simp only [safe_look hs]
  refine Safe.ite_neg (fun h => by simp [hseen] at h) ?_
  exact Safe.ite_neg (fun h => hlong (g.new_matches_iff.mp h.2.2.2.2)) (fun h => by cases h)

theorem oldMoved_unproven (hseen : seen.destExists = false ∧ seen.rollbackExists = true ∧
      seen.preparedExists = true) :
    (staging g mode).Safe (oldMoved (g.journal .oldMoved none) seen a)
      (fun _ t => t.journal ≠ none)
      ⟨none, dir g.new, dir g.old, none, none, some (g.journal .oldMoved none)⟩ := by
  have hs : Reached g _ := .inr ⟨hsafe, .oldMoved⟩
  have hs' : Reached g _ := .inr ⟨hsafe, .oldMovedActive⟩
  have hn : Reached g _ := .inr ⟨hsafe, .newActive none⟩
  unfold oldMoved
  refine Safe.ite_neg (fun h => h.2.2 hseen.2.2) ?_
  refine Safe.ite_pos ⟨by rw [hseen.1]; decide, hseen.2⟩ ?_
  cases hr : a.resume with
  | false => exact fun h => by cases h
  | true =>
    refine safe_rename hs rfl rfl hs' trivial (fun h => by cases h) ?_
    refine safe_write hs' hn ?_
    refine (safe_look hn).mpr (newActive_unproven hlong hsafe none ?_)
    exact Bool.eq_false_iff.mpr fun h => hlong (g.new_matches_iff.mp h)

theorem preparedMoved_unproven (hseen : seen.destExists = false ∧ seen.rollbackExists = true ∧
      seen.preparedExists = true) :
    (staging g mode).Safe (prepared (g.journal .prepared none) seen a)
      (fun _ t => t.journal ≠ none)
      ⟨none, dir g.new, dir g.old, none, none, some (g.journal .prepared none)⟩ := by
  have hs : Reached g _ := .inr ⟨hsafe, .preparedMoved⟩
  unfold prepared
  refine Safe.ite_pos ⟨by rw [hseen.1]; decide, hseen.2⟩ ?_
  exact safe_write hs (.inr ⟨hsafe, .oldMoved⟩) (oldMoved_unproven hlong hsafe hseen)

theorem prepared_unproven (hseen : seen.destExists = true ∧ seen.rollbackExists = false ∧
      seen.preparedExists = true) :
    (staging g mode).Safe (prepared (g.journal .prepared none) seen a)
      (fun _ t => t.journal ≠ none)
      ⟨dir g.old, dir g.new, none, none, none, some (g.journal .prepared none)⟩ := by
  have hs : Reached g _ := .inr ⟨hsafe, .prepared⟩
  have hs' : Reached g _ := .inr ⟨hsafe, .preparedMoved⟩
  have hrollback : ¬ seen.rollbackExists = true := by rw [hseen.2.1]; decide
  unfold prepared
  refine Safe.ite_neg (fun h => h.1 hseen.1) ?_
  refine Safe.ite_neg (fun h => hrollback h.2.1) ?_
  refine Safe.ite_pos ⟨hseen.1, hseen.2.2, hrollback⟩ ?_
  cases hr : a.resume with
  | false => exact fun h => by cases h
  | true =>
    refine safe_rename hs rfl rfl hs' (fun h => by cases h) (fun h => by cases h) ?_
    refine safe_write hs' (.inr ⟨hsafe, .oldMoved⟩) ?_
    exact oldMoved_unproven hlong hsafe ⟨rfl, rfl, rfl⟩

omit hsafe in
/-- The journal of a replacement whose new home cannot be proven stays. -/
theorem reconcile_unproven {s : Disk} {data : Journal} (hs : Reached g s)
    (hj : s.journal = some data) (hc : ¬ Conflict a) :
    (staging g mode).Safe (reconcileHomeReplacement a) (fun _ t => t.journal ≠ none) s := by
  rcases id hs with rfl | ⟨hsafe, hst⟩
  · cases hj
  refine continue_safe hs hj (fun seen hd hp hr _ hn => ?_) hc
  have hnew : restoredHomeMatches g.backup.archiveSha256 (dir g.new) = false :=
    Bool.eq_false_iff.mpr fun h => hlong (g.new_matches_iff.mp h)
  cases hst with
  | restored => cases hj
  | prepared => cases hj; exact prepared_unproven hlong hsafe ⟨hd, hr, hp⟩
  | preparedMoved => cases hj; exact preparedMoved_unproven hlong hsafe ⟨hd, hr, hp⟩
  | oldMoved => cases hj; exact oldMoved_unproven hlong hsafe ⟨hd, hr, hp⟩
  | oldMovedActive => cases hj; exact oldMovedActive_unproven ⟨hn.trans hnew, hd⟩
  | newActive b => cases hj; exact newActive_unproven hlong hsafe b (hn.trans hnew)
  | newActiveDiscarded hread | rolledBackDiscarded hread => exact absurd hread hlong
  | rollbackPrepared hread b | rollbackPreparedMoved hread b | rollbackNewMoved hread b
  | rollbackNewMovedRestored hread b | rolledBack hread b => exact absurd hread hlong
  | pending hread | complete hread => exact absurd hread hlong

end Unproven

end OrchKit.Home
