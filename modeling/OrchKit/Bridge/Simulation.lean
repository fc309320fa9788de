import OrchKit.Bridge.Patch
import OrchKit.Bridge.Preparation
import OrchKit.Bridge.Transitions

/-! # Calls proceed by transitions

Wherever a call of `apply` or `reconcile` is cut off, and whatever has failed on the way, it
has taken the state through transitions of its operation and no others. What holds along
all transitions therefore holds of every history of calls.
-/

namespace OrchKit.Bridge

open Except Program Table Routine

def installs (env : Env) (s : State) : Op → Bool
  | .act (.rename temp _) => (s.files.lookup temp).isSome && env.fault ≠ some .before
  | _ => false

theorem storeQuiet_installs : StoreQuiet installs where
  reads env s o ho := by
    cases o with
    | ledger o => rfl
    | look l => rfl
    | act a =>
      cases a with
      | rename => cases ho
      | _ => rfl
  stores env s a ha := by
    cases a with
    | rename => cases ha
    | _ => rfl

namespace PatchCall

variable (m : Machine) (call : PatchCall)

abbrev runHash : Digest := m.digests.id call.request.binding.runId

abbrev operationHash : Digest := m.digests.id call.request.operationId

/-- The second state is reached from the first by transitions of the call's operation. -/
abbrev Reaches (c c' : State × ℕ) : Prop :=
  Relation.ReflTransGen (PatchStep m (call.runHash m) (call.operationHash m)) c c'

abbrev chainIn (s : State) : Chain := s.runtime.chainAt (call.runHash m) (call.operationHash m)

end PatchCall

variable {m : Machine} {call : PatchCall} {c₀ : State × ℕ} {good : Env → Prop} {s : State}
  {n : ℕ} {β : Type} {Q : Except Exn β → State × ℕ → Prop}

theorem journal_step {rh oh : Digest} {a : Act} (ha : a.journals) {env : Env} {v : a.Value}
    {s' : State} (h : a.perform m env s = .ok (v, s')) :
    Relation.ReflTransGen (PatchStep m rh oh) (s, n) (s', n) := by
  cases a with
  | makeJournal =>
    cases h
    exact .single (.journal _ Runtime.keepsIntents_makeJournal)
  | makeIntentRun =>
    cases h
    exact .single (.journal _ Runtime.keepsIntents_makeIntentRun)
  | stageIntent =>
    cases h
    exact .single (.journal _ Runtime.keepsIntents_stageIntent)
  | unstageIntent =>
    cases h
    exact .single (.journal _ Runtime.keepsIntents_unstageIntent)
  | linkIntent rh' oh' name intent =>
    simp only [Act.perform] at h
    split at h
    · cases h
      exact .refl
    next hfree =>
      cases h
      refine .single (.journal _ (Runtime.keepsIntents_linkIntent fun dir hdir => ?_))
      rw [hdir] at hfree
      simpa using hfree
  | _ => cases ha

theorem installs_calm {o : Op} (ho : o.calm) (env : Env) : installs env s o = false := by
  cases o with
  | ledger o => rfl
  | look l => rfl
  | act a =>
    cases a with
    | rename => rcases ho with ho | ho <;> cases ho
    | _ => rfl

theorem calm_step {rh oh : Digest} {o : Op} (ho : o.calm) (env : Env) :
    Relation.ReflTransGen (PatchStep m rh oh) (s, n) ((bridgeSemantics m).after env s o, n) := by
  cases o with
  | ledger o => cases ho
  | look l => exact .refl
  | act a =>
    rcases ho with ho | ho
    · rw [after_of_reads (o := .act a) ho]
    · rcases a.answer_cases m env s with ⟨e, h⟩ | ⟨v, s', hp, h | ⟨e, h⟩⟩ <;>
        simp only [Semantics.after, bridgeSemantics, h]
      · exact .refl
      · exact journal_step ho hp
      · exact journal_step ho hp

/-! ### Rules -/

theorem keeps_rename {temp target : String} {f : Unit → Routine β} {J : State × ℕ → Prop}
    (hs : J (s, n)) (herr : ∀ e, Q (.error e) (s, n))
    (hdone : ∀ stamp file, s.files.lookup temp = some file → ∀ t,
      t = { s with files := renamed s.files temp target file stamp } → J (t, n + 1) ∧
        (∀ e, Q (.error e) (t, n + 1)) ∧
        (f ()).Keeps (counted m installs) good J Q (t, n + 1)) :
    (act (.rename temp target) >>= f).Keeps (counted m installs) good J Q (s, n) := by
  intro env hg
  rcases hp : Act.perform m env s (.rename temp target) with e | ⟨v, t⟩
  · have ha : (Act.rename temp target).answer m env s = (.error e, s) := by
      simp only [Act.answer, hp]
    have hP : installs env s (.act (.rename temp target)) = false := by
      rcases hf : s.files.lookup temp with _ | file
      · simp [installs, hf]
      · rw [(Act.perform_rename (v := ())).mpr ⟨file, hf, rfl⟩] at hp
        cases hp
    rw [counted_after ha, counted_answer ha, hP]
    exact ⟨hs, herr e⟩
  · obtain ⟨file, hf, ht⟩ := Act.perform_rename.mp hp
    obtain ⟨hj, herr', hk⟩ := hdone env.stamp file hf t ht
    rcases he : env.fault with _ | _ | _
    · have ha : (Act.rename temp target).answer m env s = (.ok v, t) := by
        simp only [Act.answer, hp, he]
      rw [counted_after ha, counted_answer ha, installs, hf, he]
      exact ⟨hj, hk⟩
    · have ha : (Act.rename temp target).answer m env s = (.error ioError, s) := by
        simp only [Act.answer, hp, he]
      rw [counted_after ha, counted_answer ha, installs, hf, he]
      exact ⟨hs, herr _⟩
    · have ha : (Act.rename temp target).answer m env s = (.error ioError, t) := by
        simp only [Act.answer, hp, he]
      rw [counted_after ha, counted_answer ha, installs, hf, he]
      exact ⟨hj, herr' _⟩

section Walk

/-- Wherever the routine is cut off, and where it ends, the state has been reached from the
first by transitions. -/
abbrev Proceeds (m : Machine) (call : PatchCall) (c₀ : State × ℕ) (good : Env → Prop)
    (p : Routine β) (Q : Except Exn β → State × ℕ → Prop) (c : State × ℕ) : Prop :=
  p.Keeps (counted m installs) good (call.Reaches m c₀)
    (fun x c' => call.Reaches m c₀ c' ∧ Q x c') c

theorem proceeds_read {a : Act} {f : a.Value → Routine β} (ha : a.reads)
    (hs : call.Reaches m c₀ (s, n)) (herr : ∀ e, Q (.error e) (s, n))
    (hok : ∀ env v, a.perform m env s = .ok (v, s) → Proceeds m call c₀ good (f v) Q (s, n)) :
    Proceeds m call c₀ good (act a >>= f) Q (s, n) :=
  keeps_read storeQuiet_installs.reads ha hs (fun e => ⟨hs, herr e⟩) fun env v _ hp => hok env v hp

theorem proceeds_reads {α : Type} {p : Routine α} {f : α → Routine β} (hp : p.Reads)
    (hs : call.Reaches m c₀ (s, n)) (herr : ∀ e, Q (.error e) (s, n))
    (hok : ∀ v, Proceeds m call c₀ good (f v) Q (s, n)) :
    Proceeds m call c₀ good (p >>= f) Q (s, n) :=
  keeps_reads storeQuiet_installs.reads hp hs hok fun e => ⟨hs, herr e⟩

theorem proceeds_require {q : Prop} [Decidable q] {e : Exn} {f : Unit → Routine β}
    (hs : call.Reaches m c₀ (s, n)) (herr : ∀ e, Q (.error e) (s, n))
    (hok : q → Proceeds m call c₀ good (f ()) Q (s, n)) :
    Proceeds m call c₀ good (Routine.require q e >>= f) Q (s, n) :=
  keeps_require hok fun _ => ⟨hs, herr e⟩

theorem proceeds_act {a : Act} {f : a.Value → Routine β}
    (hP : ∀ env, installs env s (.act a) = false) (hs : call.Reaches m c₀ (s, n))
    (herr : ∀ e, Q (.error e) (s, n))
    (hok : ∀ env v s', a.perform m env s = .ok (v, s') → call.Reaches m c₀ (s', n) ∧
      (∀ e, Q (.error e) (s', n)) ∧ Proceeds m call c₀ good (f v) Q (s', n)) :
    Proceeds m call c₀ good (act a >>= f) Q (s, n) := by
  refine keeps_act hP hs (fun e => ⟨hs, herr e⟩) fun env v s' _ hp => ?_
  obtain ⟨hs', herr', hk⟩ := hok env v s' hp
  exact ⟨hs', fun e => ⟨hs', herr' e⟩, hk⟩

theorem reads_recheck {handle : Handle} {original : Bool} : (call.recheck handle original).Reads :=
  Prog.Issues.bind reads_scope fun _ => reads_act trivial

theorem reads_authorizedRecheck {handle : Handle} {original : Bool} :
    (call.authorizedRecheck handle original).Reads :=
  Prog.Issues.bind (reads_act trivial) fun _ => reads_recheck

theorem reads_base {intent : IntentRecord} : (call.base intent).Reads :=
  Prog.Issues.bind (reads_act trivial) fun _ => trivial

theorem proceeds_readTarget {f : Content → Routine β} (hs : call.Reaches m c₀ (s, n))
    (herr : ∀ e, Q (.error e) (s, n))
    (hok : ∀ file, s.files.lookup call.target = some file → file.capturable m.uid.toNat →
      Proceeds m call c₀ good (f (file.content m.digests)) Q (s, n)) :
    Proceeds m call c₀ good (call.readTarget >>= f) Q (s, n) := by
  unfold PatchCall.readTarget
  rw [Prog.bind_assoc]
  refine proceeds_reads reads_scope hs herr fun _ => ?_
  rw [Prog.bind_assoc]
  refine proceeds_read trivial hs herr fun env v hp => ?_
  obtain ⟨⟨file, hf, hc, rfl⟩, -⟩ := Act.perform_capture.mp hp
  exact hok file hf hc

theorem proceeds_openPatchTarget {f : Handle → Routine β} (hs : call.Reaches m c₀ (s, n))
    (herr : ∀ e, Q (.error e) (s, n))
    (hok : ∀ handle, handle.anchors = s.anchors call.target →
      Proceeds m call c₀ good (f handle) Q (s, n)) :
    Proceeds m call c₀ good (call.openPatchTarget >>= f) Q (s, n) := by
  unfold PatchCall.openPatchTarget
  rw [Prog.bind_assoc]
  refine proceeds_read trivial hs herr fun _ _ _ => ?_
  rw [Prog.bind_assoc]
  refine proceeds_reads reads_scope hs herr fun _ => ?_
  rw [Prog.bind_assoc]
  refine proceeds_read trivial hs herr fun env handle hp => ?_
  obtain ⟨⟨file, -, -, rfl⟩, -⟩ := Act.perform_openTarget.mp hp
  rw [Prog.bind_assoc]
  exact proceeds_reads reads_recheck hs herr fun _ => hok _ rfl

/-- An append under a warrant: it has failed, whether or not the record is stored, or it is. -/
theorem proceeds_append {record : ExecutionRecord} {authorize : Routine Unit}
    {f : Unit → Routine β} (hread : authorize.Reads)
    (hr : record.runHash m = call.runHash m) (ho : record.operationHash m = call.operationHash m)
    (hs : call.Reaches m c₀ (s, n)) (hw : Warranted m s record)
    (herr : ∀ e r, Appending m record s r → Q (.error e) ({ s with runtime := r }, n))
    (hok : ∀ r, Appending m record s r → call.Reaches m c₀ ({ s with runtime := r }, n) →
      (r.chainAt (call.runHash m) (call.operationHash m)).record record.phase = some record →
      Proceeds m call c₀ good (f ()) Q ({ s with runtime := r }, n)) :
    Proceeds m call c₀ good (PatchCall.append m record authorize >>= f) Q (s, n) := by
  have hJ : ∀ r, Appending m record s r → call.Reaches m c₀ ({ s with runtime := r }, n) := by
    intro r h
    cases h with
    | before h =>
      rw [hr, ho] at h
      exact hs.tail (.store h)
    | after ha h =>
      rw [hr, ho] at h
      exact hs.tail (.record hr ho ha hw h)
  unfold PatchCall.append
  rw [Prog.bind_assoc]
  refine Prog.Keeps.bind ((append_keeps storeQuiet_installs hJ hread).mono (fun _ h => h) ?_)
  rintro (e | reply) c ⟨r, rfl, h, hend⟩
  · exact ⟨hJ r h, herr e r h⟩
  · have hrecord := (hend reply rfl).recorded
    rw [State.chainFor, hr, ho] at hrecord
    obtain ⟨status, errorCode⟩ := reply
    cases status with
    | created => exact hok r h (hJ r h) (hrecord (.inl rfl))
    | existing => exact hok r h (hJ r h) (hrecord (.inr rfl))
    | _ => exact ⟨hJ r h, herr _ r h⟩

theorem proceeds_attempt {α : Type} {p : Routine α} {f : Except Exn α → Routine β} {c : State × ℕ}
    (h : Proceeds m call c₀ good p (fun x t => Proceeds m call c₀ good (f x) Q t) c) :
    Proceeds m call c₀ good (attempt p >>= f) Q c := by
  refine Prog.Keeps.bind (Prog.Keeps.catching (Prog.Keeps.bind (h.mono (fun _ h => h) ?_)))
  rintro (e | a) t ⟨-, ht⟩
  · exact ht
  · exact ht

theorem proceeds_base {intent : IntentRecord} {f : RecordBase → Routine β}
    (hs : call.Reaches m c₀ (s, n)) (herr : ∀ e, Q (.error e) (s, n))
    (hok : ∀ now, Proceeds m call c₀ good (f ⟨call.request, intent.fingerprint, now⟩) Q (s, n)) :
    Proceeds m call c₀ good (call.base intent >>= f) Q (s, n) := by
  unfold PatchCall.base
  rw [Prog.bind_assoc]
  exact proceeds_read trivial hs herr fun _ now _ => hok now

end Walk

/-! ### The routines -/

abbrev Simulated (m : Machine) (call : PatchCall) (c₀ : State × ℕ) (good : Env → Prop)
    (p : Routine β) (c : State × ℕ) : Prop := Proceeds m call c₀ good p (fun _ _ => True) c

variable {d : DispatchRecord} {p : PublicationRecord} {intent : IntentRecord} {handle : Handle}
  {metadata : Metadata} {replacement : Bytes} {owned : Option FileSignature}

theorem PatchCall.staging_eq (hreq : d.request = call.request) : call.staging d = d.staging := by
  rw [staging, target, DispatchRecord.staging, hreq]

theorem PatchCall.target_eq (hreq : d.request = call.request) : call.target = d.target := by
  rw [target, DispatchRecord.target, hreq]

theorem sameMaterial_iff {a b : Content} : sameMaterial a b = true ↔ a = b := by
  cases a
  cases b
  simp [sameMaterial, and_assoc]

theorem originalAt_of_read {file : Inode} (hreq : d.request = call.request)
    (hf : s.files.lookup call.target = some file) (hc : file.capturable m.uid.toNat)
    (hs : sameMaterial (file.content m.digests) d.original) : OriginalAt m s.files d := by
  exact ⟨file, call.target_eq hreq ▸ hf, hc, sameMaterial_iff.mp hs⟩

theorem simulated_settle {publication : Option PublicationRecord} {disposition : Disposition}
    {kind : BasisKind} {content : Content} {authorize : Routine Unit} (hread : authorize.Reads)
    (hs : call.Reaches m c₀ (s, n)) (hd : (call.chainIn m s).dispatch = some d)
    (hw : match disposition with
      | .applied => ∃ p, (call.chainIn m s).publication = some p ∧ InstalledAt m s.files d p
      | .notApplied => OriginalAt m s.files d) :
    Simulated m call c₀ good (call.settle m intent d publication disposition kind content authorize)
      (s, n) := by
  unfold PatchCall.settle
  refine proceeds_base hs (fun _ => trivial) fun now => ?_
  refine proceeds_append hread rfl rfl hs ⟨d, hd, ?_⟩ (fun _ _ _ => trivial)
    fun r _ hr _ => ⟨hr, trivial⟩
  cases disposition <;> exact hw

/-! ### Failure before a publication -/

theorem simulated_removeOwned {f : Unit → Routine β} (hs : call.Reaches m c₀ (s, n))
    (hd : (call.chainIn m s).dispatch = some d) (hne : owned.isSome → d.staging ≠ d.target)
    (hok : ∀ files, call.Reaches m c₀ ({ s with files := files }, n) →
      Simulated m call c₀ good (f ()) ({ s with files := files }, n)) :
    Simulated m call c₀ good (call.removeOwned handle d.staging owned >>= f) (s, n) := by
  unfold PatchCall.removeOwned
  rw [Prog.bind_assoc]
  refine proceeds_read trivial hs (fun _ => trivial) fun _ named _ => ?_
  cases named with
  | none => exact hok s.files hs
  | some named =>
    dsimp only
    rw [Prog.bind_assoc]
    refine proceeds_require hs (fun _ => trivial) fun howned => ?_
    have hne : d.staging ≠ d.target := by
      cases owned with
      | none => cases howned
      | some o => exact hne rfl
    rw [Prog.bind_assoc]
    refine proceeds_reads reads_authorizedRecheck hs (fun _ => trivial) fun _ => ?_
    rw [Prog.bind_assoc]
    refine proceeds_act (fun _ => rfl) hs (fun _ => trivial) fun env v s' hp => ?_
    obtain ⟨-, rfl⟩ := Act.perform_unlink.mp hp
    have hs' := hs.tail (.discard hd hne)
    exact ⟨hs', fun _ => trivial,
      proceeds_read trivial hs' (fun _ => trivial) fun _ _ _ => hok _ hs'⟩

theorem simulated_cleanUp (hs : call.Reaches m c₀ (s, n)) (hreq : d.request = call.request)
    (hd : (call.chainIn m s).dispatch = some d) (hne : owned.isSome → d.staging ≠ d.target) :
    Simulated m call c₀ good (call.cleanUp m handle intent d owned) (s, n) := by
  unfold PatchCall.cleanUp
  rw [call.staging_eq hreq]
  refine proceeds_reads reads_authorizedRecheck hs (fun _ => trivial) fun _ => ?_
  refine proceeds_read trivial hs (fun _ => trivial) fun _ v _ => ?_
  refine proceeds_require hs (fun _ => trivial) fun _ => ?_
  refine simulated_removeOwned hs hd hne fun files hs => ?_
  refine proceeds_read trivial hs (fun _ => trivial) fun _ left _ => ?_
  refine proceeds_require hs (fun _ => trivial) fun _ => ?_
  refine proceeds_readTarget hs (fun _ => trivial) fun file hf hc => ?_
  refine proceeds_require hs (fun _ => trivial) fun hsame => ?_
  exact simulated_settle reads_authorizedRecheck hs hd (originalAt_of_read hreq hf hc hsame)

theorem simulated_failed (hs : call.Reaches m c₀ (s, n)) (hreq : d.request = call.request)
    (hd : (call.chainIn m s).dispatch = some d) (hne : owned.isSome → d.staging ≠ d.target) :
    Simulated m call c₀ good (call.failed m handle intent d owned) (s, n) := by
  unfold PatchCall.failed
  have hclean : ∀ chain : Chain, Simulated m call c₀ good (if chain.publication.isSome then
      pure PatchCall.reconciliationRequired else (call.cleanUp m handle intent d owned).catching
        fun _ => .ret PatchCall.reconciliationRequired) (s, n) := by
    intro chain
    split
    · exact ⟨hs, trivial⟩
    · refine Prog.Keeps.catching ((simulated_cleanUp hs hreq hd hne).mono (fun _ h => h) ?_)
      rintro (e | reply) t ⟨ht, -⟩
      · exact ⟨ht, trivial⟩
      · exact ⟨ht, trivial⟩
  refine keeps_look storeQuiet_installs.reads hs ?_ ⟨hs, trivial⟩
  split
  · exact hclean _
  · exact ⟨hs, trivial⟩

/-! ### Application -/

theorem fill_step (file : Inode) {files : Files}
    (hs : call.Reaches m c₀ ({ s with files := files }, n))
    (hd : call.chainIn m s = { dispatch := d }) (hne : d.staging ≠ d.target) :
    call.Reaches m c₀ ({ s with files := files.put d.staging file }, n) := by
  have hd' : s.runtime.chainAt (call.runHash m) (call.operationHash m) = { dispatch := d } := hd
  exact hs.tail (.fill (s := { s with files := files }) (by rw [hd']) (by rw [hd']) hne)

theorem proceeds_writeAll {fuel : ℕ} {bytes : Bytes} {files : Files} {f : Unit → Routine β}
    (hs : call.Reaches m c₀ ({ s with files := files }, n))
    (hd : call.chainIn m s = { dispatch := d }) (hne : d.staging ≠ d.target)
    (herr : ∀ e files, Q (.error e) ({ s with files := files }, n))
    (hok : ∀ files, call.Reaches m c₀ ({ s with files := files }, n) →
      Proceeds m call c₀ good (f ()) Q ({ s with files := files }, n)) :
    Proceeds m call c₀ good (PatchCall.writeAll d.staging fuel bytes >>= f) Q
      ({ s with files := files }, n) := by
  induction fuel generalizing bytes files with
  | zero => exact hok files hs
  | succ fuel ih =>
    unfold PatchCall.writeAll
    split
    · exact hok files hs
    · rw [Prog.bind_assoc]
      refine proceeds_act (fun _ => rfl) hs (fun e => herr e files) fun env v s' hp => ?_
      obtain ⟨file, rfl⟩ := Act.perform_write hp
      have hs' := fill_step file hs hd hne
      exact ⟨hs', fun e => herr e _, ih hs'⟩

/-- What staging the replacement ends in. -/
def Published (m : Machine) (call : PatchCall) (d : DispatchRecord) (n : ℕ)
    (x : Except Exn PublicationRecord) (c : State × ℕ) : Prop :=
  ∃ s, c = (s, n) ∧ (call.chainIn m s).dispatch = some d ∧
    ∀ p, x = .ok p → call.chainIn m s = { dispatch := d, publication := p }

theorem published_error {e : Exn} (hd : (call.chainIn m s).dispatch = some d) :
    Published m call d n (.error e) (s, n) := by
  refine ⟨s, rfl, hd, ?_⟩
  rintro p ⟨⟩

theorem proceeds_publish (hp : p.request = call.request) (hs : call.Reaches m c₀ (s, n))
    (hd : call.chainIn m s = { dispatch := d }) (hw : StagedAt m s.files d p) :
    Proceeds m call c₀ good
      (PatchCall.append m (.publication p) (call.authorizedRecheck handle true)
      >>= fun _ => .ret p) (Published m call d n) (s, n) := by
  have hr : (ExecutionRecord.publication p).runHash m = call.runHash m := by
    rw [PatchCall.runHash, ← hp]
    rfl
  have ho : (ExecutionRecord.publication p).operationHash m = call.operationHash m := by
    rw [PatchCall.operationHash, ← hp]
    rfl
  have hchain : s.chainFor m (.publication p) = { dispatch := d } := by
    rw [State.chainFor, hr, ho]
    exact hd
  refine proceeds_append reads_authorizedRecheck hr ho hs ⟨d, by rw [hchain], hw⟩ ?_ ?_
  · intro e r h
    refine published_error ?_
    rw [PatchCall.chainIn, ← hr, ← ho]
    cases h with
    | before h =>
      rw [h.chain]
      exact congrArg Chain.dispatch hchain
    | after _ h =>
      rw [h.chain]
      exact congrArg Chain.dispatch hchain
  · intro r h hreached hrecord
    have hdone : r.chainAt (call.runHash m) (call.operationHash m) =
        { dispatch := d, publication := p } := by
      rw [← hr, ← ho] at hrecord ⊢
      cases h with
      | before h =>
        rw [h.chain, id, show s.runtime.chainAt _ _ = _ from hchain] at hrecord
        cases hrecord
      | after _ h =>
        rw [h.chain, show s.runtime.chainAt _ _ = _ from hchain]
        rfl
    refine ⟨hreached, _, rfl, congrArg Chain.dispatch hdone, ?_⟩
    rintro p ⟨⟩
    exact hdone

theorem proceeds_stageReplacement {files : Files} (hreq : d.request = call.request)
    (hs : call.Reaches m c₀ ({ s with files := files }, n))
    (hd : call.chainIn m s = { dispatch := d }) (hne : d.staging ≠ d.target) :
    Proceeds m call c₀ good (call.stageReplacement m handle replacement intent d metadata)
      (Published m call d n) ({ s with files := files }, n) := by
  have herr : ∀ e files, Published m call d n (.error e) ({ s with files := files }, n) :=
    fun e files => published_error (congrArg Chain.dispatch hd)
  unfold PatchCall.stageReplacement
  rw [call.staging_eq hreq]
  refine proceeds_writeAll hs hd hne herr fun files hs => ?_
  refine proceeds_act (fun _ => rfl) hs (fun e => herr e _) fun env v s' hp => ?_
  obtain ⟨file, rfl⟩ := Act.perform_copyMetadata hp
  have hs := fill_step file hs hd hne
  refine ⟨hs, fun e => herr e _, ?_⟩
  refine proceeds_read trivial hs (fun e => herr e _) fun env v hp => ?_
  obtain ⟨⟨file', hf, hc, rfl⟩, -⟩ := Act.perform_capture.mp hp
  refine proceeds_require hs (fun e => herr e _) fun _ => ?_
  refine proceeds_read trivial hs (fun e => herr e _) fun _ _ _ => ?_
  refine proceeds_base hs (fun e => herr e _) fun now => ?_
  exact proceeds_publish rfl hs hd ⟨file', hf, hc, rfl⟩

theorem simulated_install (hs : call.Reaches m c₀ (s, n)) (hreq : d.request = call.request)
    (hd : call.chainIn m s = { dispatch := d, publication := p }) (hne : d.staging ≠ d.target) :
    Simulated m call c₀ good (call.install m handle intent d p) (s, n) := by
  unfold PatchCall.install
  rw [call.staging_eq hreq]
  refine proceeds_reads reads_authorizedRecheck hs (fun _ => trivial) fun _ => ?_
  refine proceeds_read trivial hs (fun _ => trivial) fun env v hp => ?_
  obtain ⟨⟨file, hf, hc, rfl⟩, -⟩ := Act.perform_capture.mp hp
  refine proceeds_read trivial hs (fun _ => trivial) fun env v hp => ?_
  obtain ⟨⟨file', hf', hc', rfl⟩, -⟩ := Act.perform_capture.mp hp
  refine proceeds_read trivial hs (fun _ => trivial) fun env named _ => ?_
  refine proceeds_require hs (fun _ => trivial) fun ⟨hcurrent, hchecked, _⟩ => ?_
  have ho := originalAt_of_read hreq hf hc hcurrent
  refine keeps_rename hs (fun _ => ⟨hs, trivial⟩) ?_
  rintro stamp file'' hf'' t rfl
  cases hf'.symm.trans hf''
  rw [call.target_eq hreq]
  have hchain : s.runtime.chainAt (call.runHash m) (call.operationHash m) =
    { dispatch := d, publication := p } := hd
  have hs' : call.Reaches m c₀
      ({ s with files := renamed s.files d.staging d.target file' stamp }, n + 1) :=
    hs.tail (.install (by rw [hchain]) (by rw [hchain]) (by rw [hchain]) ho hf' hc'
      (sameMaterial_iff.mp hchecked) hne)
  refine ⟨hs', fun _ => ⟨hs', trivial⟩, ?_⟩
  refine proceeds_read trivial hs' (fun _ => trivial) fun _ _ _ => ?_
  refine proceeds_reads reads_authorizedRecheck hs' (fun _ => trivial) fun _ => ?_
  refine proceeds_readTarget hs' (fun _ => trivial) fun file hf hc => ?_
  refine proceeds_read trivial hs' (fun _ => trivial) fun _ left _ => ?_
  refine proceeds_require hs' (fun _ => trivial) fun ⟨hsame, _⟩ => ?_
  refine simulated_settle reads_authorizedRecheck hs' (congrArg Chain.dispatch hd) ⟨p, ?_, file, ?_⟩
  · exact congrArg Chain.publication hd
  · exact ⟨call.target_eq hreq ▸ hf, hc, hsame⟩

theorem simulated_applyDispatched {file : Inode} (hs : call.Reaches m c₀ (s, n))
    (hreq : d.request = call.request) (hd : call.chainIn m s = { dispatch := d })
    (ht : s.files.lookup d.target = some file) :
    Simulated m call c₀ good (call.applyDispatched m handle replacement intent d metadata)
      (s, n) := by
  have hdispatch : (call.chainIn m s).dispatch = some d := by rw [hd]
  unfold PatchCall.applyDispatched
  refine proceeds_attempt ?_
  rw [call.staging_eq hreq, ← Prog.bind_ret (act _)]
  have failed : ∀ {s}, call.Reaches m c₀ (s, n) → (call.chainIn m s).dispatch = some d →
      Simulated m call c₀ good (call.failed m handle intent d none) (s, n) := fun hs hd =>
    simulated_failed hs hreq hd fun h => by cases h
  refine proceeds_act (fun _ => rfl) hs (fun _ => failed hs hdispatch) fun env v s' hp => ?_
  obtain ⟨hn, file', -, rfl⟩ := Act.perform_createFile hp
  have hne : d.staging ≠ d.target := by
    intro he
    rw [he, ht] at hn
    cases hn
  have hs' := fill_step file' hs hd hne
  refine ⟨hs', fun _ => failed hs' hdispatch, hs', proceeds_attempt ?_⟩
  refine (proceeds_stageReplacement hreq hs' hd hne).mono (fun _ h => h) ?_
  rintro (e | p) c ⟨hc, t, rfl, hdispatch, hpublished⟩
  · exact ⟨hc, simulated_failed hc hreq hdispatch fun _ => hne⟩
  · refine ⟨hc, Prog.Keeps.catching ((simulated_install hc hreq (hpublished p rfl) hne).mono
      (fun _ h => h) ?_)⟩
    rintro (e | reply) t ⟨ht, -⟩
    · exact ⟨ht, trivial⟩
    · exact ⟨ht, trivial⟩

theorem proceeds_dispatch {f : Unit → Routine β} (hreq : d.request = call.request)
    (hs : call.Reaches m c₀ (s, n)) (hnew : call.chainIn m s = {})
    (hw : OriginalAt m s.files d ∧ d.anchors = s.anchors d.target)
    (hok : ∀ r, call.Reaches m c₀ ({ s with runtime := r }, n) →
      r.chainAt (call.runHash m) (call.operationHash m) = { dispatch := d } →
      Simulated m call c₀ good (f ()) ({ s with runtime := r }, n)) :
    Simulated m call c₀ good
      (PatchCall.append m (.dispatch d) (call.authorizedRecheck handle true) >>= f) (s, n) := by
  have hr : (ExecutionRecord.dispatch d).runHash m = call.runHash m := by
    rw [PatchCall.runHash, ← hreq]
    rfl
  have ho : (ExecutionRecord.dispatch d).operationHash m = call.operationHash m := by
    rw [PatchCall.operationHash, ← hreq]
    rfl
  refine proceeds_append reads_authorizedRecheck hr ho hs hw (fun _ _ _ => trivial) ?_
  intro r h hreached hrecord
  refine hok r hreached ?_
  have hchain : s.runtime.chainAt (call.runHash m) (call.operationHash m) = {} := hnew
  rw [← hr, ← ho] at hrecord hchain ⊢
  cases h with
  | before h =>
    rw [h.chain, id, hchain] at hrecord
    cases hrecord
  | after _ h =>
    rw [h.chain, hchain]
    rfl

theorem simulated_applyNew {replacement : FilePatchReplacement} (hs : call.Reaches m c₀ (s, n))
    (hnew : call.chainIn m s = {}) :
    Simulated m call c₀ good (call.applyNew m replacement intent) (s, n) := by
  unfold PatchCall.applyNew
  refine proceeds_openPatchTarget hs (fun _ => trivial) fun handle hanchors => ?_
  refine proceeds_read trivial hs (fun _ => trivial) fun env v hp => ?_
  obtain ⟨⟨file, hf, hc, rfl⟩, -⟩ := Act.perform_capture.mp hp
  dsimp only
  split
  · exact ⟨hs, trivial⟩
  refine proceeds_read trivial hs (fun _ => trivial) fun env token _ => ?_
  refine proceeds_base hs (fun _ => trivial) fun now => ?_
  refine proceeds_dispatch rfl hs hnew ⟨⟨file, hf, hc, rfl⟩, hanchors⟩ fun r hr hd => ?_
  exact simulated_applyDispatched hr rfl hd hf

theorem reads_historicalResult {chain : Chain} : (call.historicalResult chain).Reads := by
  refine Prog.Issues.bind (reads_acknowledgeExisting (reads_act trivial)) fun renewed =>
    Prog.Issues.bind ?_ fun _ => trivial
  cases renewed.result <;> trivial

theorem simulated_reads {p : Routine β} (hp : p.Reads) (hs : call.Reaches m c₀ (s, n)) :
    Simulated m call c₀ good p (s, n) := by
  rw [← Prog.bind_ret p]
  exact proceeds_reads hp hs (fun _ => trivial) fun _ => ⟨hs, trivial⟩

theorem proceeds_demand {α : Type} {o : Option α} {e : Exn} {f : α → Routine β}
    (hs : call.Reaches m c₀ (s, n))
    (hok : ∀ a, o = some a → Simulated m call c₀ good (f a) (s, n)) :
    Simulated m call c₀ good (demand o e >>= f) (s, n) := by
  cases o with
  | none => exact ⟨hs, trivial⟩
  | some a => exact hok a rfl

theorem simulated_applyPrepared {replacement : FilePatchReplacement}
    (hs : call.Reaches m c₀ (s, n)) :
    Simulated m call c₀ good (call.applyPrepared m replacement intent) (s, n) := by
  unfold PatchCall.applyPrepared
  refine keeps_look storeQuiet_installs.reads hs ?_ ⟨hs, trivial⟩
  split
  · exact ⟨hs, trivial⟩
  · refine proceeds_demand hs fun d _ => ?_
    split
    · exact ⟨hs, trivial⟩
    split
    · exact simulated_reads reads_historicalResult hs
    · exact ⟨hs, trivial⟩
  next habsent =>
    refine simulated_applyNew hs ?_
    exact Runtime.chainAt_of_findOp_none (Runtime.inspect_eq_absent habsent)

theorem reads_validate : call.validate.Reads :=
  Prog.Issues.bind (reads_require _) fun _ => reads_act trivial

theorem proceeds_calm {α : Type} {p : Routine α} {f : α → Routine β} (hp : p.Issues Op.calm)
    (hs : call.Reaches m c₀ (s, n))
    (hok : ∀ a t, call.Reaches m c₀ (t, n) → Simulated m call c₀ good (f a) (t, n)) :
    Simulated m call c₀ good (p >>= f) (s, n) := by
  refine Prog.Keeps.bind ((Prog.Keeps.of_within (J := fun c => call.Reaches m c₀ c ∧ c.2 = n)
    (fun t o i ht ho _ => ?_) hp ⟨hs, rfl⟩).mono (fun _ h => h.1) ?_)
  · rw [counting_after, installs_calm ho]
    exact ⟨ht.1.trans (calm_step ho i), ht.2⟩
  · rintro (e | a) ⟨t, k⟩ ⟨-, ht, hk⟩
    · exact ⟨ht, trivial⟩
    · cases hk
      exact hok a t ht

theorem simulated_applyLocked {replacement : FilePatchReplacement}
    (hs : call.Reaches m c₀ (s, n)) :
    Simulated m call c₀ good (call.applyLocked m replacement) (s, n) := by
  unfold PatchCall.applyLocked
  refine proceeds_reads (reads_succeeds reads_validate) hs (fun _ => trivial) fun valid => ?_
  split
  · exact ⟨hs, trivial⟩
  refine proceeds_calm calm_prepare hs fun reply t ht => ?_
  split
  · exact simulated_applyPrepared ht
  · exact simulated_applyPrepared ht
  · exact ⟨ht, trivial⟩
  · exact ⟨ht, trivial⟩
  · exact ⟨ht, trivial⟩

theorem simulated_apply {replacement : FilePatchReplacement} (hs : call.Reaches m c₀ (s, n)) :
    Simulated m call c₀ good (call.apply m replacement) (s, n) := by
  unfold PatchCall.apply
  refine proceeds_attempt ((simulated_applyLocked hs).mono (fun _ h => h) ?_)
  rintro (e | reply) ⟨t, k⟩ ⟨ht, -⟩
  · refine ⟨ht, keeps_look storeQuiet_installs.reads ht ?_ ?_⟩
    · split <;> exact ⟨ht, trivial⟩
    · split <;> exact ⟨ht, trivial⟩
  · exact ⟨ht, ht, trivial⟩

/-! ### Reconciliation -/

theorem simulated_settleApplied {named : Option FileSignature} (hs : call.Reaches m c₀ (s, n))
    (hreq : d.request = call.request) (hd : (call.chainIn m s).dispatch = some d)
    (hp : (call.chainIn m s).publication = some p) :
    Simulated m call c₀ good (call.settleApplied m handle intent d p named) (s, n) := by
  unfold PatchCall.settleApplied
  refine proceeds_require hs (fun _ => trivial) fun _ => ?_
  refine proceeds_reads reads_authorizedRecheck hs (fun _ => trivial) fun _ => ?_
  refine proceeds_read trivial hs (fun _ => trivial) fun _ _ _ => ?_
  refine proceeds_readTarget hs (fun _ => trivial) fun file hf hc => ?_
  refine proceeds_require hs (fun _ => trivial) fun hsame => ?_
  refine simulated_settle reads_authorizedRecheck hs hd ⟨p, hp, file, ?_⟩
  exact ⟨call.target_eq hreq ▸ hf, hc, hsame⟩

theorem simulated_settleOriginal {publication : Option PublicationRecord} {kind : BasisKind}
    (hs : call.Reaches m c₀ (s, n)) (hreq : d.request = call.request)
    (hd : (call.chainIn m s).dispatch = some d) :
    Simulated m call c₀ good (call.settleOriginal m handle intent d publication kind) (s, n) := by
  unfold PatchCall.settleOriginal
  refine proceeds_reads reads_authorizedRecheck hs (fun _ => trivial) fun _ => ?_
  refine proceeds_read trivial hs (fun _ => trivial) fun _ _ _ => ?_
  refine proceeds_require hs (fun _ => trivial) fun _ => ?_
  refine proceeds_readTarget hs (fun _ => trivial) fun file hf hc => ?_
  refine proceeds_require hs (fun _ => trivial) fun hsame => ?_
  exact simulated_settle reads_authorizedRecheck hs hd (originalAt_of_read hreq hf hc hsame)

theorem ino_of_sameStable {a b : Content} (h : sameStableMaterial a b) :
    a.identity.ino = b.identity.ino := by
  simp only [sameStableMaterial, Bool.and_eq_true, decide_eq_true_eq] at h
  have hi := congrArg FileSignature.ino h.1.1.1
  exact hi

theorem simulated_discardStaged {named : Option FileSignature} {f : Unit → Routine β}
    (hs : call.Reaches m c₀ (s, n)) (hreq : d.request = call.request)
    (hd : (call.chainIn m s).dispatch = some d) (ho : OriginalAt m s.files d)
    (hi : p.staged.identity.ino ≠ d.original.identity.ino)
    (hok : ∀ files, call.Reaches m c₀ ({ s with files := files }, n) →
      Simulated m call c₀ good (f ()) ({ s with files := files }, n)) :
    Simulated m call c₀ good (call.discardStaged handle (call.staging d) p named >>= f) (s, n) := by
  unfold PatchCall.discardStaged
  rw [call.staging_eq hreq, Prog.bind_assoc]
  refine proceeds_demand hs fun named _ => ?_
  rw [Prog.bind_assoc]
  refine proceeds_read trivial hs (fun _ => trivial) fun env v hp => ?_
  obtain ⟨⟨file, hf, hc, rfl⟩, -⟩ := Act.perform_capture.mp hp
  dsimp only
  rw [Prog.bind_assoc]
  refine proceeds_require hs (fun _ => trivial) fun ⟨hsame, _, _⟩ => ?_
  -- the staging file has the inode of the publication, the target that of the original
  have hne : d.staging ≠ d.target := by
    obtain ⟨file', hf', -, hc'⟩ := ho
    intro he
    rw [he, hf'] at hf
    cases hf
    rw [hc'] at hsame
    exact hi (ino_of_sameStable hsame).symm
  rw [Prog.bind_assoc]
  refine proceeds_reads reads_authorizedRecheck hs (fun _ => trivial) fun _ => ?_
  rw [Prog.bind_assoc]
  refine proceeds_read trivial hs (fun _ => trivial) fun _ _ _ => ?_
  rw [Prog.bind_assoc]
  refine proceeds_require hs (fun _ => trivial) fun _ => ?_
  rw [Prog.bind_assoc]
  refine proceeds_act (fun _ => rfl) hs (fun _ => trivial) fun env v s' hp => ?_
  obtain ⟨-, rfl⟩ := Act.perform_unlink.mp hp
  have hs' := hs.tail (.discard hd hne)
  exact ⟨hs', fun _ => trivial, proceeds_read trivial hs' (fun _ => trivial) fun _ _ _ => hok _ hs'⟩

theorem simulated_reconcileDispatched {publication : Option PublicationRecord}
    (hs : call.Reaches m c₀ (s, n)) (hreq : d.request = call.request)
    (hd : (call.chainIn m s).dispatch = some d)
    (hp : (call.chainIn m s).publication = publication)
    (hi : ∀ p, publication = some p → p.staged.identity.ino ≠ d.original.identity.ino) :
    Simulated m call c₀ good (call.reconcileDispatched m intent d publication) (s, n) := by
  unfold PatchCall.reconcileDispatched
  refine proceeds_openPatchTarget hs (fun _ => trivial) fun handle _ => ?_
  refine proceeds_require hs (fun _ => trivial) fun _ => ?_
  refine proceeds_read trivial hs (fun _ => trivial) fun env v hp => ?_
  obtain ⟨⟨file, hf, hc, rfl⟩, -⟩ := Act.perform_capture.mp hp
  refine proceeds_read trivial hs (fun _ => trivial) fun env named _ => ?_
  cases publication with
  | some p =>
    dsimp only
    split
    · exact simulated_settleApplied hs hreq hd hp
    · refine proceeds_require hs (fun _ => trivial) fun hsame => ?_
      refine simulated_discardStaged hs hreq hd (originalAt_of_read hreq hf hc hsame) (hi p rfl) ?_
      exact fun files hs => simulated_settleOriginal hs hreq hd
  | none =>
    refine proceeds_require hs (fun _ => trivial) fun _ => ?_
    refine proceeds_require hs (fun _ => trivial) fun _ => ?_
    exact simulated_settleOriginal hs hreq hd

theorem ino_of_inspect {runId : RunId} {operationId : String} {chain : Chain}
    (h : s.runtime.inspect m.digests m.uid.toNat runId operationId = .recorded chain)
    (hd : chain.dispatch = some d) (hp : chain.publication = some p) :
    p.staged.identity.ino ≠ d.original.identity.ino := by
  obtain ⟨-, dir, -, rfl, hread⟩ := Runtime.inspect_eq_recorded_iff.mp h
  obtain ⟨-, -, _, intent, -, -, -, -, hvalid⟩ := Runtime.readOperation_eq_some_iff.mp hread
  simp only [Chain.valid, hd, hp, Option.all_some, Chain.publicationMatches, Bool.and_eq_true,
    decide_eq_true_eq] at hvalid
  tauto

theorem simulated_reconcileLocked (hs : call.Reaches m c₀ (s, n)) :
    Simulated m call c₀ good (call.reconcileLocked m) (s, n) := by
  unfold PatchCall.reconcileLocked PatchCall.validate
  rw [Prog.bind_assoc]
  refine proceeds_require hs (fun _ => trivial) fun ⟨_, hbinding⟩ => ?_
  rw [← hbinding]
  refine proceeds_read trivial hs (fun _ => trivial) fun _ _ _ => ?_
  refine keeps_look storeQuiet_installs.reads hs ?_ ⟨hs, trivial⟩
  split
  next chain hfound =>
    have hchain : call.chainIn m s = chain := by
      obtain ⟨-, dir, hdir, rfl, -⟩ := Runtime.inspect_eq_recorded_iff.mp hfound
      exact Runtime.chainAt_of_findOp hdir
    refine proceeds_demand hs fun d hd => ?_
    split
    · exact ⟨hs, trivial⟩
    next hreq =>
      split
      · exact simulated_reads reads_historicalResult hs
      · refine keeps_look storeQuiet_installs.reads hs ?_ ⟨hs, trivial⟩
        split
        · refine simulated_reconcileDispatched hs (not_not.mp hreq) ?_ ?_ fun p hp => ?_
          · rw [hchain, hd]
          · rw [hchain]
          · exact ino_of_inspect hfound hd hp
        · exact ⟨hs, trivial⟩
  · exact ⟨hs, trivial⟩

theorem simulated_reconcile (hs : call.Reaches m c₀ (s, n)) :
    Simulated m call c₀ good (call.reconcile m) (s, n) := by
  unfold PatchCall.reconcile
  refine Prog.Keeps.catching ((simulated_reconcileLocked hs).mono (fun _ h => h) ?_)
  rintro (e | reply) t ⟨ht, -⟩
  · exact ⟨ht, trivial⟩
  · exact ⟨ht, trivial⟩

end OrchKit.Bridge
