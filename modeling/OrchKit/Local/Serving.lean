import OrchKit.Local.Wire

/-! # What the service keeps

Every turn of the loop, every connection that comes and every frame that is read and answered
leaves the service sound, so it is so after any run.
-/

namespace OrchKit.Local

open Bridge Json Framing

variable {svc : Service} {t : Transport svc.limits} {c : ℕ} {p : Peer svc.limits}

theorem refusal_fails {code : String} {request : Option (Asked svc.limits)}
    {route : Option Route} : ¬ succeeded (refusal svc code request route) := by
  simp [succeeded, refusal, object, field, Value.get, Value.text?, text]

theorem processRefusal_fails {code : String} {route : Route}
    {asked : Option (Asked svc.limits)} :
    ¬ succeeded (processRefusal svc route code asked) := by
  simp [succeeded, processRefusal, object, field, Value.get, Value.text?, text]

theorem refusalFor_fails {code : String} {request : Option (Asked svc.limits)}
    {route : Option Route} : ¬ succeeded (Transport.refusalFor code request route) := by
  unfold Transport.refusalFor
  split
  · exact processRefusal_fails
  · exact refusal_fails

namespace Sound

/-! ### Responses -/

/-- Nothing of a response has been sent to the peer of the connection, if it has one. -/
def Ready (t : Transport svc.limits) (c : ℕ) : Prop :=
  (t.peers.lookup c).isSome → Frames (frame svc) (pieces c t.outputs)

theorem refuse (h : Sound (some c) t) (hready : Ready t c) {code : String}
    {request : Option (Asked svc.limits)} {budget : Option ℕ} {preserve : Bool} {a : Queueing} :
    Sound none (t.refuse c code request budget preserve a) := by
  rw [Transport.refuse]
  cases hc : t.peers.lookup c with
  | none => exact h.forget hc
  | some p =>
    exact h.queue hc (hready (by rw [hc]; rfl)) fun _ => ⟨refusalFor_fails, rfl⟩

theorem pieces_retire {r : ℕ} : pieces c (t.retire r).outputs = pieces c t.outputs := by
  rw [Transport.retire]
  split
  · rfl
  · split
    · rfl
    · exact pieces_retired

/-- The authority has failed for a peer that has been sent nothing of its response, or is closed. -/
theorem authorityDenied (h : Sound (some c) t)
    (hready : ∀ p, t.peers.lookup c = some p → p.sent = 0 →
      Frames (frame svc) (pieces c t.outputs)) {a : Queueing} :
    Sound none (t.authorityDenied c a) := by
  rw [Transport.authorityDenied]
  cases hc : t.peers.lookup c with
  | none => exact h.forget hc
  | some p =>
    have denied {t' : Transport svc.limits} (h' : Sound (some c) t')
        (hpieces : pieces c t'.outputs = pieces c t.outputs) :
        Sound none (if p.sent ≠ 0 then t'.closePeer c else t'.refuse c
          "local_bridge_authority_denied" p.request p.budget p.output.isSome a) := by
      split
      · exact h'.closePeer
      next hsent =>
        refine h'.refuse fun _ => ?_
        rw [hpieces]
        exact hready p hc (not_not.mp hsent)
    simp only
    cases hr : p.route with
    | none => exact denied h rfl
    | some r => exact denied (h.retire hc hr) pieces_retire

theorem not_denied (h : Sound none t) (hc : t.peers.lookup c = some p) (hout : p.output = none) :
    ¬ Denied t c p.route := by
  intro hdenied
  obtain ⟨v, hv, -⟩ := h.refusing c p hc (by simp) hdenied
  rw [hout] at hv
  cases hv

theorem passed (h : Sound none t) : Sound none (t.log (.checked c true)) :=
  h.log (fun _ _ _ _ => nofun) (fun _ => nofun) (fun _ => nofun)

theorem respond (h : Sound none t) (hc : t.peers.lookup c = some p) (hout : p.output = none)
    {make : Checked Value} {limit budget : Option ℕ} {a : Dispatching} :
    Sound none (t.respond c make limit budget a) := by
  have hframes : Frames (frame svc) (pieces c t.outputs) := h.frames hc (h.idle c p hc hout)
  have denied {t' : Transport svc.limits} (h' : Sound (some c) t')
      (hpieces : pieces c t'.outputs = pieces c t.outputs) :
      Sound none (t'.authorityDenied c a.queueing) :=
    h'.authorityDenied fun _ _ _ => hpieces ▸ hframes
  unfold Transport.respond
  simp only
  cases hfirst : a.first with
  | false => exact denied (h.mono.check hc false) pieces_checked
  | true =>
    simp only [not_true_eq_false, if_false]
    cases make with
    | error e =>
      exact denied ((h.mono.check hc true).check hc false)
        (pieces_checked.trans pieces_checked)
    | ok v =>
      simp only
      split
      · exact (h.mono.check hc true).closePeer
      · cases hsecond : a.second with
        | false =>
          exact denied ((h.mono.check hc true).check hc false)
            (pieces_checked.trans pieces_checked)
        | true =>
          simp only [not_true_eq_false, if_false]
          refine ((h.mono.check hc true).check hc true).queue hc ?_ fun hdenied => ?_
          · change Frames _ (pieces c ((t.outputs ++ [_]) ++ [_]))
            rwa [pieces_checked, pieces_checked]
          · exact absurd ((hdenied.of_log nofun).of_log nofun) (h.not_denied hc hout)

/-! ### Requests -/

/-- A peer without a route reserves one that is free. -/
theorem reserve (h : Sound none t) (hc : t.peers.lookup c = some p) (hout : p.output = none)
    (hnone : p.route = none) {r : ℕ} {route : Route} (hr : t.routes[r]? = some route)
    (hlive : ¬ route.retired) (hfree : route.peer = none) (request : Option (Asked svc.limits)) :
    Sound none { t.modifyPeer c (fun p => { p with route := some r, request := request }) with
      routes := t.routes.modify r fun route => { route with peer := some c } } := by
  have hroutes : ∀ j, (t.routes.modify r fun route => { route with peer := some c })[j]? =
      (fun rt => if r = j then { rt with peer := some c } else rt) <$> t.routes[j]? :=
    fun j => List.getElem?_modify _ _ _ _
  constructor
  case few =>
    change (t.modifyPeer c _).peers.keys.length ≤ _
    rw [keys_modifyPeer]
    exact h.few
  case known =>
    intro c' p' hp'
    rcases lookup_modifyPeer hc hp' with ⟨rfl, -⟩ | ⟨-, hp'⟩
    · exact h.known c' p hc
    · exact h.known c' p' hp'
  case unheard => exact h.unheard
  case ofPeer =>
    intro c' p' j hp' hj
    rcases lookup_modifyPeer hc hp' with ⟨rfl, rfl⟩ | ⟨-, hp'⟩
    · cases hj
      refine ⟨_, (hroutes r).trans (congrArg _ hr), ?_⟩
      simp only [if_true]
    · obtain ⟨rt, hrt, hpeer⟩ := h.ofPeer c' p' j hp' hj
      refine ⟨_, (hroutes j).trans (congrArg _ hrt), ?_⟩
      have hne : r ≠ j := by
        rintro rfl
        rw [hr] at hrt
        cases hrt
        rw [hfree] at hpeer
        cases hpeer
      simp only [if_neg hne]
      exact hpeer
  case ofRoute =>
    intro j rt c' hrt hpeer
    obtain ⟨rt, hold, rfl⟩ := Option.map_eq_some_iff.mp ((hroutes j).symm.trans hrt)
    split at hpeer
    next hrj =>
      cases hpeer
      exact ⟨_, lookup_modifyPeer_self hc, congrArg some hrj⟩
    next =>
      obtain ⟨p', hp', hj⟩ := h.ofRoute j rt c' hold hpeer
      have hne : c' ≠ c := by
        rintro rfl
        rw [hc] at hp'
        cases hp'
        rw [hnone] at hj
        cases hj
      refine ⟨p', ?_, hj⟩
      change (t.peers.modify c _).lookup c' = some p'
      rw [Table.lookup_modify, if_neg hne]
      exact hp'
  case idle =>
    intro c' p' hp'
    rcases lookup_modifyPeer hc hp' with ⟨-, rfl⟩ | ⟨-, hp'⟩
    · exact h.idle c p hc
    · exact h.idle c' p' hp'
  case fits =>
    intro c' p' v hp'
    rcases lookup_modifyPeer hc hp' with ⟨-, rfl⟩ | ⟨-, hp'⟩
    · exact h.fits c p v hc
    · exact h.fits c' p' v hp'
  case refusing =>
    intro c' p' hp' _ hdenied
    -- a route is as live as before
    have hretired : ∀ (j : ℕ) (rt : Route),
        (t.routes.modify r fun route => { route with peer := some c })[j]? =
        some rt → rt.retired → ∃ rt : Route, t.routes[j]? = some rt ∧ rt.retired := by
      intro j rt hrt hretired
      obtain ⟨rt, hold, rfl⟩ := Option.map_eq_some_iff.mp ((hroutes j).symm.trans hrt)
      refine ⟨rt, hold, ?_⟩
      split at hretired <;> exact hretired
    rcases lookup_modifyPeer hc hp' with ⟨rfl, rfl⟩ | ⟨-, hp'⟩
    · rcases hdenied with hmem | ⟨j, rt, hj, hrt, hrt'⟩
      · exact absurd (.inl hmem) (h.not_denied hc hout)
      · cases hj
        obtain ⟨rt, hold, hrt⟩ := hretired r rt hrt hrt'
        rw [hr] at hold
        cases hold
        exact absurd hrt hlive
    · refine h.refusing c' p' hp' (by simp) ?_
      rcases hdenied with hmem | ⟨j, rt, hj, hrt, hrt'⟩
      · exact .inl hmem
      · obtain ⟨rt, hold, hrt⟩ := hretired j rt hrt hrt'
        exact .inr ⟨j, rt, hj, hold, hrt⟩
  case sending =>
    intro c' p' hp' _
    rcases lookup_modifyPeer hc hp' with ⟨rfl, rfl⟩ | ⟨-, hp'⟩
    · exact h.sending c' p hc (by simp)
    · exact h.sending c' p' hp' (by simp)
  case framed => exact h.framed
  case sized => exact h.sized
  case retired =>
    intro j hj
    obtain ⟨rt, hrt, hretired⟩ := h.retired j hj
    refine ⟨_, (hroutes j).trans (congrArg _ hrt), ?_⟩
    simp only
    split <;> exact hretired
  case apart => exact h.apart

theorem ready (h : Sound none t) (hc : t.peers.lookup c = some p) (hout : p.output = none) :
    Ready t c := fun _ => h.frames hc (h.idle c p hc hout)

theorem dispatchHello (h : Sound none t) (hc : t.peers.lookup c = some p) (hout : p.output = none)
    (hnone : p.route = none) {fields : Fields} {a : Dispatching} :
    Sound none (t.dispatchHello c fields a) := by
  have hready : Ready t c := h.ready hc hout
  rw [Transport.dispatchHello]
  split
  · exact h.mono.refuse hready
  next hello _ =>
    split
    · exact h.mono.refuse hready
    next r hfind =>
      split
      · exact h
      next route hr =>
        split
        · exact h.mono.closePeer
        next hfree =>
          have hlive : ¬ route.retired := by
            obtain ⟨hlt, hmatch, -⟩ := List.findIdx?_eq_some_iff_getElem.mp hfind
            rw [List.getElem?_eq_getElem hlt] at hr
            cases hr
            simp only [Bool.and_eq_true, Bool.not_eq_true'] at hmatch
            simp [hmatch.1]
          have hpeer : route.peer = none := by simpa using hfree
          have hreserved := h.reserve hc hout hnone hr hlive hpeer (some (.hello hello))
          exact hreserved.respond (lookup_modifyPeer_self hc) hout

theorem dispatchFile (h : Sound none t) (hc : t.peers.lookup c = some p) (hout : p.output = none)
    {route : Route} {fields : Fields} {a : Dispatching} :
    Sound none (t.dispatchFile c route fields a) := by
  rw [Transport.dispatchFile]
  split
  · exact h.mono.refuse (h.ready hc hout)
  next request _ =>
    have hasked := h.keep hc (f := fun p => { p with
      request := some (.file request), budget := some request.maxResponseBytes })
      ⟨rfl, rfl, rfl, rfl⟩
    have hc' := lookup_modifyPeer_self hc (f := fun p => { p with
      request := some (.file request), budget := some request.maxResponseBytes })
    simp only
    split
    · exact hasked.mono.refuse (hasked.ready hc' hout)
    · exact hasked.respond hc' hout

theorem dispatchProcess (h : Sound none t) (hc : t.peers.lookup c = some p)
    (hout : p.output = none) {route : Route} {fields : Fields} {a : Dispatching} :
    Sound none (t.dispatchProcess c route fields a) := by
  rw [Transport.dispatchProcess]
  split
  · exact h.mono.refuse (h.ready hc hout)
  next request _ =>
    have hasked := h.keep hc (f := fun p => { p with
      request := some (.process request), budget := some request.maxResponseBytes })
      ⟨rfl, rfl, rfl, rfl⟩
    have hc' := lookup_modifyPeer_self hc (f := fun p => { p with
      request := some (.process request), budget := some request.maxResponseBytes })
    simp only
    split
    · exact hasked.mono.refuse (hasked.ready hc' hout)
    · exact hasked.respond hc' hout

theorem dispatch (h : Sound none t) (hc : t.peers.lookup c = some p) (hout : p.output = none)
    {fields : Fields} {a : Dispatching} : Sound none (t.dispatch c fields a) := by
  simp only [Transport.dispatch, hc]
  split
  · exact h.mono.closePeer
  · split
    next hnone => exact h.dispatchHello hc hout hnone
    next r _ =>
      split
      · exact h
      · split
        · exact h.dispatchFile hc hout
        · exact h.dispatchProcess hc hout

/-! ### Sockets -/

theorem hear (h : Sound none t) (hc : t.peers.lookup c = some p) (hout : p.output = none)
    {f : Peer svc.limits → Peer svc.limits} (hf : (f p).route = p.route ∧
      (f p).output = p.output ∧ (f p).sent = p.sent ∧ (f p).closeAfter = p.closeAfter) :
    Sound none (t.modifyPeer c f) ∧ (t.modifyPeer c f).peers.lookup c = some (f p) ∧
      (f p).output = none :=
  ⟨h.keep hc hf, lookup_modifyPeer_self hc, hf.2.1.trans hout⟩

theorem read (h : Sound none t) (hc : t.peers.lookup c = some p) (hout : p.output = none)
    {a : Reading} : Sound none (t.read c a) := by
  simp only [Transport.read, hc]
  split
  · exact h
  · exact h.mono.closePeer
  next bytes _ =>
    split
    next =>
      generalize bytes.take _ = piece
      split
      · exact h.mono.closePeer
      · split
        next =>
          obtain ⟨hkept, hc', hout'⟩ := h.hear hc hout (f := fun q => { q with
            header := p.header ++ piece, size := some (unpackSize (p.header ++ piece)) })
            ⟨rfl, rfl, rfl, rfl⟩
          split
          · exact hkept
          · exact hkept.mono.refuse (hkept.ready hc' hout')
        next => exact h.keep hc ⟨rfl, rfl, rfl, rfl⟩
    next size _ =>
      generalize bytes.take _ = piece
      obtain ⟨hkept, hc', hout'⟩ := h.hear hc hout (f := fun q => { q with
        body := p.body ++ piece }) ⟨rfl, rfl, rfl, rfl⟩
      split
      · exact h.mono.closePeer
      · split
        · split
          · exact hkept.mono.refuse (hkept.ready hc' hout')
          · exact hkept.dispatch hc' hout'
        · exact hkept

/-- A piece of the pending response goes out. -/
theorem piece (h : Sound none t) (hc : t.peers.lookup c = some p) {v : Value}
    (hout : p.output = some v) {piece : Bytes} (hne : piece ≠ [])
    (hfront : piece <+: (frame svc v).drop p.sent) :
    Sound (some c) (t.log (.sent c p.route v piece)) ∧
      Sending (frame svc) (some (v, p.sent + piece.length))
        (pieces c (t.log (.sent c p.route v piece)).outputs) := by
  have hsending : Sending (frame svc) (some (v, p.sent + piece.length))
      (pieces c (t.outputs ++ [.sent c p.route v piece])) := by
    have hbefore := h.sending c p hc (by simp)
    rw [Peer.current, hout] at hbefore
    rw [pieces_sent]
    exact hbefore.append hne hfront
  refine ⟨?_, hsending⟩
  have other {c' : ℕ} (hne : c' ≠ c) :
      pieces c' (t.outputs ++ [.sent c p.route v piece]) = pieces c' t.outputs :=
    pieces_sent_of_ne (Ne.symm hne)
  -- to a peer that has been denied it is a refusal that goes out
  have refused (hdenied : Denied t c p.route) : ¬ succeeded v := by
    obtain ⟨w, hw, hstate, -⟩ := h.refusing c p hc (by simp) hdenied
    rw [hout] at hw
    cases hw
    exact hstate
  constructor
  case few => exact h.few
  case known => exact h.known
  case unheard =>
    intro c' hc'
    obtain ⟨hp, hnot⟩ := h.unheard c' hc'
    have hne : c' ≠ c := by
      rintro rfl
      exact absurd hc' (not_le.mpr (h.known c' p hc))
    exact ⟨(other hne).trans hp, fun hmem => hnot (mem_of_mem_concat hmem (by simp))⟩
  case ofPeer => exact h.ofPeer
  case ofRoute => exact h.ofRoute
  case idle => exact h.idle
  case fits => exact h.fits
  case refusing =>
    intro c' p' hp' _ hdenied
    exact h.refusing c' p' hp' (by simp) (hdenied.of_log (by simp))
  case sending =>
    intro c' p' hp' hne
    have hne' : c' ≠ c := fun he => hne (congrArg some he)
    change Sending _ _ (pieces c' (t.outputs ++ [.sent c p.route v piece]))
    rw [other hne']
    exact h.sending c' p' hp' (by simp)
  case framed =>
    intro c'
    change Framed _ (pieces c' (t.outputs ++ [.sent c p.route v piece]))
    by_cases hc' : c' = c
    · subst hc'
      exact hsending.framed
    · rw [other hc']
      exact h.framed c'
  case sized =>
    intro c' w q hmem
    change (w, q) ∈ pieces c' (t.outputs ++ [.sent c p.route v piece]) at hmem
    by_cases hc' : c' = c
    · subst hc'
      rw [pieces_sent] at hmem
      rcases List.mem_append.mp hmem with hmem | hmem
      · exact h.sized c' w q hmem
      · cases List.mem_singleton.mp hmem
        exact h.fits c' p v hc hout
    · rw [other hc'] at hmem
      exact h.sized c' w q hmem
  case retired =>
    intro r hr
    exact h.retired r (mem_of_mem_concat hr (by simp))
  case apart =>
    refine pairwise_concat h.apart fun o ho => ⟨?_, ?_⟩
    · rintro c' rfl r w q hsent
      cases hsent
      exact refused (.inl ho)
    · rintro r rfl c' w q hsent
      obtain ⟨rt, hrt, hretired⟩ := h.retired r ho
      simp only [Output.sent.injEq] at hsent
      obtain ⟨-, hroute, rfl, -⟩ := hsent
      exact refused (.inr ⟨r, rt, hroute, hrt, hretired⟩)

theorem send (h : Sound none t) (hc : t.peers.lookup c = some p) {v : Value}
    (hout : p.output = some v) {a : Writing} : Sound none (t.send c p v a) := by
  simp only [Transport.send]
  split
  · exact h
  · exact h.mono.closePeer
  next n _ =>
    have hfront : (((frame svc v).drop p.sent).take ioChunk).take n <+:
        (frame svc v).drop p.sent :=
      (List.take_prefix _ _).trans (List.take_prefix _ _)
    generalize (((frame svc v).drop p.sent).take ioChunk).take n = piece at hfront
    split
    · exact h.mono.closePeer
    next hne =>
      obtain ⟨hsent, hsending⟩ := h.piece hc hout hne hfront
      have denied (hdenied : Denied (t.log (.sent c p.route v piece)) c p.route) : p.Refusing :=
        h.refusing c p hc (by simp) (hdenied.of_log nofun)
      split
      next hfull =>
        rw [hfull] at hsending
        split
        · exact hsent.closePeer
        next hafter =>
          have hdone : Sound none ((t.log (.sent c p.route v piece)).modifyPeer c fun p => { p with
              output := none, sent := 0, header := [], body := [], size := none, request := none
              budget := none, deadline := a.reset.now + svc.limits.ioTimeoutSec.value }) := by
            refine hsent.settle hc rfl (fun _ => rfl) nofun (fun hdenied => ?_) hsending.whole
            obtain ⟨_, _, _, hclose⟩ := denied hdenied
            exact absurd hclose hafter
          split
          · exact hdone
          · exact hdone.finish
      next =>
        refine hsent.settle hc rfl (fun hnone => ?_) (fun w hw => h.fits c p w hc hw) denied ?_
        · rw [hout] at hnone
          cases hnone
        · rw [Peer.current, hout]
          exact hsending

theorem write (h : Sound none t) {a : Writing} : Sound none (t.write c a) := by
  rw [Transport.write]
  cases hc : t.peers.lookup c with
  | none => exact h
  | some p =>
    simp only
    cases hout : p.output with
    | none => exact h
    | some v =>
      simp only
      -- the authority is looked at unless it is a refusal that goes out
      have sending (h : Sound none t) {t' : Transport svc.limits} (h' : Sound none t')
          (hc' : t'.peers.lookup c = some p) :
          Sound none (if p.deadline ≤ a.now then t'.closePeer c else t'.send c p v a) := by
        split
        · exact h'.mono.closePeer
        · exact h'.send hc' hout
      cases hsuccess : p.success with
      | false => simpa using sending h h hc
      | true =>
        cases hauthority : a.authority with
        | true => simpa using sending h h.passed hc
        | false =>
          simp only [Bool.false_eq_true, not_false_eq_true, and_self, if_true]
          refine (h.mono.check hc false).authorityDenied fun q hq hsent => ?_
          cases hc.symm.trans hq
          change Frames _ (pieces c (t.outputs ++ [_]))
          rw [pieces_checked]
          exact h.frames hc hsent

/-- A connection that is set up has nothing pending. -/
theorem opened (h : Sound none t) (hfew : t.peers.keys.length < maxPeers) (deadline : ℚ) :
    Sound none { t with
      accepted := t.accepted + 1
      peers := t.peers.put t.accepted { deadline := deadline } } := by
  have hfresh : t.peers.lookup t.accepted = none := by
    rcases hp : t.peers.lookup t.accepted with _ | p
    · rfl
    · exact absurd (h.known _ p hp) (lt_irrefl _)
  obtain ⟨hunsent, hunchecked⟩ := h.unheard t.accepted le_rfl
  have hlookup {c : ℕ} {p : Peer svc.limits}
      (hp : (t.peers.put t.accepted { deadline := deadline }).lookup c = some p) :
      c = t.accepted ∧ p = { deadline := deadline } ∨ t.peers.lookup c = some p := by
    rw [Table.lookup_put] at hp
    split at hp
    next he => exact .inl ⟨he, (Option.some.inj hp).symm⟩
    next => exact .inr hp
  constructor
  case few =>
    change (AList.insert t.accepted _ t.peers).keys.length ≤ maxPeers
    rw [AList.keys_insert, List.length_cons]
    exact Nat.succ_le_of_lt (lt_of_le_of_lt List.erase_sublist.length_le hfew)
  case known =>
    intro c p hp
    rcases hlookup hp with ⟨rfl, -⟩ | hp
    · exact Nat.lt_succ_self _
    · exact Nat.lt_succ_of_lt (h.known c p hp)
  case unheard => exact fun c hc => h.unheard c (Nat.le_of_succ_le hc)
  case ofPeer =>
    intro c p r hp hr
    rcases hlookup hp with ⟨-, rfl⟩ | hp
    · cases hr
    · exact h.ofPeer c p r hp hr
  case ofRoute =>
    intro r rt c hrt hpeer
    obtain ⟨p, hp, hr⟩ := h.ofRoute r rt c hrt hpeer
    have hne : c ≠ t.accepted := by
      rintro rfl
      rw [hfresh] at hp
      cases hp
    refine ⟨p, ?_, hr⟩
    change (t.peers.put t.accepted _).lookup c = some p
    rw [Table.lookup_put, if_neg hne]
    exact hp
  case idle =>
    intro c p hp
    rcases hlookup hp with ⟨-, rfl⟩ | hp
    · exact fun _ => rfl
    · exact h.idle c p hp
  case fits =>
    intro c p v hp
    rcases hlookup hp with ⟨-, rfl⟩ | hp
    · exact nofun
    · exact h.fits c p v hp
  case refusing =>
    intro c p hp _ hdenied
    rcases hlookup hp with ⟨rfl, rfl⟩ | hp
    · rcases hdenied with hmem | ⟨r, rt, hr, -⟩
      · exact absurd hmem hunchecked
      · cases hr
    · exact h.refusing c p hp (by simp) hdenied
  case sending =>
    intro c p hp _
    rcases hlookup hp with ⟨rfl, rfl⟩ | hp
    · change Frames _ (pieces t.accepted t.outputs)
      rw [hunsent]
      exact .nil
    · exact h.sending c p hp (by simp)
  case framed => exact h.framed
  case sized => exact h.sized
  case retired => exact h.retired
  case apart => exact h.apart

theorem overflow (h : Sound none t) : Sound none { t with accepted := t.accepted + 1 } where
  __ := h
  known c p hp := Nat.lt_succ_of_lt (h.known c p hp)
  unheard c hc := h.unheard c (Nat.le_of_succ_le hc)

theorem accept (h : Sound none t) (offers : List Offer) : Sound none (t.accept offers) := by
  induction offers generalizing t with
  | nil => exact h
  | cons offer offers ih =>
    cases offer with
    | none => exact h
    | failed => exact h.finish
    | connection now setup =>
      simp only [Transport.accept]
      split
      · exact ih h.overflow
      next hfew =>
        have hopened := h.opened (not_le.mp hfew)
          (now + svc.limits.ioTimeoutSec.value)
        cases setup with
        | ready => exact ih hopened
        | again => exact hopened
        | failed => exact hopened.mono.closePeer.finish

/-! ### Runs -/

theorem turn (h : Sound none t) (now : ℚ) (idle : Bool) : Sound none (t.turn now idle) := by
  have hdue := h.closeWhere fun p => p.deadline ≤ now
  simp only [Transport.turn]
  split
  · have hrest := hdue.closeWhere fun p => p.route = none
    split
    · exact hrest.finish
    · exact hrest
  · split
    · exact hdue.finish
    · exact hdue

theorem event (h : Sound none t) (now : ℚ) (writable readable : Bool) (reading : Reading)
    (writing : Writing) : Sound none (t.ready c now writable readable reading writing) := by
  rw [Transport.ready]
  cases hc : t.peers.lookup c with
  | none => exact h
  | some p =>
    simp only
    split
    · exact h.mono.closePeer
    · split
      · split
        · exact h.write
        · exact h
      next hout =>
        split
        · exact (h.read hc (by simpa using hout)).write
        · exact h

theorem step (h : Sound none t) (input : Input) : Sound none (t.step input) := by
  unfold Transport.step
  split
  · exact h
  · cases input with
    | turn now idle => exact h.turn now idle
    | accept offers => exact h.accept _
    | ready c now writable readable reading writing =>
      exact h.event now writable readable reading writing
    | stop => exact h.finish

theorem start (routes : List Route) : Sound none (start routes : Transport svc.limits) where
  few := Nat.zero_le _
  known _ _ hp := by cases hp
  unheard _ _ := ⟨rfl, List.not_mem_nil⟩
  ofPeer _ _ _ hp := by cases hp
  ofRoute r rt c hrt hpeer := by
    obtain ⟨_, -, rfl⟩ := Option.map_eq_some_iff.mp (List.getElem?_map.symm.trans hrt)
    cases hpeer
  idle _ _ hp := by cases hp
  fits _ _ _ hp := by cases hp
  refusing _ _ hp := by cases hp
  sending _ _ hp := by cases hp
  framed _ := framed_nil
  sized _ _ _ hmem := absurd hmem List.not_mem_nil
  retired _ hr := absurd hr List.not_mem_nil
  apart := .nil

theorem run (h : Sound none t) (inputs : List Input) : Sound none (t.run inputs) := by
  rw [Transport.run]
  induction inputs generalizing t with
  | nil => exact h
  | cons input inputs ih => exact ih (h.step input)

end Sound

/-- What a service shows of itself: what goes out on its connections, what follows a failure of the
authority, and who has which route. -/
structure Service.Shows (svc : Service) (t : Transport svc.limits) : Prop where
  stream : ∀ c, ∃ (vs : List Value) (rest : Bytes),
    ((pieces c t.outputs).map Prod.snd).flatten = vs.flatMap (frame svc) ++ rest ∧
      (rest = [] ∨ ∃ v, rest <+: frame svc v)
  begun : ∀ c ps v piece qs, pieces c t.outputs = ps ++ (v, piece) :: qs →
    ∃ (before : List (Value × Bytes)) (same : List Bytes), Frames (frame svc) before ∧
      ps = before ++ same.map (Prod.mk v) ∧ same.flatten ++ piece <+: frame svc v
  sized : ∀ c v piece, (v, piece) ∈ pieces c t.outputs →
    (encodePayload svc v).length ≤ svc.limits.maxFrameBytes
  apart : t.outputs.Pairwise Apart
  few : t.peers.keys.length ≤ maxPeers
  ofPeer : ∀ c p r, t.peers.lookup c = some p → p.route = some r →
    ∃ rt, t.routes[r]? = some rt ∧ rt.peer = some c
  ofRoute : ∀ r rt c, t.routes[r]? = some rt → rt.peer = some c →
    ∃ p, t.peers.lookup c = some p ∧ p.route = some r

/-- Whatever happens to a service, in any order, each connection carries whole responses one after
another, of which only the last may be cut off, and no piece of another response once one has been
begun; no response is longer than a frame may be; after the authority has failed for a connection,
or its route is retired, no piece of a success goes out on it; and there are no more peers than
there may be, each the only one of its route. -/
theorem shows_run (svc : Service) (routes : List Route) (inputs : List Input) :
    svc.Shows ((start routes : Transport svc.limits).run inputs) :=
  have h : Sound none ((start routes : Transport svc.limits).run inputs) :=
    (Sound.start routes).run inputs
  { stream := fun c => (h.framed c).bytes
    begun := fun c ps v piece qs hps =>
      (hps ▸ h.framed c : Framed (frame svc) (ps ++ (v, piece) :: qs)).before
    sized := h.sized
    apart := h.apart
    few := h.few
    ofPeer := h.ofPeer
    ofRoute := h.ofRoute }

end OrchKit.Local
