import OrchKit.Data.Framing
import OrchKit.Local.Transport

/-! # What goes out on a connection

Whatever the sockets, the clock and the authority do, each connection carries whole responses, of
which only the last may be cut off. Once the authority has failed for a response, or its route is
retired, a peer gets nothing but a refusal, and not even that after a part of something else.
-/

namespace OrchKit.Local

open Bridge Json Framing

/-- The pieces that have gone out on a connection, each with its response. -/
def pieces (c : ℕ) (outputs : List Output) : List (Value × Bytes) :=
  outputs.filterMap fun
    | .sent c' _ v piece => if c' = c then some (v, piece) else none
    | _ => none

/-- The later output is no success of a connection whose authority has failed before, and none
behind a route that has been retired before. -/
structure Apart (before after : Output) : Prop where
  denied : ∀ c, before = .checked c false → ∀ r v piece, after = .sent c r v piece → ¬ succeeded v
  retired : ∀ r, before = .retired r → ∀ c v piece, after = .sent c (some r) v piece →
    ¬ succeeded v

section Outputs

variable {c c' r : ℕ} {passed : Bool} {route : Option ℕ} {v : Value} {piece : Bytes}
  {outputs : List Output}

theorem pieces_of_not_sent {o : Output} (h : ∀ c r v piece, o ≠ .sent c r v piece) :
    pieces c (outputs ++ [o]) = pieces c outputs := by
  cases o with
  | sent => exact absurd rfl (h _ _ _ _)
  | _ => simp [pieces]

@[simp] theorem pieces_checked : pieces c (outputs ++ [.checked c' passed]) = pieces c outputs :=
  pieces_of_not_sent fun _ _ _ _ => nofun

@[simp] theorem pieces_retired : pieces c (outputs ++ [.retired r]) = pieces c outputs :=
  pieces_of_not_sent fun _ _ _ _ => nofun

@[simp] theorem pieces_sent :
    pieces c (outputs ++ [.sent c route v piece]) = pieces c outputs ++ [(v, piece)] := by
  simp [pieces]

theorem pieces_sent_of_ne (h : c' ≠ c) :
    pieces c (outputs ++ [.sent c' route v piece]) = pieces c outputs := by
  simp [pieces, h]

theorem mem_of_mem_concat {o o' : Output} (h : o' ∈ outputs ++ [o]) (hne : o' ≠ o) :
    o' ∈ outputs :=
  (List.mem_append.mp h).resolve_right fun he => hne (List.mem_singleton.mp he)

theorem apart_of_not_sent {o o' : Output} (h : ∀ c r v piece, o' ≠ .sent c r v piece) :
    Apart o o' :=
  ⟨fun _ _ _ _ _ he => absurd he (h _ _ _ _), fun _ _ _ _ _ he => absurd he (h _ _ _ _)⟩

theorem pairwise_concat {o : Output} (h : outputs.Pairwise Apart)
    (ho : ∀ o' ∈ outputs, Apart o' o) :
    (outputs ++ [o]).Pairwise Apart := by
  rw [List.pairwise_append]
  refine ⟨h, List.pairwise_singleton _ _, ?_⟩
  intro o' ho' o'' ho''
  rw [List.mem_singleton.mp ho'']
  exact ho o' ho'

end Outputs

/-! ### The invariant -/

variable {svc : Service} {t : Transport svc.limits} {x : Option ℕ} {c : ℕ} {p : Peer svc.limits}

/-- The authority has failed for a connection, or the route of its peer is retired. -/
def Denied (t : Transport svc.limits) (c : ℕ) (route : Option ℕ) : Prop :=
  .checked c false ∈ t.outputs ∨
    ∃ r rt, route = some r ∧ t.routes[r]? = some rt ∧ rt.retired

theorem Denied.of_log {o : Output} {route : Option ℕ} (h : Denied (t.log o) c route)
    (hne : o ≠ .checked c false) : Denied t c route :=
  h.imp_left fun hmem => mem_of_mem_concat hmem hne.symm

def Peer.Refusing (p : Peer svc.limits) : Prop :=
  ∃ v, p.output = some v ∧ ¬ succeeded v ∧ p.closeAfter

/-- What is being sent to a peer, and how much of it has been. -/
def Peer.current (p : Peer svc.limits) : Option (Value × ℕ) := p.output.map fun v => (v, p.sent)

/-- What holds of a service at any time, but for what is pending for one connection while it is
being dealt with. -/
structure Sound (x : Option ℕ) (t : Transport svc.limits) : Prop where
  few : t.peers.keys.length ≤ maxPeers
  known : ∀ c p, t.peers.lookup c = some p → c < t.accepted
  unheard : ∀ c, t.accepted ≤ c → pieces c t.outputs = [] ∧ .checked c false ∉ t.outputs
  ofPeer : ∀ c p r, t.peers.lookup c = some p → p.route = some r →
    ∃ rt, t.routes[r]? = some rt ∧ rt.peer = some c
  ofRoute : ∀ r rt c, t.routes[r]? = some rt → rt.peer = some c →
    ∃ p, t.peers.lookup c = some p ∧ p.route = some r
  idle : ∀ c p, t.peers.lookup c = some p → p.output = none → p.sent = 0
  fits : ∀ c p v, t.peers.lookup c = some p → p.output = some v →
    (encodePayload svc v).length ≤ svc.limits.maxFrameBytes
  refusing : ∀ c p, t.peers.lookup c = some p → some c ≠ x → Denied t c p.route → p.Refusing
  sending : ∀ c p, t.peers.lookup c = some p → some c ≠ x →
    Sending (frame svc) p.current (pieces c t.outputs)
  framed : ∀ c, Framed (frame svc) (pieces c t.outputs)
  sized : ∀ c v piece, (v, piece) ∈ pieces c t.outputs →
    (encodePayload svc v).length ≤ svc.limits.maxFrameBytes
  retired : ∀ r, .retired r ∈ t.outputs → ∃ rt, t.routes[r]? = some rt ∧ rt.retired
  apart : t.outputs.Pairwise Apart

namespace Sound

theorem mono (h : Sound none t) : Sound x t where
  __ := h
  refusing c p hc _ := h.refusing c p hc (by simp)
  sending c p hc _ := h.sending c p hc (by simp)

theorem forget (h : Sound (some c) t) (hc : t.peers.lookup c = none) : Sound none t where
  __ := h
  refusing c' p hp _ := h.refusing c' p hp fun he => by
    cases he
    rw [hc] at hp
    cases hp
  sending c' p hp _ := h.sending c' p hp fun he => by
    cases he
    rw [hc] at hp
    cases hp

theorem halt (h : Sound x t) (running : Bool) : Sound x { t with running := running } where
  __ := h

/-! ### Closing -/

theorem getElem?_free {route : Option ℕ} {r : ℕ} : (t.free c route)[r]? =
    (fun rt => if route = some r ∧ rt.peer = some c then { rt with peer := none } else rt) <$>
      t.routes[r]? := by
  cases route with
  | none => simp [Transport.free]
  | some r' =>
    rw [Transport.free, List.getElem?_modify]
    congr 1
    funext rt
    by_cases hr : r' = r <;> simp [hr]

theorem closePeer_eq (hc : t.peers.lookup c = some p) :
    t.closePeer c = { t with peers := t.peers.delete c, routes := t.free c p.route } := by
  simp only [Transport.closePeer, hc]

theorem denied_free {c' : ℕ} {route route' : Option ℕ} {peers : Table ℕ (Peer svc.limits)}
    (h : Denied { t with peers := peers, routes := t.free c route } c' route') :
    Denied t c' route' := by
  rcases h with h | ⟨r, rt, hr, hrt, hretired⟩
  · exact .inl h
  · change (t.free c route)[r]? = some rt at hrt
    rw [getElem?_free] at hrt
    obtain ⟨rt', hrt', rfl⟩ := Option.map_eq_some_iff.mp hrt
    refine .inr ⟨r, rt', hr, hrt', ?_⟩
    split at hretired <;> exact hretired

/-- What is left when a connection is closed. -/
theorem delete (h : Sound (some c) t) (hc : t.peers.lookup c = some p) :
    Sound none (t.closePeer c) := by
  rw [closePeer_eq hc]
  have hlookup : ∀ c' p', (t.peers.delete c).lookup c' = some p' →
      c' ≠ c ∧ t.peers.lookup c' = some p' := by
    intro c' p' hp'
    rw [Table.lookup_delete] at hp'
    split at hp'
    next => cases hp'
    next hne => exact ⟨hne, hp'⟩
  constructor
  case few =>
    refine le_trans ?_ h.few
    change (AList.erase c t.peers).keys.length ≤ t.peers.keys.length
    rw [AList.keys_erase]
    exact (List.erase_sublist).length_le
  case known => exact fun c' p' hp' => h.known c' p' (hlookup c' p' hp').2
  case unheard => exact h.unheard
  case ofPeer =>
    intro c' p' r hp' hr
    obtain ⟨hne, hp'⟩ := hlookup c' p' hp'
    obtain ⟨rt, hrt, hpeer⟩ := h.ofPeer c' p' r hp' hr
    refine ⟨rt, ?_, hpeer⟩
    change (t.free c p.route)[r]? = some rt
    rw [getElem?_free, hrt]
    have hkeep : ¬ (p.route = some r ∧ rt.peer = some c) := fun ⟨_, he⟩ =>
      hne (Option.some.inj (hpeer.symm.trans he))
    exact congrArg some (if_neg hkeep)
  case ofRoute =>
    intro r rt c' hrt hpeer
    change (t.free c p.route)[r]? = some rt at hrt
    rw [getElem?_free] at hrt
    obtain ⟨rt', hrt', rfl⟩ := Option.map_eq_some_iff.mp hrt
    split at hpeer
    next => cases hpeer
    next hkeep =>
      obtain ⟨p', hp', hr⟩ := h.ofRoute r rt' c' hrt' hpeer
      have hne : c' ≠ c := by
        rintro rfl
        rw [hc] at hp'
        cases hp'
        exact hkeep ⟨hr, hpeer⟩
      refine ⟨p', ?_, hr⟩
      change (t.peers.delete c).lookup c' = some p'
      rw [Table.lookup_delete, if_neg hne]
      exact hp'
  case idle => exact fun c' p' hp' => h.idle c' p' (hlookup c' p' hp').2
  case fits => exact fun c' p' v hp' => h.fits c' p' v (hlookup c' p' hp').2
  case refusing =>
    intro c' p' hp' _ hdenied
    obtain ⟨hne, hp'⟩ := hlookup c' p' hp'
    exact h.refusing c' p' hp' (fun he => hne (Option.some.inj he)) (denied_free hdenied)
  case sending =>
    intro c' p' hp' _
    obtain ⟨hne, hp'⟩ := hlookup c' p' hp'
    exact h.sending c' p' hp' fun he => hne (Option.some.inj he)
  case framed => exact h.framed
  case sized => exact h.sized
  case retired =>
    intro r hr
    obtain ⟨rt, hrt, hretired⟩ := h.retired r hr
    refine ⟨if p.route = some r ∧ rt.peer = some c then { rt with peer := none } else rt, ?_, ?_⟩
    · change (t.free c p.route)[r]? = _
      rw [getElem?_free, hrt]
      rfl
    · split <;> exact hretired
  case apart => exact h.apart

theorem closePeer (h : Sound (some c) t) : Sound none (t.closePeer c) := by
  cases hc : t.peers.lookup c with
  | none =>
    have heq : t.closePeer c = t := by simp only [Transport.closePeer, hc]
    rw [heq]
    exact h.forget hc
  | some p => exact h.delete hc

theorem closeWhere (h : Sound none t) (which : Peer svc.limits → Bool) :
    Sound none (t.closeWhere which) := by
  rw [Transport.closeWhere]
  induction t.peers.entries.filter (fun e => which e.2) generalizing t with
  | nil => exact h
  | cons e es ih => exact ih h.mono.closePeer

theorem finish (h : Sound none t) : Sound none t.finish := (h.closeWhere _).halt false

/-! ### The authority -/

/-- What is no piece of a response is put on record. -/
theorem log (h : Sound x t) {o : Output} (hsilent : ∀ c r v piece, o ≠ .sent c r v piece)
    (hchecked : ∀ c, o = .checked c false → some c = x ∧ c < t.accepted)
    (hretired : ∀ r, o = .retired r → ∃ rt, t.routes[r]? = some rt ∧ rt.retired) :
    Sound x (t.log o) := by
  have same (c : ℕ) : pieces c (t.log o).outputs = pieces c t.outputs := pieces_of_not_sent hsilent
  constructor
  case few => exact h.few
  case known => exact h.known
  case unheard =>
    intro c hc
    obtain ⟨hp, hnot⟩ := h.unheard c hc
    refine ⟨(same c).trans hp, fun hmem => hnot (mem_of_mem_concat hmem ?_)⟩
    rintro rfl
    exact absurd hc (not_le.mpr (hchecked c rfl).2)
  case ofPeer => exact h.ofPeer
  case ofRoute => exact h.ofRoute
  case idle => exact h.idle
  case fits => exact h.fits
  case refusing =>
    intro c p hc hne hdenied
    exact h.refusing c p hc hne (hdenied.of_log fun he => hne (hchecked c he).1)
  case sending =>
    intro c p hc hne
    rw [same]
    exact h.sending c p hc hne
  case framed =>
    intro c
    rw [same]
    exact h.framed c
  case sized =>
    intro c v piece hmem
    rw [same] at hmem
    exact h.sized c v piece hmem
  case retired =>
    intro r hr
    by_cases he : o = .retired r
    · exact hretired r he
    · exact h.retired r (mem_of_mem_concat hr (Ne.symm he))
  case apart => exact pairwise_concat h.apart fun _ _ => apart_of_not_sent hsilent

/-- A look at the authority for the response of a peer. -/
theorem check (h : Sound (some c) t) (hc : t.peers.lookup c = some p) (passed : Bool) :
    Sound (some c) (t.log (.checked c passed)) := by
  refine h.log (fun _ _ _ _ => nofun) (fun c' he => ?_) (fun _ => nofun)
  cases he
  exact ⟨rfl, h.known c p hc⟩

/-- Only the peer of a route is concerned when it is retired. -/
theorem retire (h : Sound (some c) t) {r : ℕ} (hc : t.peers.lookup c = some p)
    (hr : p.route = some r) : Sound (some c) (t.retire r) := by
  obtain ⟨rt, hrt, hpeer⟩ := h.ofPeer c p r hc hr
  by_cases hretired : rt.retired
  · have heq : t.retire r = t := by simp only [Transport.retire, hrt, hretired, if_true]
    rw [heq]
    exact h
  have heq : t.retire r = Transport.log
      { t with routes := t.routes.modify r fun rt => { rt with retired := true } }
      (.retired r) := by
    simp only [Transport.retire, hrt]
    rw [if_neg hretired]
    rfl
  have hroutes : ∀ j, (t.routes.modify r fun rt => { rt with retired := true })[j]? =
      (fun rt => if r = j then { rt with retired := true } else rt) <$> t.routes[j]? :=
    fun j => List.getElem?_modify _ _ _ _
  rw [heq]
  refine log ?_ (fun _ _ _ _ => nofun) (fun _ => nofun) fun j hj => ?_
  rotate_left
  · cases hj
    exact ⟨_, (hroutes r).trans (congrArg _ hrt), by simp only [if_true]⟩
  constructor
  case few => exact h.few
  case known => exact h.known
  case unheard => exact h.unheard
  case ofPeer =>
    intro c' p' j hp' hj
    obtain ⟨rt', hrt', hpeer'⟩ := h.ofPeer c' p' j hp' hj
    refine ⟨_, (hroutes j).trans (congrArg _ hrt'), ?_⟩
    simp only
    split <;> exact hpeer'
  case ofRoute =>
    intro j rt' c' hrt' hpeer'
    obtain ⟨rt', hold, rfl⟩ := Option.map_eq_some_iff.mp ((hroutes j).symm.trans hrt')
    apply h.ofRoute j rt' c' hold
    split at hpeer' <;> exact hpeer'
  case idle => exact h.idle
  case fits => exact h.fits
  case refusing =>
    intro c' p' hp' hne hdenied
    apply h.refusing c' p' hp' hne
    rcases hdenied with hmem | ⟨j, rt', hj, hrt', hretired'⟩
    · exact .inl hmem
    · obtain ⟨rt', hold, rfl⟩ := Option.map_eq_some_iff.mp ((hroutes j).symm.trans hrt')
      refine .inr ⟨j, rt', hj, hold, ?_⟩
      split at hretired'
      next hrj =>
        -- the route has only one peer
        obtain ⟨rt'', hrt'', hpeer''⟩ := h.ofPeer c' p' j hp' hj
        rw [← hrj, hrt] at hrt''
        cases hrt''
        rw [hpeer] at hpeer''
        exact absurd hpeer''.symm hne
      next => exact hretired'
  case sending => exact h.sending
  case framed => exact h.framed
  case sized => exact h.sized
  case retired =>
    intro j hj
    obtain ⟨rt', hrt', hretired'⟩ := h.retired j hj
    refine ⟨_, (hroutes j).trans (congrArg _ hrt'), ?_⟩
    simp only
    split
    · rfl
    · exact hretired'
  case apart => exact h.apart

/-! ### The pending response -/

section Update

variable {f : Peer svc.limits → Peer svc.limits}

theorem lookup_modifyPeer {c' : ℕ} {p' : Peer svc.limits} (hc : t.peers.lookup c = some p)
    (hp' : (t.modifyPeer c f).peers.lookup c' = some p') :
    c' = c ∧ p' = f p ∨ c' ≠ c ∧ t.peers.lookup c' = some p' := by
  change (t.peers.modify c f).lookup c' = some p' at hp'
  rw [Table.lookup_modify] at hp'
  split at hp'
  next he =>
    rw [he, hc] at hp'
    exact .inl ⟨he, (Option.some.inj hp').symm⟩
  next hne => exact .inr ⟨hne, hp'⟩

theorem lookup_modifyPeer_self (hc : t.peers.lookup c = some p) :
    (t.modifyPeer c f).peers.lookup c = some (f p) := by
  change (t.peers.modify c f).lookup c = some (f p)
  rw [Table.lookup_modify, if_pos rfl, hc]
  rfl

theorem keys_modifyPeer : (t.modifyPeer c f).peers.keys = t.peers.keys := by
  change (t.peers.entries.map _).keys = t.peers.entries.keys
  simp [List.keys, List.map_map, Function.comp_def]

/-- A connection has been dealt with when what is pending for it is in order again. -/
theorem settle (h : Sound (some c) t) (hc : t.peers.lookup c = some p)
    (hroute : (f p).route = p.route) (hidle : (f p).output = none → (f p).sent = 0)
    (hfits : ∀ v, (f p).output = some v →
      (encodePayload svc v).length ≤ svc.limits.maxFrameBytes)
    (hrefusing : Denied t c p.route → (f p).Refusing)
    (hsending : Sending (frame svc) (f p).current (pieces c t.outputs)) :
    Sound none (t.modifyPeer c f) := by
  constructor
  case few =>
    rw [keys_modifyPeer]
    exact h.few
  case known =>
    intro c' p' hp'
    rcases lookup_modifyPeer hc hp' with ⟨rfl, -⟩ | ⟨-, hp'⟩
    · exact h.known c' p hc
    · exact h.known c' p' hp'
  case unheard => exact h.unheard
  case ofPeer =>
    intro c' p' r hp' hr
    rcases lookup_modifyPeer hc hp' with ⟨rfl, rfl⟩ | ⟨-, hp'⟩
    · exact h.ofPeer c' p r hc (hroute ▸ hr)
    · exact h.ofPeer c' p' r hp' hr
  case ofRoute =>
    intro r rt c' hrt hpeer
    obtain ⟨p', hp', hr⟩ := h.ofRoute r rt c' hrt hpeer
    by_cases he : c' = c
    · subst he
      rw [hc] at hp'
      cases hp'
      exact ⟨f p, lookup_modifyPeer_self hc, hroute.trans hr⟩
    · refine ⟨p', ?_, hr⟩
      change (t.peers.modify c f).lookup c' = some p'
      rw [Table.lookup_modify, if_neg he]
      exact hp'
  case idle =>
    intro c' p' hp'
    rcases lookup_modifyPeer hc hp' with ⟨-, rfl⟩ | ⟨-, hp'⟩
    · exact hidle
    · exact h.idle c' p' hp'
  case fits =>
    intro c' p' v hp'
    rcases lookup_modifyPeer hc hp' with ⟨-, rfl⟩ | ⟨-, hp'⟩
    · exact hfits v
    · exact h.fits c' p' v hp'
  case refusing =>
    intro c' p' hp' _ hdenied
    rcases lookup_modifyPeer hc hp' with ⟨rfl, rfl⟩ | ⟨hne, hp'⟩
    · exact hrefusing (hroute ▸ hdenied)
    · exact h.refusing c' p' hp' (fun he => hne (Option.some.inj he)) hdenied
  case sending =>
    intro c' p' hp' _
    rcases lookup_modifyPeer hc hp' with ⟨rfl, rfl⟩ | ⟨hne, hp'⟩
    · exact hsending
    · exact h.sending c' p' hp' fun he => hne (Option.some.inj he)
  case framed => exact h.framed
  case sized => exact h.sized
  case retired => exact h.retired
  case apart => exact h.apart

theorem keep (h : Sound none t) (hc : t.peers.lookup c = some p)
    (hf : (f p).route = p.route ∧ (f p).output = p.output ∧ (f p).sent = p.sent ∧
      (f p).closeAfter = p.closeAfter) : Sound none (t.modifyPeer c f) := by
  obtain ⟨hroute, houtput, hsent, hclose⟩ := hf
  apply h.mono.settle hc hroute
  · rw [houtput, hsent]
    exact h.idle c p hc
  · rw [houtput]
    exact fun v hv => h.fits c p v hc hv
  · intro hdenied
    obtain ⟨v, hv, hstate, hafter⟩ := h.refusing c p hc (by simp) hdenied
    exact ⟨v, houtput.trans hv, hstate, hclose.trans hafter⟩
  · rw [Peer.current, houtput, hsent]
    exact h.sending c p hc (by simp)

end Update

theorem frames (h : Sound none t) (hc : t.peers.lookup c = some p) (hsent : p.sent = 0) :
    Frames (frame svc) (pieces c t.outputs) := by
  have hsending := h.sending c p hc (by simp)
  rw [Peer.current, hsent] at hsending
  cases hv : p.output with
  | none =>
    rw [hv] at hsending
    exact hsending
  | some v =>
    rw [hv] at hsending
    exact sending_zero.mp hsending

/-- A response is put in the place of whatever had not been begun. -/
theorem queue (h : Sound (some c) t) (hc : t.peers.lookup c = some p)
    (hframes : Frames (frame svc) (pieces c t.outputs)) {v : Value} {budget : Option ℕ}
    {closeAfter preserve : Bool} {a : Queueing}
    (hv : Denied t c p.route → ¬ succeeded v ∧ closeAfter) :
    Sound none (t.queue c v budget closeAfter preserve a) := by
  rw [Transport.queue]
  split
  next => exact h.closePeer
  next hlength =>
    have hsettled : Sound none (t.modifyPeer c fun p => { p with
        output := some v
        sent := 0
        success := succeeded v
        closeAfter := closeAfter
        budget := budget
        deadline := if preserve then p.deadline else a.now + svc.limits.ioTimeoutSec.value }) := by
      apply h.settle hc rfl
      · intro he
        cases he
      · intro w he
        cases he
        omega
      · intro hdenied
        exact ⟨v, rfl, hv hdenied⟩
      · exact sending_zero.mpr hframes
    simp only
    split
    · exact hsettled
    · exact hsettled.mono.closePeer

end Sound

end OrchKit.Local
