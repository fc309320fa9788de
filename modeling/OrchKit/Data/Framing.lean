import Mathlib.Data.List.Infix

/-! # Frames in pieces

A stream carries values in frames, which are sent piece by piece. The pieces, each with the value
that it is for, are whole frames one after another, with a part of a frame at the end of a stream
that has been cut off or is not done yet.
-/

namespace Framing

variable {α β : Type} (frame : α → List β)

/-- Pieces that are whole frames one after another. -/
inductive Frames : List (α × List β) → Prop
  | nil : Frames []
  | concat {ps : List (α × List β)} {v : α} {pieces : List (List β)} (before : Frames ps)
      (nonempty : [] ∉ pieces) (whole : pieces.flatten = frame v) :
      Frames (ps ++ pieces.map (Prod.mk v))

/-- Whole frames, and then the first `n` elements of the frame that is being sent. -/
def Sending : Option (α × ℕ) → List (α × List β) → Prop
  | none, ps => Frames frame ps
  | some (v, n), ps => ∃ (before : List (α × List β)) (pieces : List (List β)),
      Frames frame before ∧ [] ∉ pieces ∧ ps = before ++ pieces.map (Prod.mk v) ∧
        pieces.flatten = (frame v).take n

/-- Whole frames, of which the last may have been cut off. -/
def Framed (ps : List (α × List β)) : Prop := ∃ current, Sending frame current ps

variable {frame} {ps qs : List (α × List β)} {v w : α} {n : ℕ} {piece : List β}

theorem sending_zero : Sending frame (some (v, 0)) ps ↔ Frames frame ps := by
  constructor
  · rintro ⟨before, pieces, hbefore, hne, rfl, hflat⟩
    rw [List.take_zero, List.flatten_eq_nil_iff] at hflat
    have hnil : pieces = [] := List.eq_nil_iff_forall_not_mem.mpr fun x hx =>
      hne (hflat x hx ▸ hx)
    rw [hnil, List.map_nil, List.append_nil]
    exact hbefore
  · intro h
    exact ⟨ps, [], h, List.not_mem_nil, (List.append_nil ps).symm, rfl⟩

theorem Sending.append (h : Sending frame (some (v, n)) ps) (hne : piece ≠ [])
    (hp : piece <+: (frame v).drop n) :
    Sending frame (some (v, n + piece.length)) (ps ++ [(v, piece)]) := by
  obtain ⟨before, pieces, hbefore, hnil, rfl, hflat⟩ := h
  refine ⟨before, pieces ++ [piece], hbefore, ?_, ?_, ?_⟩
  · intro hmem
    rcases List.mem_append.mp hmem with hmem | hmem
    · exact hnil hmem
    · exact hne (List.mem_singleton.mp hmem).symm
  · rw [List.map_append, List.append_assoc, List.map_singleton]
  · rw [List.flatten_append, hflat, List.flatten_singleton, List.take_add,
      ← List.prefix_iff_eq_take.mp hp]

theorem Sending.whole (h : Sending frame (some (v, (frame v).length)) ps) : Frames frame ps := by
  obtain ⟨before, pieces, hbefore, hnil, rfl, hflat⟩ := h
  rw [List.take_length] at hflat
  exact .concat hbefore hnil hflat

theorem Sending.framed {current : Option (α × ℕ)} (h : Sending frame current ps) :
    Framed frame ps := ⟨current, h⟩

theorem Frames.framed (h : Frames frame ps) : Framed frame ps := ⟨none, h⟩

theorem framed_nil : Framed frame [] := Frames.nil.framed

/-! ### What a framed stream is like -/

theorem Frames.bytes (h : Frames frame ps) :
    ∃ vs : List α, (ps.map Prod.snd).flatten = vs.flatMap frame := by
  induction h with
  | nil => exact ⟨[], rfl⟩
  | @concat ps v pieces _ _ hwhole ih =>
    obtain ⟨vs, hvs⟩ := ih
    refine ⟨vs ++ [v], ?_⟩
    rw [List.map_append, List.flatten_append, hvs, List.flatMap_append, List.flatMap_singleton,
      ← hwhole, List.map_map]
    congr 2
    exact List.map_id pieces

theorem Framed.bytes (h : Framed frame ps) : ∃ (vs : List α) (rest : List β),
    (ps.map Prod.snd).flatten = vs.flatMap frame ++ rest ∧ (rest = [] ∨ ∃ v, rest <+: frame v) := by
  obtain ⟨_ | ⟨v, n⟩, h⟩ := h
  · obtain ⟨vs, hvs⟩ := Frames.bytes h
    exact ⟨vs, [], by rw [hvs, List.append_nil], .inl rfl⟩
  · obtain ⟨before, pieces, hbefore, -, rfl, hflat⟩ := h
    obtain ⟨vs, hvs⟩ := hbefore.bytes
    refine ⟨vs, (frame v).take n, ?_, .inr ⟨v, List.take_prefix _ _⟩⟩
    rw [List.map_append, List.flatten_append, hvs, ← hflat, List.map_map]
    congr 2
    exact List.map_id pieces

theorem split_append {before : List (α × List β)} {pieces : List (List β)}
    (h : before ++ pieces.map (Prod.mk w) = ps ++ (v, piece) :: qs) :
    (∃ rest, before = ps ++ (v, piece) :: rest) ∨
      ∃ first rest, v = w ∧ pieces = first ++ piece :: rest ∧
        ps = before ++ first.map (Prod.mk w) := by
  rcases List.append_eq_append_iff.mp h with ⟨first, rfl, hpieces⟩ | ⟨rest, rfl, hrest⟩
  · obtain ⟨first, tail, rfl, rfl, htail⟩ := List.map_eq_append_iff.mp hpieces
    obtain ⟨_, rest, rfl, he, -⟩ := List.map_eq_cons_iff.mp htail
    cases he
    exact .inr ⟨first, rest, rfl, rfl, rfl⟩
  · rcases rest with _ | ⟨e, rest⟩
    · obtain ⟨_, rest, rfl, he, -⟩ := List.map_eq_cons_iff.mp hrest.symm
      cases he
      exact .inr ⟨[], rest, rfl, rfl, by simp⟩
    · cases hrest
      exact .inl ⟨rest, rfl⟩

theorem Frames.before (h : Frames frame (ps ++ (v, piece) :: qs)) :
    ∃ (before : List (α × List β)) (pieces : List (List β)), Frames frame before ∧
      ps = before ++ pieces.map (Prod.mk v) ∧ pieces.flatten ++ piece <+: frame v := by
  generalize hps : ps ++ (v, piece) :: qs = all at h
  induction h generalizing qs with
  | nil => simp at hps
  | @concat whole w pieces hbefore _ hwhole ih =>
    rcases split_append hps.symm with ⟨rest, hrest⟩ | ⟨first, rest, rfl, rfl, rfl⟩
    · exact ih hrest.symm
    · refine ⟨whole, first, hbefore, rfl, ⟨rest.flatten, ?_⟩⟩
      rw [← hwhole, List.flatten_append, List.flatten_cons, List.append_assoc]

theorem Framed.before (h : Framed frame (ps ++ (v, piece) :: qs)) :
    ∃ (before : List (α × List β)) (pieces : List (List β)), Frames frame before ∧
      ps = before ++ pieces.map (Prod.mk v) ∧ pieces.flatten ++ piece <+: frame v := by
  obtain ⟨_ | ⟨w, n⟩, h⟩ := h
  · exact Frames.before h
  · obtain ⟨whole, pieces, hbefore, -, hps, hflat⟩ := h
    rcases split_append hps.symm with ⟨rest, hrest⟩ | ⟨first, rest, rfl, rfl, rfl⟩
    · exact Frames.before (hrest ▸ hbefore)
    · refine ⟨whole, first, hbefore, rfl, ?_⟩
      refine List.IsPrefix.trans ⟨rest.flatten, ?_⟩ (hflat ▸ List.take_prefix n (frame v))
      rw [List.flatten_append, List.flatten_cons, List.append_assoc]

end Framing
