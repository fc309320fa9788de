import Mathlib.Logic.Basic

/-! # Fallible code

Guards and lookups that raise, and what it takes for code built from them to return.
-/

namespace Except

variable {ε α β : Type}

/-- Raise `e` unless `p` holds. -/
def require (p : Prop) [Decidable p] (e : ε) : Except ε Unit := if p then .ok () else .error e

/-- Raise for the first element of a list that should be empty. -/
def noneOf (xs : List α) (e : α → ε) : Except ε Unit :=
  match xs with
  | [] => .ok ()
  | x :: _ => .error (e x)

/-- The value of an option, or raise `e`. -/
def ofOption (o : Option α) (e : ε) : Except ε α :=
  match o with
  | some a => .ok a
  | none => .error e

theorem map_eq_ok_iff {x : Except ε α} {f : α → β} {b : β} :
    x.map f = .ok b ↔ ∃ a, x = .ok a ∧ f a = b := by
  cases x <;> simp [Except.map]

theorem bind_eq_ok_iff {x : Except ε α} {f : α → Except ε β} {b : β} :
    (x >>= f) = .ok b ↔ ∃ a, x = .ok a ∧ f a = .ok b := by
  cases x with
  | error e =>
    constructor
    · intro h
      cases h
    · rintro ⟨_, h, -⟩
      cases h
  | ok a =>
    constructor
    · intro h
      exact ⟨a, rfl, h⟩
    · rintro ⟨_, h, hf⟩
      cases h
      exact hf

theorem bind_eq_error_iff {x : Except ε α} {f : α → Except ε β} {e : ε} :
    (x >>= f) = .error e ↔ x = .error e ∨ ∃ a, x = .ok a ∧ f a = .error e := by
  cases x with
  | error e' => simp [bind, Except.bind]
  | ok a => simp [bind, Except.bind]

theorem require_eq_ok_iff {p : Prop} [Decidable p] {e : ε} {u : Unit} :
    require p e = .ok u ↔ p := by
  by_cases h : p <;> simp [require, h]

theorem noneOf_eq_ok_iff {xs : List α} {e : α → ε} {u : Unit} :
    noneOf xs e = .ok u ↔ xs = [] := by
  cases xs <;> simp [noneOf]

theorem ofOption_eq_ok_iff {o : Option α} {e : ε} {a : α} : ofOption o e = .ok a ↔ o = some a := by
  cases o <;> simp [ofOption]

theorem pure_eq_ok_iff {a b : α} : (pure a : Except ε α) = .ok b ↔ a = b := by
  simp [pure, Except.pure]

theorem require_of {p : Prop} [Decidable p] {e : ε} (h : p) : require p e = .ok () := if_pos h

theorem ok_bind {a : α} {f : α → Except ε β} : ((.ok a : Except ε α) >>= f) = f a := rfl

theorem error_bind {e : ε} {f : α → Except ε β} : ((.error e : Except ε α) >>= f) = .error e := rfl

/-- Whatever the code returns satisfies `P`. -/
def Ensures (P : α → Prop) : Except ε α → Prop
  | .ok a => P a
  | .error _ => True

theorem Ensures.of_ok {P : α → Prop} {x : Except ε α} (h : x.Ensures P) {a : α} (ha : x = .ok a) :
    P a := by
  rw [ha] at h
  exact h

theorem ensures_ok {P : α → Prop} {a : α} (h : P a) : (.ok a : Except ε α).Ensures P := h

theorem ensures_bind {P : β → Prop} {x : Except ε α} {f : α → Except ε β}
    (h : ∀ a, (f a).Ensures P) : (x >>= f).Ensures P := by
  cases x with
  | error e => trivial
  | ok a => exact h a

/-! ### What is raised -/

/-- Whatever the code raises satisfies `P`. -/
def RaisesOnly (P : ε → Prop) : Except ε α → Prop
  | .ok _ => True
  | .error e => P e

section RaisesOnly

variable {P : ε → Prop} {e : ε}

@[simp] theorem raisesOnly_ok {a : α} : (.ok a : Except ε α).RaisesOnly P := trivial

@[simp] theorem raisesOnly_pure {a : α} : (pure a : Except ε α).RaisesOnly P := trivial

@[simp] theorem raisesOnly_error : (.error e : Except ε α).RaisesOnly P ↔ P e := Iff.rfl

theorem raisesOnly_bind {x : Except ε α} {f : α → Except ε β} :
    (x >>= f).RaisesOnly P ↔ x.RaisesOnly P ∧ ∀ a, x = .ok a → (f a).RaisesOnly P := by
  cases x with
  | error e => simp [error_bind]
  | ok a => simp [ok_bind]

@[simp] theorem raisesOnly_map {x : Except ε α} {f : α → β} :
    (f <$> x).RaisesOnly P ↔ x.RaisesOnly P := by
  cases x <;> exact Iff.rfl

theorem raisesOnly_require {p : Prop} [Decidable p] :
    (require p e).RaisesOnly P ↔ (¬ p → P e) := by
  by_cases h : p <;> simp [require, h]

theorem raisesOnly_noneOf {xs : List α} {e : α → ε} (h : ∀ x, P (e x)) :
    (noneOf xs e).RaisesOnly P := by
  cases xs with
  | nil => trivial
  | cons x xs => exact h x

theorem raisesOnly_ofOption {o : Option α} : (ofOption o e).RaisesOnly P ↔ (o = none → P e) := by
  cases o <;> simp [ofOption]

/-- A loop raises what its body raises after some of its rounds. -/
theorem raisesOnly_foldlM {f : β → α → Except ε β} {xs : List α} {b : β} :
    (xs.foldlM f b).RaisesOnly P ↔
      ∀ done x rest c, xs = done ++ x :: rest → done.foldlM f b = .ok c → (f c x).RaisesOnly P := by
  induction xs generalizing b with
  | nil => simp
  | cons y xs ih =>
    rw [List.foldlM_cons, raisesOnly_bind]
    constructor
    · rintro ⟨hy, hrest⟩ done x rest c hxs hdone
      cases done with
      | nil =>
        obtain ⟨rfl, rfl⟩ := List.cons.inj hxs
        obtain rfl := pure_eq_ok_iff.mp hdone
        exact hy
      | cons z done =>
        obtain ⟨rfl, htail⟩ := List.cons.inj hxs
        rw [List.foldlM_cons, bind_eq_ok_iff] at hdone
        obtain ⟨b', hb', hdone⟩ := hdone
        exact ih.mp (hrest b' hb') done x rest c htail hdone
    · intro h
      constructor
      · exact h [] y xs b rfl rfl
      · intro b' hb'
        apply ih.mpr
        intro done x rest c hxs hdone
        apply h (y :: done) x rest c (by rw [hxs, List.cons_append])
        rw [List.foldlM_cons, hb']
        exact hdone

theorem forM_eq_foldlM (f : α → Except ε Unit) (xs : List α) :
    forM xs f = xs.foldlM (fun _ x => f x) () := by
  induction xs with
  | nil => rfl
  | cons x xs ih => rw [List.forM_cons, List.foldlM_cons, ih]

theorem raisesOnly_mapM_iff {f : α → Except ε β} {xs : List α} :
    (xs.mapM f).RaisesOnly P ↔ ∀ done x rest ys, xs = done ++ x :: rest → done.mapM f = .ok ys →
      (f x).RaisesOnly P := by
  induction xs with
  | nil => simp
  | cons y xs ih =>
    simp only [List.mapM_cons, raisesOnly_bind, raisesOnly_pure, implies_true, and_true, ih]
    constructor
    · rintro ⟨hy, hrest⟩ done x rest ys hxs hdone
      cases done with
      | nil =>
        obtain ⟨rfl, rfl⟩ := List.cons.inj hxs
        exact hy
      | cons z done =>
        obtain ⟨rfl, htail⟩ := List.cons.inj hxs
        simp only [List.mapM_cons, bind_eq_ok_iff] at hdone
        obtain ⟨b, hb, bs, hbs, -⟩ := hdone
        exact hrest b hb done x rest bs htail hbs
    · intro h
      refine ⟨h [] y xs [] rfl rfl, fun b hb done x rest ys hxs hdone => ?_⟩
      refine h (y :: done) x rest (b :: ys) (by rw [hxs, List.cons_append]) ?_
      rw [List.mapM_cons, hb, ok_bind, hdone]
      rfl

theorem raisesOnly_forM {f : α → Except ε Unit} {xs : List α} :
    (forM xs f).RaisesOnly P ↔
      ∀ done x rest, xs = done ++ x :: rest → forM done f = .ok () → (f x).RaisesOnly P := by
  rw [forM_eq_foldlM, raisesOnly_foldlM]
  constructor
  · intro h done x rest hxs hdone
    exact h done x rest () hxs (forM_eq_foldlM f done ▸ hdone)
  · intro h done x rest c hxs hdone
    exact h done x rest hxs ((forM_eq_foldlM f done).trans hdone)

theorem raisesOnly_mapM {f : α → Except ε β} {xs : List α} (h : ∀ x ∈ xs, (f x).RaisesOnly P) :
    (xs.mapM f).RaisesOnly P := by
  induction xs with
  | nil => trivial
  | cons x xs ih =>
    rw [List.forall_mem_cons] at h
    rw [List.mapM_cons, raisesOnly_bind]
    refine ⟨h.1, fun a _ => ?_⟩
    rw [raisesOnly_bind]
    exact ⟨ih h.2, fun bs _ => trivial⟩

end RaisesOnly

end Except
