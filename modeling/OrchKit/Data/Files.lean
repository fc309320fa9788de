import Mathlib.Data.List.Dedup
import Mathlib.Data.List.Sort

/-! # Files by path

A directory as what stands at the ends of the paths below it, each under the names that lead there.
The names in the directory are the first ones of these paths, and what stands under a name are the
rests of the paths that begin with it. At the end of a path is a file or a directory that is empty,
so that where only files count every directory has one below it.
-/

namespace Files

variable {ν α : Type}

def Proper (t : List (List ν × α)) : Prop := t.Pairwise fun e e' => ¬ e.1 <+: e'.1 ∧ ¬ e'.1 <+: e.1

instance decidableProper [DecidableEq ν] (t : List (List ν × α)) : Decidable (Proper t) :=
  inferInstanceAs (Decidable (t.Pairwise _))

def file? (t : List (List ν × α)) : Option α := (t.find? fun e => e.1.isEmpty).map Prod.snd

section Proper

variable {t : List (List ν × α)} {x : α}

theorem mem_of_file? (h : file? t = some x) : ([], x) ∈ t := by
  obtain ⟨⟨path, y⟩, hfind, rfl⟩ := Option.map_eq_some_iff.mp h
  have hempty : path = [] := by simpa using List.find?_some hfind
  exact hempty ▸ List.mem_of_find?_eq_some hfind

theorem file?_eq_none_iff : file? t = none ↔ ∀ x, ([], x) ∉ t := by
  simp only [file?, Option.map_eq_none_iff, List.find?_eq_none, List.isEmpty_iff, Prod.forall]
  constructor
  · intro h x hx
    exact h [] x hx rfl
  · rintro h _ x hx rfl
    exact h x hx

theorem Proper.nodup (h : Proper t) : (t.map Prod.fst).Nodup := by
  rw [List.Nodup, List.pairwise_map]
  apply h.imp
  intro e e' he heq
  exact he.1 (heq ▸ List.prefix_refl _)

theorem Proper.eq_file (h : Proper t) (hx : ([], x) ∈ t) : t = [([], x)] := by
  obtain ⟨before, after, rfl⟩ := List.append_of_mem hx
  rw [Proper, List.pairwise_append] at h
  obtain ⟨-, hafter, hbefore⟩ := h
  have hnone : before = [] := by
    apply List.eq_nil_iff_forall_not_mem.mpr
    intro e he
    exact (hbefore e he ([], x) List.mem_cons_self).2 List.nil_prefix
  have hrest : after = [] := by
    apply List.eq_nil_iff_forall_not_mem.mpr
    intro e he
    exact (List.rel_of_pairwise_cons hafter he).1 List.nil_prefix
  rw [hnone, hrest, List.nil_append]

theorem Proper.file?_eq_some_iff (h : Proper t) : file? t = some x ↔ t = [([], x)] := by
  constructor
  · intro hfile
    exact h.eq_file (mem_of_file? hfile)
  · rintro rfl
    rfl

end Proper

section Names

variable [LinearOrder ν]

/-- What stands under a name. -/
def child (t : List (List ν × α)) (name : ν) : List (List ν × α) :=
  t.filterMap fun e =>
    match e.1 with
    | [] => none
    | first :: rest => if first = name then some (rest, e.2) else none

def listing (t : List (List ν × α)) : List ν :=
  (t.filterMap fun e => e.1.head?).dedup.insertionSort (· ≤ ·)

/-- The names in the directory with those in the directories under them. -/
def pairs (t : List (List ν × α)) : List (ν × ν) :=
  (listing t).flatMap fun a => (listing (child t a)).map (Prod.mk a)

variable {t : List (List ν × α)} {name a b : ν} {path rest : List ν} {x : α}

@[simp] theorem mem_child : (path, x) ∈ child t name ↔ (name :: path, x) ∈ t := by
  simp only [child, List.mem_filterMap, Prod.exists]
  constructor
  · rintro ⟨p, y, hmem, h⟩
    cases p with
    | nil => cases h
    | cons first rest =>
      have hite : (if first = name then some (rest, y) else none) = some (path, x) := h
      obtain ⟨rfl, hrest⟩ := Option.ite_none_right_eq_some.mp hite
      cases hrest
      exact hmem
  · intro h
    exact ⟨name :: path, x, h, by simp⟩

@[simp] theorem child_cons_self :
    child ((name :: path, x) :: t) name = (path, x) :: child t name := by
  simp [child]

theorem child_cons_of_ne (h : ∀ rest, path ≠ name :: rest) :
    child ((path, x) :: t) name = child t name := by
  cases path with
  | nil => simp [child]
  | cons first rest =>
    have hne : first ≠ name := by
      rintro rfl
      exact h rest rfl
    simp [child, hne]

theorem child_child_cons_of_ne (h : ∀ rest, path ≠ a :: b :: rest) :
    child (child ((path, x) :: t) a) b = child (child t a) b := by
  by_cases ha : ∃ rest, path = a :: rest
  · obtain ⟨rest, rfl⟩ := ha
    rw [child_cons_self]
    exact child_cons_of_ne fun below hbelow => h below (by rw [hbelow])
  · rw [child_cons_of_ne fun rest hrest => ha ⟨rest, hrest⟩]

theorem mem_listing : name ∈ listing t ↔ ∃ rest x, (name :: rest, x) ∈ t := by
  rw [listing, List.mem_insertionSort, List.mem_dedup, List.mem_filterMap]
  constructor
  · rintro ⟨⟨p, x⟩, hmem, h⟩
    cases p with
    | nil => cases h
    | cons first rest =>
      cases h
      exact ⟨rest, x, hmem⟩
  · rintro ⟨rest, x, h⟩
    exact ⟨(name :: rest, x), h, rfl⟩

theorem nodup_listing : (listing t).Nodup :=
  (List.perm_insertionSort _ _).nodup_iff.mpr (List.nodup_dedup _)

theorem mem_listing_iff_child : name ∈ listing t ↔ child t name ≠ [] := by
  rw [mem_listing]
  constructor
  · rintro ⟨rest, x, h⟩
    exact List.ne_nil_of_mem (mem_child.mpr h)
  · intro h
    obtain ⟨⟨rest, x⟩, hmem⟩ := List.exists_mem_of_ne_nil _ h
    exact ⟨rest, x, mem_child.mp hmem⟩

theorem mem_pairs : (a, b) ∈ pairs t ↔ ∃ rest x, (a :: b :: rest, x) ∈ t := by
  simp only [pairs, List.mem_flatMap, List.mem_map, Prod.mk.injEq, mem_listing, mem_child]
  constructor
  · rintro ⟨_, _, _, ⟨rest, x, h⟩, rfl, rfl⟩
    exact ⟨rest, x, h⟩
  · rintro ⟨rest, x, h⟩
    exact ⟨a, ⟨b :: rest, x, h⟩, b, ⟨rest, x, h⟩, rfl, rfl⟩

theorem nodup_pairs : (pairs t).Nodup := by
  rw [pairs, List.nodup_flatMap]
  constructor
  · intro a _
    exact nodup_listing.map (Prod.mk_right_injective a)
  · apply nodup_listing.imp
    intro a a' hne p hp hp'
    obtain ⟨_, _, rfl⟩ := List.mem_map.mp hp
    obtain ⟨_, _, h⟩ := List.mem_map.mp hp'
    exact hne (congrArg Prod.fst h).symm

theorem countP_pairs [∀ first : ν, Decidable (first = a)] :
    (pairs t).countP (fun p => p.1 = a) = (listing (child t a)).length := by
  have hperm : ((pairs t).filter fun p => p.1 = a).Perm
      ((listing (child t a)).map (Prod.mk a)) := by
    apply (List.perm_ext_iff_of_nodup (nodup_pairs.filter _)
      (nodup_listing.map (Prod.mk_right_injective a))).mpr
    rintro ⟨a', b⟩
    simp only [List.mem_filter, mem_pairs, decide_eq_true_eq, List.mem_map, Prod.mk.injEq,
      mem_listing, mem_child]
    constructor
    · rintro ⟨⟨rest, x, h⟩, rfl⟩
      exact ⟨b, ⟨rest, x, h⟩, rfl, rfl⟩
    · rintro ⟨_, ⟨rest, x, h⟩, rfl, rfl⟩
      exact ⟨⟨rest, x, h⟩, rfl⟩
  rw [List.countP_eq_length_filter, hperm.length_eq, List.length_map]

theorem length_listing_le (h : ∀ a ∈ listing t, listing (child t a) ≠ []) :
    (listing t).length ≤ (pairs t).length := by
  have hsub : listing t ⊆ (pairs t).map Prod.fst := by
    intro a ha
    obtain ⟨b, hb⟩ := List.exists_mem_of_ne_nil _ (h a ha)
    exact List.mem_map.mpr ⟨(a, b), List.mem_flatMap.mpr ⟨a, ha, List.mem_map_of_mem hb⟩, rfl⟩
  have hle := (List.subperm_of_subset nodup_listing hsub).length_le
  rwa [List.length_map] at hle

theorem Proper.child (h : Proper t) : Proper (child t name) := by
  apply List.Pairwise.filterMap _ _ h
  intro e e' he p hp p' hp'
  rcases e with ⟨_ | ⟨first, rest⟩, x⟩
  · cases hp
  · rcases e' with ⟨_ | ⟨first', rest'⟩, x'⟩
    · cases hp'
    · simp only [Option.ite_none_right_eq_some, Option.some.injEq] at hp hp'
      obtain ⟨rfl, rfl⟩ := hp
      obtain ⟨rfl, rfl⟩ := hp'
      simpa [List.cons_prefix_cons] using he

theorem Proper.child_eq_iff (h : Proper t) : Files.child t a = [([], x)] ↔ ([a], x) ∈ t := by
  constructor
  · intro heq
    have hmem : ([], x) ∈ Files.child t a := heq ▸ List.mem_singleton_self _
    exact mem_child.mp hmem
  · intro hmem
    exact h.child.eq_file (mem_child.mpr hmem)

theorem Proper.child_child_eq_iff (h : Proper t) :
    Files.child (Files.child t a) b = [([], x)] ↔ ([a, b], x) ∈ t := by
  rw [h.child.child_eq_iff, mem_child]

/-- If every file is two names down, the paths are the pairs. -/
theorem Proper.perm_pairs (h : Proper t) (hlength : ∀ e ∈ t, e.1.length = 2) :
    (t.map Prod.fst).Perm ((pairs t).map fun p => [p.1, p.2]) := by
  have hinjective : Function.Injective fun p : ν × ν => [p.1, p.2] := by
    rintro ⟨a, b⟩ ⟨a', b'⟩ heq
    simpa using heq
  apply (List.perm_ext_iff_of_nodup h.nodup (nodup_pairs.map hinjective)).mpr
  intro path
  constructor
  · intro hpath
    obtain ⟨⟨path, x⟩, hmem, rfl⟩ := List.mem_map.mp hpath
    obtain ⟨a, b, hab⟩ := List.length_eq_two.mp (hlength _ hmem)
    obtain rfl : path = [a, b] := hab
    exact List.mem_map.mpr ⟨(a, b), mem_pairs.mpr ⟨[], x, hmem⟩, rfl⟩
  · intro hpath
    obtain ⟨⟨a, b⟩, hpair, rfl⟩ := List.mem_map.mp hpath
    obtain ⟨rest, x, hmem⟩ := mem_pairs.mp hpair
    have htwo := hlength _ hmem
    obtain rfl : rest = [] := List.length_eq_zero_iff.mp (by simpa using htwo)
    exact List.mem_map.mpr ⟨_, hmem, rfl⟩

end Names

/-! ### Empty directories -/

section Empty

variable {t : List (List ν × Option α)} {path : List ν} {x : α}

/-- The files, where the other paths end at directories that are empty. -/
def filesOf (t : List (List ν × Option α)) : List (List ν × α) :=
  t.filterMap fun e => e.2.map (Prod.mk e.1)

@[simp] theorem mem_filesOf : (path, x) ∈ filesOf t ↔ (path, some x) ∈ t := by
  simp only [filesOf, List.mem_filterMap, Option.map_eq_some_iff, Prod.mk.injEq]
  constructor
  · rintro ⟨⟨p, y⟩, hmem, _, rfl, rfl, rfl⟩
    exact hmem
  · intro h
    exact ⟨(path, some x), h, x, rfl, rfl, rfl⟩

theorem Proper.filesOf (h : Proper t) : Proper (filesOf t) := by
  apply List.Pairwise.filterMap _ _ h
  intro e e' he p hp p' hp'
  obtain ⟨_, -, rfl⟩ := Option.map_eq_some_iff.mp hp
  obtain ⟨_, -, rfl⟩ := Option.map_eq_some_iff.mp hp'
  exact he

variable [LinearOrder ν] {name : ν}

theorem filesOf_child : Files.filesOf (child t name) = child (Files.filesOf t) name := by
  induction t with
  | nil => rfl
  | cons e t ih =>
    obtain ⟨path, leaf⟩ := e
    by_cases hpath : ∃ rest, path = name :: rest
    · obtain ⟨rest, rfl⟩ := hpath
      cases leaf with
      | none => simpa [Files.filesOf] using ih
      | some x => simpa [Files.filesOf] using ih
    · have hne : ∀ rest, path ≠ name :: rest := fun rest hrest => hpath ⟨rest, hrest⟩
      rw [child_cons_of_ne hne, ih]
      cases leaf with
      | none => rfl
      | some x => exact (child_cons_of_ne hne).symm

theorem perm_pairs_filesOf (h : ∀ path, (path, none) ∈ t → path.length ≤ 1) :
    (pairs (Files.filesOf t)).Perm (pairs t) := by
  apply (List.perm_ext_iff_of_nodup nodup_pairs nodup_pairs).mpr
  rintro ⟨a, b⟩
  simp only [mem_pairs, mem_filesOf]
  constructor
  · rintro ⟨rest, x, hmem⟩
    exact ⟨rest, some x, hmem⟩
  · rintro ⟨rest, leaf, hmem⟩
    cases leaf with
    | none =>
      have hlength := h _ hmem
      simp at hlength
    | some x => exact ⟨rest, x, hmem⟩

end Empty

end Files
