import OrchKit.Data.Canonical
import OrchKit.Data.Json

/-! # How long a value is once it is written

The characters a value takes in JSON are counted part by part, so that the length of an object is
the sum of what its keys and its values take, in whatever order the keys are written.
-/

namespace Json

/-- Printable characters without quotes and backslashes, which no escape is needed for. -/
def isPlain (c : Char) : Bool := 32 ≤ c.toNat && c.toNat ≤ 126 && c ≠ '"' && c ≠ '\\'

def Plain (s : String) : Prop := ∀ c ∈ s.toList, isPlain c

instance (s : String) : Decidable (Plain s) := List.decidableBAll _ s.toList

theorem length_escape {c : Char} (h : isPlain c) : (escape c.toNat).length = 1 := by
  simp only [isPlain, Bool.and_eq_true, decide_eq_true_eq] at h
  obtain ⟨⟨⟨h₁, h₂⟩, hq⟩, hb⟩ := h
  have named : ∀ d : Char, c ≠ d → c.toNat ≠ d.toNat := fun d hd he => hd (Char.toNat_inj.mp he)
  have hn : c.toNat ≠ '\n'.toNat := by intro he; rw [he] at h₁; revert h₁; decide
  have hr : c.toNat ≠ '\r'.toNat := by intro he; rw [he] at h₁; revert h₁; decide
  have ht : c.toNat ≠ '\t'.toNat := by intro he; rw [he] at h₁; revert h₁; decide
  rw [escape, if_neg (named _ hq), if_neg (named _ hb), if_neg hn, if_neg hr, if_neg ht,
    if_neg (by omega), if_neg (by omega), if_pos ⟨h₁, h₂⟩]
  rfl

theorem length_flatMap_escape : ∀ {cs : List Char}, (∀ c ∈ cs, isPlain c) →
    ((cs.map Char.toNat).flatMap escape).length = cs.length
  | [], _ => rfl
  | c :: cs, h => by
    have hc := length_escape (h c List.mem_cons_self)
    have ih := length_flatMap_escape fun d hd => h d (List.mem_cons_of_mem c hd)
    rw [List.map_cons, List.flatMap_cons, List.length_append, hc, ih, List.length_cons]
    omega

theorem length_commas : ∀ parts : List (List Char),
    (commas parts).length = (parts.length - 1) + (parts.map List.length).sum
  | [] => rfl
  | [p] => by simp [commas]
  | p :: q :: parts => by
    have ih := length_commas (q :: parts)
    simp only [commas, List.intersperse_cons_cons, List.flatten_cons, List.length_append,
      List.length_cons, List.map_cons, List.sum_cons] at ih ⊢
    rw [ih]
    simp
    omega

/-- What an object with these keys takes besides its values. -/
def keyed (keys : List String) : ℕ :=
  2 + (keys.length - 1) + (keys.map fun k => 2 + k.length + 1).sum

section Write

variable (real : ℚ → List Char)

theorem writeFields_eq (fields : List (Text × Value)) :
    writeFields real fields = fields.map fun f => (f.1, f.2.write real) := by
  induction fields with
  | nil => rfl
  | cons f fields ih => rw [writeFields, ih, List.map_cons]

theorem length_write_obj (fields : List (Text × Value)) :
    ((Value.obj fields).write real).length = 2 + (fields.length - 1) +
      (fields.map fun f => f.1.write.length + 1 + (f.2.write real).length).sum := by
  -- The order the keys are sorted into has no part in the sum.
  have hperm := ((writeFields real fields).perm_insertionSort before).map
    fun f => f.1.write.length + 1 + f.2.length
  have hsum := hperm.sum_eq
  have hlen := List.length_insertionSort before (writeFields real fields)
  rw [writeFields_eq, List.map_map] at hsum
  rw [writeFields_eq, List.length_map] at hlen
  rw [Value.write, writeFields_eq]
  simp only [List.length_append, List.length_cons, List.length_nil, length_commas, List.map_map,
    List.length_map, hlen]
  have hbody : (List.map (List.length ∘ fun f : Text × List Char => f.1.write ++ ':' :: f.2)
      (List.insertionSort before (fields.map fun f => (f.1, f.2.write real)))).sum =
      (fields.map fun f => f.1.write.length + 1 + (f.2.write real).length).sum := by
    rw [show (fields.map fun f => f.1.write.length + 1 + (f.2.write real).length).sum = _ from
      hsum.symm]
    congr 1
    apply List.map_congr_left
    intro f _
    simp only [Function.comp_apply, List.length_append, List.length_cons]
    omega
  rw [hbody]
  omega

theorem length_write_text {s : String} (h : Plain s) :
    ((text s).write real).length = 2 + s.length := by
  rw [text, Value.write, Text.write, List.length_append, List.length_cons, Text.points,
    length_flatMap_escape h, String.length_toList]
  simp
  omega

theorem length_write_object {fields : List (String × Value)} (keys : List String)
    (hk : fields.map Prod.fst = keys) (h : ∀ k ∈ keys, Plain k) :
    ((object fields).write real).length =
      keyed keys + (fields.map fun f => (f.2.write real).length).sum := by
  subst hk
  have hsum : ((fields.map fun f => (Text.str f.1, f.2)).map fun f =>
      f.1.write.length + 1 + (f.2.write real).length).sum =
      (fields.map fun f => (2 + f.1.length + 1) + (f.2.write real).length).sum := by
    rw [List.map_map]
    congr 1
    apply List.map_congr_left
    intro f hf
    have hkey := length_write_text real (h f.1 (List.mem_map_of_mem hf))
    rw [text, Value.write] at hkey
    simp only [Function.comp_apply, hkey]
  rw [object, length_write_obj, hsum, List.sum_map_add, keyed, List.length_map, List.length_map,
    List.map_map, ← Nat.add_assoc]
  rfl

end Write

theorem length_writeInt (i : ℤ) : (writeInt i).length = Canonical.int i := by
  unfold writeInt Canonical.int Canonical.nat
  split
  · rw [List.length_cons, Nat.add_comm]
  · rw [Nat.zero_add]

theorem length_write_nat (real : ℚ → List Char) (n : ℕ) :
    ((Json.nat n).write real).length = Canonical.nat n := by
  rw [Json.nat, Value.write, length_writeInt]
  simp [Canonical.int]

end Json
