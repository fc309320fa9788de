import Mathlib.Algebra.BigOperators.Ring.List
import Mathlib.Algebra.Order.BigOperators.Group.List
import Mathlib.Algebra.Order.Ring.Nat

/-! # The size of canonical JSON

How many bytes a value takes as JSON in ASCII, with sorted keys and no spaces. A value
is described by the sizes of its parts, so that a bound on a record is a sum of bounds
on its fields.
-/

namespace Canonical

/-- A character inside a string literal: the printable ones as they are, the others escaped. -/
def charSize (c : Char) : ℕ :=
  if c = '"' ∨ c = '\\' ∨ c = '\n' ∨ c = '\r' ∨ c = '\t' ∨ c.toNat = 8 ∨ c.toNat = 12 then 2
  else if 32 ≤ c.toNat ∧ c.toNat ≤ 126 then 1
  else if c.toNat ≤ 0xffff then 6
  else 12

def chars (cs : List Char) : ℕ := 2 + (cs.map charSize).sum

def str (s : String) : ℕ := chars s.toList

def word (s : String) : ℕ := 2 + s.utf8ByteSize

def nat (n : ℕ) : ℕ := (Nat.toDigits 10 n).length

def int (i : ℤ) : ℕ := (if i < 0 then 1 else 0) + nat i.natAbs

def bool (b : Bool) : ℕ := if b then 4 else 5

def null : ℕ := 4

def arr (values : List ℕ) : ℕ := 2 + (values.length - 1) + values.sum

/-- An object of these keys, with values of these sizes. -/
def obj (fields : List (String × ℕ)) : ℕ :=
  2 + (fields.length - 1) + (fields.map fun f => word f.1 + 1 + f.2).sum

def utf8Size (s : String) : ℕ := (s.toList.map Char.utf8Size).sum

def frame (keys : List String) : ℕ := 2 + (keys.length - 1) + (keys.map fun k => word k + 1).sum

theorem obj_eq (fields : List (String × ℕ)) :
    obj fields = frame (fields.map Prod.fst) + (fields.map Prod.snd).sum := by
  rw [obj, frame, List.sum_map_add, List.length_map, List.map_map, ← Nat.add_assoc]
  rfl

theorem nat_le_of_lt {n : ℕ} (h : n < 2 ^ 64) : nat n ≤ 20 :=
  (Nat.length_toDigits_le_iff (by decide) (by decide)).mpr (lt_trans h (by decide))

theorem nat_le {n k : ℕ} (hk : 0 < k) (h : n < 10 ^ k) : nat n ≤ k :=
  (Nat.length_toDigits_le_iff (by decide) hk).mpr h

theorem nat_pos (n : ℕ) : 0 < nat n := Nat.length_toDigits_pos

theorem lt_pow_nat (n : ℕ) : n < 10 ^ nat n :=
  (Nat.length_toDigits_le_iff (by decide) (nat_pos n)).mp le_rfl

theorem nat_mono {m n : ℕ} (h : m ≤ n) : nat m ≤ nat n :=
  nat_le (nat_pos n) (lt_of_le_of_lt h (lt_pow_nat n))

theorem chars_le {cs : List Char} {f : Char → ℕ} (h : ∀ c ∈ cs, charSize c ≤ f c) :
    chars cs ≤ 2 + (cs.map f).sum :=
  Nat.add_le_add_left (List.sum_le_sum h) 2

theorem chars_le_length {cs : List Char} (h : ∀ c ∈ cs, charSize c ≤ 1) :
    chars cs ≤ 2 + cs.length := by
  have hs := chars_le h
  rwa [List.map_const', List.sum_replicate, nsmul_eq_mul, Nat.cast_id, Nat.mul_one] at hs

theorem charSize_of_printable {c : Char} (h : 32 ≤ c.toNat ∧ c.toNat ≤ 126) (hq : c ≠ '"')
    (hb : c ≠ '\\') : charSize c = 1 := by
  obtain ⟨h₁, h₂⟩ := h
  have hn : c ≠ '\n' := by rintro rfl; revert h₁; decide
  have hr : c ≠ '\r' := by rintro rfl; revert h₁; decide
  have ht : c ≠ '\t' := by rintro rfl; revert h₁; decide
  rw [charSize, if_neg, if_pos ⟨h₁, h₂⟩]
  simp only [hq, hb, hn, hr, ht, false_or, not_or]
  omega

/-- Control characters apart, a character takes at most three times its size in UTF-8. -/
theorem charSize_le {c : Char} (h : 32 ≤ c.toNat) (hd : c.toNat ≠ 127) :
    charSize c ≤ 3 * c.utf8Size := by
  have hpos := c.utf8Size_pos
  unfold charSize
  split
  · omega
  · split
    · omega
    · have hwide : c.utf8Size ≠ 1 := by
        rw [Ne, Char.utf8Size_eq_one_iff, UInt32.le_iff_toNat_le]
        change ¬ c.toNat ≤ 127
        omega
      split
      · omega
      · have hfour : c.utf8Size = 4 := by
          rw [Char.utf8Size_eq_four_iff, UInt32.lt_iff_toNat_lt]
          change 0xffff < c.toNat
          omega
        omega

theorem str_le_utf8Size {s : String} (h : ∀ c ∈ s.toList, 32 ≤ c.toNat ∧ c.toNat ≠ 127) :
    str s ≤ 2 + 3 * utf8Size s := by
  have hs := chars_le fun c hc => charSize_le (h c hc).1 (h c hc).2
  rwa [List.sum_map_mul_left] at hs

end Canonical
