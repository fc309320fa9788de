import Mathlib.Data.Nat.Notation
import OrchKit.Data.Checked

/-! # Lines of a stream

A stream is read in pieces and each line is handled once it is complete. However the pieces fall,
the lines that have been handled are those of the stream so far, and what waits for the rest of its
line is what comes after them.
-/

namespace Lines

variable {α β ε : Type} [DecidableEq α] {sep x : α} {p q : List α}

/-- The lines that are complete, and what comes after the last of them. -/
def cut (sep : α) : List α → List (List α) × List α
  | [] => ([], [])
  | x :: xs =>
    let (lines, rest) := cut sep xs
    if x = sep then ([] :: lines, rest)
    else match lines with
      | [] => ([], x :: rest)
      | line :: lines => ((x :: line) :: lines, rest)

theorem cut_append : cut sep (p ++ q) =
    ((cut sep p).1 ++ (cut sep ((cut sep p).2 ++ q)).1, (cut sep ((cut sep p).2 ++ q)).2) := by
  induction p with
  | nil => rfl
  | cons x xs ih =>
    by_cases h : x = sep
    · simp [cut, h, ih]
    · cases hxs : cut sep xs with
      | mk lines rest =>
        rw [hxs] at ih
        cases lines with
        | nil => simp [cut, h, hxs, ih]
        | cons line lines => simp [cut, h, hxs, ih]

variable (sep) (f : β → List α → Except ε β) (b : β)

/-- What handling the complete lines of a stream comes to. -/
def scan (p : List α) : Except ε β := (cut sep p).1.foldlM f b

variable {sep f b} {c : β} {m n : ℕ}

theorem scan_append : scan sep f b (p ++ q) =
    (scan sep f b p >>= fun c => (cut sep ((cut sep p).2 ++ q)).1.foldlM f c) := by
  rw [scan, cut_append, List.foldlM_append]
  rfl

theorem scan_take_ok {d : β} (h : m ≤ n) (hn : scan sep f b (p.take n) = .ok d) :
    ∃ c, scan sep f b (p.take m) = .ok c := by
  rw [← List.take_append_drop m (p.take n), List.take_take, Nat.min_eq_left h, scan_append,
    Except.bind_eq_ok_iff] at hn
  obtain ⟨c, hc, -⟩ := hn
  exact ⟨c, hc⟩

/-- If no line changes a value then nothing that is read after it does. -/
theorem scan_take_of_le (hstable : ∀ line d, f c line = .ok d → d = c) (h : m ≤ n)
    (hm : scan sep f b (p.take m) = .ok c) {d : β} (hn : scan sep f b (p.take n) = .ok d) :
    d = c := by
  have keeps : ∀ lines : List (List α), ∀ d, lines.foldlM f c = .ok d → d = c := by
    intro lines
    induction lines with
    | nil =>
      intro d hd
      exact (Except.pure_eq_ok_iff.mp hd).symm
    | cons line lines ih =>
      intro d hd
      rw [List.foldlM_cons, Except.bind_eq_ok_iff] at hd
      obtain ⟨c', hc', hd⟩ := hd
      obtain rfl := hstable line c' hc'
      exact ih d hd
  rw [← List.take_append_drop m (p.take n), List.take_take, Nat.min_eq_left h,
    scan_append, hm] at hn
  exact keeps _ d hn

end Lines
