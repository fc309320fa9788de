import Mathlib.Data.List.Basic
import Mathlib.Tactic.Common

/-! # Shell patterns

`fnmatch` on a POSIX host: `*` and `?`, and bracketed sets with ranges and negation.
A bracket that is never closed is an ordinary character, and a range whose ends are
the wrong way round is empty.
-/

namespace OrchKit

inductive Glob
  | literal (c : Char)
  | one
  | star
  | set (negated : Bool) (ranges : List (Char × Char))

namespace Glob

/-- The ranges of a bracket's contents: a dash joins its neighbours when it has both. -/
def ranges : List Char → List (Char × Char)
  | lo :: '-' :: hi :: rest => (lo, hi) :: ranges rest
  | c :: rest => (c, c) :: ranges rest
  | [] => []

/-- The contents of the bracket whose `[` has just been read, and what follows its `]`. A `]`
that comes first, or right after the `!`, belongs to the contents. -/
def bracket (pat : List Char) : Option (List Char × List Char) :=
  let head := match pat with
    | '!' :: ']' :: _ => 2
    | '!' :: _ => 1
    | ']' :: _ => 1
    | _ => 0
  let tail := pat.drop head
  match tail.dropWhile (· != ']') with
  | [] => none
  | _ :: rest => some (pat.take head ++ tail.takeWhile (· != ']'), rest)

def parse : ℕ → List Char → List Glob
  | 0, _ => []
  | _, [] => []
  | n + 1, '*' :: pat => star :: parse n pat
  | n + 1, '?' :: pat => one :: parse n pat
  | n + 1, '[' :: pat =>
    match bracket pat with
    | none => literal '[' :: parse n pat
    | some ('!' :: contents, rest) => set true (ranges contents) :: parse n rest
    | some (contents, rest) => set false (ranges contents) :: parse n rest
  | n + 1, c :: pat => literal c :: parse n pat

def accepts : List Glob → List Char → Bool
  | [], s => s.isEmpty
  | star :: gs, s => s.tails.any fun t => accepts gs t
  | _ :: _, [] => false
  | one :: gs, _ :: s => accepts gs s
  | literal c :: gs, d :: s => c == d && accepts gs s
  | set negated rs :: gs, d :: s =>
    (rs.any (fun r => decide (r.1 ≤ d ∧ d ≤ r.2)) != negated) && accepts gs s

end Glob

def fnmatch (name pat : String) : Bool :=
  Glob.accepts (Glob.parse pat.length pat.toList) name.toList

example : fnmatch "src/auth/login.py" "**/auth/**" = true := by decide

example : fnmatch "a-c" "a[!a-c]c" = true := by decide

end OrchKit
