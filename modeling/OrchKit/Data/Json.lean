import Mathlib.Data.List.Lex
import Mathlib.Data.List.Sort
import Mathlib.Data.Rat.Defs

/-! # JSON values

The values of JSON and how they are written in ASCII with sorted keys and no spaces. Strings may
have code points that are no characters, as an escape can name a lone surrogate.
-/

namespace Json

/-- A string, or one with lone surrogates, as its code points. -/
inductive Text
  | str (s : String)
  | broken (points : List ℕ)
  deriving DecidableEq

def Text.points : Text → List ℕ
  | str s => s.toList.map Char.toNat
  | broken points => points

/-- An integer or a floating point number, which need not be finite. -/
inductive Number
  | int (i : ℤ)
  | real (q : ℚ)
  | infinite (negative : Bool)
  | nan
  deriving DecidableEq

/-- The number, if it is finite. -/
def Number.value : Number → ℚ
  | int i => i
  | real q => q
  | infinite _ | nan => 0

inductive Value
  | null
  | bool (b : Bool)
  | number (n : Number)
  | str (s : Text)
  | arr (values : List Value)
  | obj (fields : List (Text × Value))

def text (s : String) : Value := .str (.str s)

def nat (n : ℕ) : Value := .number (.int n)

def object (fields : List (String × Value)) : Value := .obj (fields.map fun f => (.str f.1, f.2))

def field (fields : List (Text × Value)) (name : String) : Option Value :=
  (fields.find? fun f => f.1 = .str name).map Prod.snd

def Value.get : Value → String → Option Value
  | .obj fields, name => field fields name
  | _, _ => none

def Value.text? : Value → Option String
  | .str (.str s) => some s
  | _ => none

def Value.int? : Value → Option ℤ
  | .number (.int i) => some i
  | _ => none

def Value.isNull : Value → Bool
  | .null => true
  | _ => false

def keysAre (fields : List (Text × Value)) (names : List String) : Bool :=
  fields.all (fun f => f.1 ∈ names.map Text.str) &&
    names.all fun name => .str name ∈ fields.map Prod.fst

mutual

/-- No object names a key twice. -/
def Value.unique : Value → Bool
  | .arr values => uniqueAll values
  | .obj fields => decide (fields.map Prod.fst).Nodup && uniqueFields fields
  | _ => true

def uniqueAll : List Value → Bool
  | [] => true
  | v :: vs => v.unique && uniqueAll vs

def uniqueFields : List (Text × Value) → Bool
  | [] => true
  | (_, v) :: fs => v.unique && uniqueFields fs

end

/-! ### Writing -/

def hexOf (n : ℕ) : List Char := List.leftpad 4 '0' (Nat.toDigits 16 n)

/-- A code point inside a string literal. -/
def escape (n : ℕ) : List Char :=
  if n = '"'.toNat then ['\\', '"']
  else if n = '\\'.toNat then ['\\', '\\']
  else if n = '\n'.toNat then ['\\', 'n']
  else if n = '\r'.toNat then ['\\', 'r']
  else if n = '\t'.toNat then ['\\', 't']
  else if n = 8 then ['\\', 'b']
  else if n = 12 then ['\\', 'f']
  else if 32 ≤ n ∧ n ≤ 126 then [Char.ofNat n]
  else if n ≤ 0xffff then '\\' :: 'u' :: hexOf n
  else '\\' :: 'u' :: hexOf (0xd800 + (n - 0x10000) / 0x400) ++
    '\\' :: 'u' :: hexOf (0xdc00 + (n - 0x10000) % 0x400)

def Text.write (t : Text) : List Char := '"' :: t.points.flatMap escape ++ ['"']

def writeInt (i : ℤ) : List Char :=
  if i < 0 then '-' :: Nat.toDigits 10 i.natAbs else Nat.toDigits 10 i.natAbs

def commas (parts : List (List Char)) : List Char := (parts.intersperse [',']).flatten

def before (f g : Text × List Char) : Prop := f.1.points ≤ g.1.points

instance : DecidableRel before := fun f g => inferInstanceAs (Decidable (f.1.points ≤ g.1.points))

section Write

variable (real : ℚ → List Char)

mutual

/-- A value in ASCII, when `real` writes the floating point numbers. -/
def Value.write : Value → List Char
  | .null => "null".toList
  | .bool b => (if b then "true" else "false").toList
  | .number (.int i) => writeInt i
  | .number (.real q) => real q
  | .number (.infinite negative) => (if negative then "-Infinity" else "Infinity").toList
  | .number .nan => "NaN".toList
  | .str s => s.write
  | .arr values => '[' :: commas (writeAll values) ++ [']']
  | .obj fields => '\x7b' :: commas (((writeFields fields).insertionSort before).map fun f =>
      f.1.write ++ ':' :: f.2) ++ ['\x7d']

def writeAll : List Value → List (List Char)
  | [] => []
  | v :: vs => v.write :: writeAll vs

def writeFields : List (Text × Value) → List (Text × List Char)
  | [] => []
  | (k, v) :: fs => (k, v.write) :: writeFields fs

end

end Write

example : Value.write (fun _ => []) (object [("b", nat 1), ("a", text "x\n")]) =
    "\x7b\"a\":\"x\\n\",\"b\":1\x7d".toList := by decide

end Json
