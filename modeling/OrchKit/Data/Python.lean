import Mathlib.Algebra.Group.Nat.Defs
import OrchKit.Data.Checked
import OrchKit.Data.Json

/-! # JSON values in Python

What Python makes of a value read from JSON where code does not look at its type first: which
values are equal, which can be members of a set, which convert to an integer, and what is raised
for the others. A `UnicodeEncodeError` is a `ValueError`; the other exceptions here are not.
-/

namespace Json

open Except

inductive Fault
  | valueError (message : String)
  | typeError (message : String)
  | overflowError (message : String)
  | recursionError (message : String)

/-- `except ValueError` catches it. -/
def Fault.IsValueError : Fault → Prop
  | valueError _ => True
  | _ => False

/-- What reading a text as JSON comes to; `malformed` covers what cannot be decoded. -/
inductive Parsed
  | value (v : Value)
  | malformed
  | fault (fault : Fault)

abbrev Fields := List (Text × Value)

/-- `fields.get(name)`. -/
def get (fields : Fields) (name : String) : Value := (field fields name).getD .null

/-- `fields.get(name, default)`. -/
def getD (fields : Fields) (name : String) (default : Value) : Value :=
  (field fields name).getD default

theorem getD_of_get {fields : Fields} {name : String} {default value : Value}
    (h : get fields name = value) (hnull : value ≠ .null) : getD fields name default = value := by
  rw [get] at h
  rw [getD]
  cases hfield : field fields name with
  | none =>
    rw [hfield] at h
    exact absurd h.symm hnull
  | some v =>
    rw [hfield] at h
    exact h

/-! ### Equality and membership -/

/-- What decides whether two values that can be members of a set are equal. Numbers are equal by
value and truth values are numbers; `NaN` is read as one object. -/
inductive Key
  | none
  | number (q : ℚ)
  | infinite (negative : Bool)
  | nan
  | text (t : Text)
  deriving DecidableEq

def Number.key : Number → Key
  | int i => .number i
  | real q => .number q
  | infinite negative => .infinite negative
  | nan => .nan

/-- The key of a value that is hashable. -/
def Value.key : Value → Option Key
  | .null => some .none
  | .bool b => some (.number (if b then 1 else 0))
  | .number n => some n.key
  | .str t => some (.text t)
  | .arr _ | .obj _ => none

def Value.hashable (v : Value) : Bool := v.key.isSome

def unhashable : Fault := .typeError "unhashable type"

/-- `len(values) == len(set(values))`. -/
def distinct (values : List Value) : Except Fault Bool :=
  if values.all Value.hashable then .ok (values.map Value.key).Nodup else .error unhashable

/-- The entry of a table of texts under a value, if `value in table`. -/
def Value.among {α : Type} (table : List (String × α)) (v : Value) : Except Fault (Option α) :=
  if v.hashable then .ok ((table.find? fun e => v.text? = some e.1).map Prod.snd)
  else .error unhashable

/-- `bool(v)`. -/
def Value.truthy : Value → Bool
  | .null => false
  | .bool b => b
  | .number n => n.key ≠ .number 0
  | .str t => t.points ≠ []
  | .arr values => !values.isEmpty
  | .obj fields => !fields.isEmpty

/-! ### Numbers -/

/-- The least integer that rounds to no floating point number. -/
def floatBound : ℕ := 2 ^ 1024 - 2 ^ 970

/-- The number is an integer beyond the floating point numbers. -/
def Number.unrepresentable : Number → Bool
  | int i => floatBound ≤ i.natAbs
  | _ => false

def Value.unrepresentable : Value → Bool
  | .number n => n.unrepresentable
  | _ => false

/-- `math.isfinite(n)`. -/
def Number.isFinite (n : Number) : Except Fault Bool :=
  if n.unrepresentable then .error (.overflowError "int too large to convert to float")
  else match n with
    | int _ | real _ => .ok true
    | infinite _ | nan => .ok false

/-- `int(v)`, where `parse` reads the text of an integer. -/
def Value.toInt (parse : Text → Option ℤ) : Value → Except Fault ℤ
  | .bool b => .ok (if b then 1 else 0)
  | .number (.int i) => .ok i
  | .number (.real q) => .ok (q.num.tdiv q.den)
  | .number (.infinite _) => .error (.overflowError "cannot convert float infinity to integer")
  | .number .nan => .error (.valueError "cannot convert float NaN to integer")
  | .str t =>
    match parse t with
    | some i => .ok i
    | none => .error (.valueError "invalid literal for int() with base 10")
  | .null | .arr _ | .obj _ => .error (.typeError "int() argument must be a string or a number")

/-- The conversion of the value to an integer raises something else than a `ValueError`. -/
def Value.inconvertible : Value → Bool
  | .null | .arr _ | .obj _ | .number (.infinite _) => true
  | _ => false

/-! ### What is raised -/

section Raised

variable {α : Type} {v : Value} {values : List Value} {n : Number}

theorem raisesOnly_distinct : (distinct values).RaisesOnly Fault.IsValueError ↔
    ∀ v ∈ values, v.hashable := by
  rw [distinct]
  split <;> simp_all [unhashable, Fault.IsValueError]

theorem raisesOnly_among {table : List (String × α)} :
    (v.among table).RaisesOnly Fault.IsValueError ↔ v.hashable := by
  rw [Value.among]
  split <;> simp_all [unhashable, Fault.IsValueError]

theorem raisesOnly_isFinite : n.isFinite.RaisesOnly Fault.IsValueError ↔ ¬ n.unrepresentable := by
  unfold Number.isFinite
  split
  · simp_all [Fault.IsValueError]
  · cases n <;> simp_all

theorem raisesOnly_toInt {parse : Text → Option ℤ} :
    (v.toInt parse).RaisesOnly Fault.IsValueError ↔ ¬ v.inconvertible := by
  cases v with
  | number n => cases n <;> simp [Value.toInt, Value.inconvertible, Fault.IsValueError]
  | str t =>
    cases h : parse t <;> simp [Value.toInt, Value.inconvertible, h, Fault.IsValueError]
  | null | bool _ | arr _ | obj _ => simp [Value.toInt, Value.inconvertible, Fault.IsValueError]

end Raised

def Text.shown : Text → String
  | str s => s
  | broken points => String.ofList (points.map Char.ofNat)

end Json
