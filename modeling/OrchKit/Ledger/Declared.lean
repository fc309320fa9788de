import OrchKit.Data.Python
import OrchKit.Ledger.Outside

/-! # Declared refusals

Code that checks values of JSON refuses with a `ValueError`, or raises what Python raises for a
value of the wrong type.
-/

namespace OrchKit

open Except Json

def ofFault : Fault → Exn
  | .valueError message => .value message
  | .typeError message => .other "TypeError" message
  | .overflowError message => .other "OverflowError" message
  | .recursionError message => .other "RecursionError" message

def raised {α : Type} : Except Fault α → Checked α
  | .ok a => .ok a
  | .error fault => .error (ofFault fault)

/-- `except ValueError` catches it. -/
def Declared (e : Exn) : Prop := ∃ message, e = .value message

section Declared

variable {α : Type} {kind message : String}

@[simp] theorem declared_value : Declared (.value message) := ⟨message, rfl⟩

@[simp] theorem not_declared_other : ¬ Declared (.other kind message) := by
  rintro ⟨_, h⟩
  cases h

@[simp] theorem declared_require {p : Prop} [Decidable p] :
    (require p (Exn.value message)).RaisesOnly Declared :=
  raisesOnly_require.mpr fun _ => declared_value

@[simp] theorem declared_ofOption {o : Option α} :
    (ofOption o (Exn.value message)).RaisesOnly Declared :=
  raisesOnly_ofOption.mpr fun _ => declared_value

@[simp] theorem declared_noneOf {xs : List α} {message : α → String} :
    (noneOf xs fun x => Exn.value (message x)).RaisesOnly Declared :=
  raisesOnly_noneOf fun _ => declared_value

theorem declared_raised {x : Except Fault α} :
    (raised x).RaisesOnly Declared ↔ x.RaisesOnly Fault.IsValueError := by
  cases x with
  | ok a => simp [raised]
  | error fault => cases fault <;> simp [raised, ofFault, Fault.IsValueError]

theorem raised_eq_ok_iff {x : Except Fault α} {a : α} : raised x = .ok a ↔ x = .ok a := by
  cases x <;> simp [raised]

theorem forall_passed_iff {x : Checked Unit} {p : Prop} :
    (∀ u, x = .ok u → p) ↔ (x = .ok () → p) :=
  ⟨fun h => h (), fun h _ => h⟩

@[simp] theorem declared_forM {f : α → Checked Unit} {xs : List α}
    (h : ∀ x, (f x).RaisesOnly Declared) : (forM xs f).RaisesOnly Declared :=
  raisesOnly_forM.mpr fun _ x _ _ _ => h x

end Declared

end OrchKit
