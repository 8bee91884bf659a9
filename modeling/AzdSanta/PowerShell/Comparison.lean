import Mathlib.Data.List.DropRight
import AzdSanta.Python.Text

/-! Comparisons of strings in PowerShell. -/
namespace PowerShell
open Python

/-- Printable ASCII. -/
def isPrintable (c : ℕ) : Bool := 32 ≤ c && c < 127

def lowerAscii (c : ℕ) : ℕ := if 65 ≤ c ∧ c ≤ 90 then c + 32 else c

/-- `-eq` and `-ceq`, which compare by the rules of the invariant culture. -/
structure Comparison where
  /-- `-eq`. -/
  eq : Text → Text → Bool
  /-- `-ceq`. -/
  ceq : Text → Text → Bool
  refl : ∀ a, eq a a = true
  symm : ∀ a b, eq a b = true → eq b a = true
  trans : ∀ a b c, eq a b = true → eq b c = true → eq a c = true
  crefl : ∀ a, ceq a a = true
  /-- What is the same with its case is the same without. -/
  ceq_eq : ∀ a b, ceq a b = true → eq a b = true
  /-- Printable ASCII differs in more than its case or not at all. -/
  ascii : ∀ a b, a.all isPrintable → b.all isPrintable → eq a b = true → a.map lowerAscii = b.map lowerAscii
  cascii : ∀ a b, a.all isPrintable → b.all isPrintable → ceq a b = true → a = b

/-- `$property -eq value`, where the property can be null. -/
def Comparison.is (c : Comparison) (property : Option Text) (value : Text) : Bool := property.any fun s => c.eq s value

/-- `$property -ceq value`, where the property can be null. -/
def Comparison.isExactly (c : Comparison) (property : Option Text) (value : Text) : Bool :=
  property.any fun s => c.ceq s value

/-- Comparison of the characters, with ASCII letters folded for `-eq`. -/
def Comparison.ordinal : Comparison where
  eq a b := a.map lowerAscii = b.map lowerAscii
  ceq a b := a = b
  refl := by simp
  symm := by
    intro a b h
    simpa using (of_decide_eq_true h).symm
  trans := by
    intro a b c h h'
    simpa using (of_decide_eq_true h).trans (of_decide_eq_true h')
  crefl := by simp
  ceq_eq := by
    intro a b h
    obtain rfl := of_decide_eq_true h
    simp
  ascii := by
    intro a b _ _ h
    exact of_decide_eq_true h
  cascii := by
    intro a b _ _ h
    exact of_decide_eq_true h

/-- `[string] $property`. -/
def castString (property : Option Text) : Text := property.getD []

/-- `TrimEnd` of carriage returns and newlines. -/
def trimEnd (s : Text) : Text := s.rdropWhile fun c => c = 13 || c = 10

end PowerShell
