/-!
# Inspection texts

Every type of the memory manager that shows up in a report has two texts: a sentence for people,
which is its `ToString` instance, and the shape of the value, which is its `Inspect` instance.
This module holds the class and the one layout that all shapes of records share.
-/

namespace DemandPaging

/-- Types whose values can be shown as the value they are, constructor and fields included. -/
class Inspect (α : Type) where
  /-- The shape of a value. -/
  inspect : α → String

export Inspect (inspect)

instance : Inspect Nat := ⟨fun n => toString n⟩
instance : Inspect Bool := ⟨fun b => toString b⟩

namespace Inspect

/-- A text in double quotes; the texts shown this way hold nothing that needs escaping. -/
def quoted (s : String) : String := "\"" ++ s ++ "\""

/-- The fields of a record, `label: value`, separated by commas. -/
def fields (fs : List (String × String)) : String :=
  ", ".intercalate (fs.map fun (label, value) => label ++ ": " ++ value)

/-- A record with all its fields: `Name { a: 1, b: 2 }` in braces. -/
def record (name : String) (fs : List (String × String)) : String :=
  name ++ " \x7b " ++ fields fs ++ " \x7d"

/-- A record that has more fields than it shows; two dots stand for the rest. -/
def openRecord (name : String) (fs : List (String × String)) : String :=
  name ++ " \x7b " ++ fields fs ++ ", .. \x7d"

/-- A constructor applied to unnamed arguments: `Name(1, 2)`. -/
def applied (name : String) (args : List String) : String :=
  name ++ "(" ++ ", ".intercalate args ++ ")"

/-- The constructor at the head of a shape. -/
def constructor {α : Type} [Inspect α] (a : α) : String :=
  String.ofList ((inspect a).toList.takeWhile Char.isAlpha)

end Inspect

end DemandPaging
