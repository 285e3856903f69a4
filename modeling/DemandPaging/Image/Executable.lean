import DemandPaging.Page
import DemandPaging.Violation

/-!
# Executables

The memory manager never parses an executable. It knows its sections, asks for the content of one
page of one section, and asks whether a section is read-only.
-/

namespace DemandPaging

/-- Why the content of a page cannot be had from an executable. -/
inductive LoadError where
  | noSuchSection (index : Nat)
  | pageOutOfRange (index page : Nat)
  deriving DecidableEq

namespace LoadError

def message : LoadError → String
  | noSuchSection index => s!"no section {index}"
  | pageOutOfRange index page => s!"section {index} has no page {page}"

instance : ToString LoadError := ⟨message⟩

instance : Inspect LoadError where
  inspect
    | noSuchSection index => Inspect.applied "NoSuchSection" [inspect index]
    | pageOutOfRange index page => Inspect.record "PageOutOfRange"
        [("section", inspect index), ("page", inspect page)]

end LoadError

/-- One loadable section: the page it starts at and its length in pages. -/
structure Section where
  name : String
  first : PageNumber
  pages : Nat
  readOnly : Bool
  deriving DecidableEq

/-- What the memory manager knows of an executable. Sections are named by their index. -/
structure Executable where
  sections : List Section
  entry : VirtualAddress
  /-- The content of a page of a section. -/
  page : Nat → Nat → Except (Stop LoadError) Page
  /-- Whether a section is mapped read-only. -/
  readOnly : Nat → Bool

namespace Executable

/-- An executable with one writable section of `pages` pages of zeroes. -/
def zeroes (name : String) (pages : Nat) : Executable where
  sections := [⟨name, ⟨0⟩, pages, false⟩]
  entry := .zero
  page index k :=
    if index ≠ 0 then .error (.error (.noSuchSection index))
    else if sizeBound ≤ k * pageSize then .error (.violation .overflow)
    else if pages ≤ k then .error (.error (.pageOutOfRange index k))
    else .ok Page.zero
  readOnly _ := false

end Executable

end DemandPaging
