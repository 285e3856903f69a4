import DemandPaging.Kernel.Machine

/-!
# The content of an address space

What a process finds in a page does not depend on where the page lies. A resident page lies in its
frame. Any other page lies in swap if a copy of it was saved, and otherwise it still is what the
executable, or the zero fill, provides. Paging moves a page from one of these places to another;
only a write changes what the process finds in it.
-/

namespace DemandPaging.Machine

/-- The content of a page that is not resident: the saved copy, else the initial content. -/
def storedContent? (m : Machine) (p : UserProcess) (page : PageNumber) : Option Page :=
  (m.kernel.swap.copy? (p.pid, page)).or (p.initialContent page).toOption

/-- The content of a page of `p`, wherever it lies. A page outside the address space has none, and
neither has a page that its executable cannot provide. -/
def content? (m : Machine) (p : UserProcess) (page : PageNumber) : Option Page :=
  match m.entryOf? p page with
  | none => none
  | some e =>
    match e.frame? with
    | some f => m.kernel.memory.frames[f.toNat]?
    | none => m.storedContent? p page

/-- The byte that `p` finds at an address. -/
def byte? (m : Machine) (p : UserProcess) (a : VirtualAddress) : Option UInt8 :=
  (m.content? p a.page).bind fun content => content.bytes[a.offset.toNat]?

end DemandPaging.Machine
