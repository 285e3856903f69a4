import DemandPaging.Error

/-!
# Address-space layout

The sections of an executable fill an address space from page 0 on without gaps. The stack follows,
and the last page holds the arguments:

    0 ── sections ── code pages ── stack ── argument page ── number of pages
-/

namespace DemandPaging

/-- Pages for arguments at the end of every address space. -/
def argumentPages : Nat := 1

/-- Bytes of a pointer to an argument. -/
def argumentPointerSize : Nat := 4

/-- Bytes that all arguments of a process may take together. -/
def maxArgumentBytes : Nat := argumentPages * pageSize

/-- The pages that 32-bit addresses reach. -/
def maxProcessPages : Nat := 0x40_0000

/-- Where the content of a page comes from when it is first touched. -/
inductive PageSource where
  | fromSection (index page : Nat)
  | zeroFill
  deriving DecidableEq

namespace PageSource

instance : Inspect PageSource where
  inspect
    | fromSection index page => Inspect.record "Section"
        [("section", inspect index), ("page", inspect page)]
    | zeroFill => "ZeroFill"

end PageSource

/-- The pages of one section: the number of the first and how many there are. -/
structure PageRange where
  first : Nat
  count : Nat
  deriving DecidableEq

namespace PageRange

/-- The first page after the range. -/
def stop (r : PageRange) : Nat := r.first + r.count

def contains (r : PageRange) (n : Nat) : Bool := r.first ≤ n && n < r.stop

def pages (r : PageRange) : List PageNumber := (List.range' r.first r.count).map PageNumber.ofNat

end PageRange

/-- An address space: the page ranges of the sections, the pages they fill together, and all pages
with stack and arguments. -/
structure Layout where
  ranges : List PageRange
  codePages : Nat
  numPages : Nat
  deriving DecidableEq

namespace Layout

/-- Place sections one after the other, the first of them, number `index`, at page `next`. Comes
back with the page after the last one. -/
def place : List Section → (index next : Nat) → Except (Stop VmError) (List PageRange × Nat)
  | [], _, next => .ok ([], next)
  | s :: rest, index, next =>
    if s.first.toNat ≠ next then
      .error (.error (.fragmentedExecutable index (.ofNatClamped next) s.first))
    else if sizeBound ≤ next + s.pages then .error (.violation .overflow)
    else do
      let (ranges, stop) ← place rest (index + 1) (next + s.pages)
      return (⟨next, s.pages⟩ :: ranges, stop)

/-- The layout of an executable with the given sections and number of stack pages. -/
def ofSections (sections : List Section) (stackPages : Nat) : Except (Stop VmError) Layout := do
  let (ranges, codePages) ← place sections 0 0
  let numPages := codePages + stackPages + argumentPages
  if sizeBound ≤ numPages then .error (.violation .overflow)
  else if maxProcessPages < numPages then
    .error (.error (.insufficientMemory numPages maxProcessPages))
  else .ok ⟨ranges, codePages, numPages⟩

def contains (l : Layout) (p : PageNumber) : Bool := p.toNat < l.numPages

/-- The page that holds the arguments, the last one. -/
def argumentPage (l : Layout) : PageNumber := .ofNat (l.numPages - argumentPages)

/-- The stack grows down from the argument page. -/
def stackTop? (l : Layout) : Option VirtualAddress := l.argumentPage.base?

/-- The first of the ranges, numbered from `index` on, that holds page `n`. -/
def sourceIn (n : Nat) : List PageRange → (index : Nat) → PageSource
  | [], _ => .zeroFill
  | r :: rs, index =>
    if r.contains n then .fromSection index (n - r.first) else sourceIn n rs (index + 1)

/-- Where the content of `p` comes from, if `p` is in the address space. -/
def source? (l : Layout) (p : PageNumber) : Option PageSource :=
  if l.contains p then some (sourceIn p.toNat l.ranges 0) else none

/-- The pages of one section in ascending order; none if there is no such section. -/
def sectionPages (l : Layout) (index : Nat) : List PageNumber :=
  match l.ranges[index]? with
  | none => []
  | some r => r.pages

end Layout

end DemandPaging
