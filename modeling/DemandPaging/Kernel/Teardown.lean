import DemandPaging.Kernel.Machine

/-!
# Teardown

A process gives its memory back: it is no longer registered, its frames go to the free list in
ascending order, and its copies in swap are forgotten. Each frame given back wakes one waiter. A
frame of the process that is still pinned is a violation, which leaves the teardown half done.
-/

namespace DemandPaging.Action

/-- Give back frames that `p` owns, with the pages they hold. -/
def giveBack (p : UserProcess) : List (FrameNumber × PageNumber) → Action Unit
  | [] => pure ()
  | (f, page) :: rest => do
    onTable p fun t => (t.invalidate page).2
    release f
    wakeOne
    giveBack p rest

/-- Release all memory of a process. A second teardown finds nothing to do. -/
def tearDown (p : UserProcess) : Action Unit := do
  modify fun m => { m with kernel := { m.kernel with registry := m.kernel.registry.erase p.pid } }
  let owned := (← get).kernel.frames.ownedBy p.pid
  giveBack p owned
  setSwap ((← get).kernel.swap.discard p.pid)
  note (.tornDown p.pid owned.length)

end DemandPaging.Action
