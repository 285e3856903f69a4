import DemandPaging.Kernel.Machine

/-!
# Page faults

`Action.resolve` is one attempt to get at a page: it either pins the frame that holds the page,
brings the page in first if need be, or queues the call up if every frame is pinned. The attempt is
one critical section, so nothing else happens to the machine meanwhile.

A frame is filled with the copy of the page in swap if there is one, else with the page of the
executable, else with zeroes. Whether the access is permitted is decided before any frame is taken.
-/

namespace DemandPaging

/-- What an attempt to get at a page ends with. -/
inductive Grant where
  /-- The page lies in this frame, which has one pin more for the caller. -/
  | pinned (frame : FrameNumber)
  /-- Every frame is pinned; the caller has queued up. -/
  | queued (ticket : Ticket)
  deriving DecidableEq

namespace Action

/-! ## Eviction -/

/-- Save a dirty page of `owner` from frame `victim`. If that fails the mapping is put back as it
was. -/
def saveToSwap (owner : UserProcess) (page : PageNumber) (old : PageEntry) (victim : FrameNumber) :
    Action Unit := do
  let content ← frameBytes victim
  match (← get).kernel.swap.store (owner.pid, page) content.bytes with
  | .ok swap =>
    setSwap swap
    count fun s => { s with swapWrites := s.swapWrites + 1 }
  | .error e =>
    note (.evictionFailed victim owner.pid page e)
    changeTable owner fun t => (t.restore page old).mapError .error
    fail (.swap e)

/-- Take the frame `victim` from `owner`, who has `page` in it. -/
def unmapVictim (owner : UserProcess) (page : PageNumber) (victim : FrameNumber) : Action Unit := do
  let old := (← get).entryOf? owner page
  onTable owner fun t => (t.invalidate page).2
  match old with
  | none => violate (.notMapped owner.pid page victim)
  | some old =>
    if old.frame? = some victim then
      if old.dirty then saveToSwap owner page old victim
      note (.evicted owner.pid page victim old.dirty)
    else violate (.notMapped owner.pid page victim)

/-- Take the frame `victim` away from its owner and put it on the free list. A dirty page is saved
first; if that fails, the page stays where it is. -/
def evict (victim : FrameNumber) : Action Unit := do
  let info ← frameInfo victim
  match info.owner with
  | none => violate (.choseFree victim)
  | some pid =>
    if info.isPinned then violate (.chosePinned victim)
    else
      match (← get).process? pid with
      | none => violate (.ownerUnregistered victim pid)
      | some owner =>
        unmapVictim owner info.page victim
        release victim
        count fun s => { s with evictions := s.evictions + 1 }

/-! ## Bringing a page in -/

/-- Get a frame for a page: a free one, else the frame of a victim. `none` if every frame is
pinned. -/
def acquireFrame (p : UserProcess) (page : PageNumber) : Action (Option FrameNumber) := do
  match ← allocate p.pid page with
  | some f => return some f
  | none =>
    match ← selectVictim with
    | none => return none
    | some victim =>
      evict victim
      allocate p.pid page

/-- Fill a frame with the content of a page: the saved copy, else the initial content. -/
def populate (p : UserProcess) (page : PageNumber) (f : FrameNumber) : Action Unit := do
  match (← get).kernel.swap.load (p.pid, page) pageSize with
  | .error e => fail (.swap e)
  | .ok (some copy, swap) =>
    setSwap swap
    onMemory (·.setFrame f copy)
    count fun s => { s with swapReads := s.swapReads + 1 }
    note (.loadedFromSwap p.pid page)
  | .ok (none, _) =>
    match p.initialContent page with
    | .error e => throw e
    | .ok content => onMemory (·.setFrame f content)

/-- Run `x`, which fills or maps the frame `f`. If it ends with an error the frame goes back to the
free list. -/
def orGiveBack (f : FrameNumber) (x : Action Unit) : Action Unit :=
  tryCatch x fun
    | .violation v => violate v
    | .error e => do
      unpin f
      release f
      fail e

/-- Fill the pinned frame `f` with a page and map it. -/
def bringIn (p : UserProcess) (page : PageNumber) (f : FrameNumber) : Action Unit := do
  let referenced := (← get).kernel.config.referenceOnInstall
  note (.faultPopulate p.pid page f)
  orGiveBack f (populate p page f)
  note (.faultInstall p.pid page)
  orGiveBack f (changeTable p (·.install page f referenced))
  setReferenced f referenced
  count fun s => { s with faults := s.faults + 1 }
  note (.faultReady p.pid page f)

/-- Queue up for a frame. -/
def queueUp (p : UserProcess) (page : PageNumber) : Action Ticket := do
  let ticket ← onFrames fun t => .ok t.wait
  count fun s => { s with blocks := s.blocks + 1 }
  note (.waiting p.pid page)
  return ticket

/-- Serve a miss: get a frame and bring the page in, or queue up. -/
def serveMiss (p : UserProcess) (page : PageNumber) : Action Grant := do
  note (.faultMiss p.pid page)
  note (.faultAcquire p.pid page)
  match ← acquireFrame p page with
  | some f =>
    bringIn p page f
    return .pinned f
  | none => return .queued (← queueUp p page)

/-- The entry of a page that `p` may access in the given way. -/
def permittedEntry (p : UserProcess) (page : PageNumber) (kind : AccessKind) : Action PageEntry := do
  let m ← get
  if m.kernel.registry.contains p.pid then
    match m.entryOf? p page with
    | none => fail (.segmentationFault p.pid page)
    | some e =>
      if kind.isWrite && e.readOnly then fail (.readOnlyViolation p.pid page) else return e
  else fail (.processExited p.pid)

/-- One attempt to get at a page of `p` and pin its frame. -/
def resolve (p : UserProcess) (page : PageNumber) (kind : AccessKind) : Action Grant := do
  let e ← permittedEntry p page kind
  match e.frame? with
  | some f =>
    pin f
    setReferenced f true
    return .pinned f
  | none => serveMiss p page

end Action

end DemandPaging
