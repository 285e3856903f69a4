import DemandPaging.Kernel.Machine

/-!
# Consistency of directory and page tables

The check passes if every frame is free or owned by a registered process that maps the recorded page
to it, and every mapping of a registered process leads to a frame that the directory records for
that page.
-/

namespace DemandPaging.Machine

/-- The first frame of `fs` whose owner is unknown or does not map the recorded page to it. -/
def firstStaleRecord (m : Machine) :
    List (FrameNumber × FrameInfo ProcessId) → Option InvariantError
  | [] => none
  | (f, i) :: fs =>
    match i.owner with
    | none => firstStaleRecord m fs
    | some owner =>
      match m.process? owner with
      | none => some (.unknownOwner f owner)
      | some p =>
        if (m.table p).translate? i.page = some f then firstStaleRecord m fs
        else some (.staleDirectoryEntry f owner i.page)

/-- The first of the mappings of `owner` that the directory does not record. A mapping to a frame
that does not exist is a violation. -/
def firstStaleMappingOf (m : Machine) (owner : ProcessId) :
    List (PageNumber × FrameNumber) → Except Violation (Option InvariantError)
  | [] => .ok none
  | (page, f) :: rest =>
    match m.frameInfo? f with
    | none => .error .outOfBounds
    | some i =>
      if i.owner = some owner ∧ i.page = page then firstStaleMappingOf m owner rest
      else .ok (some (.staleMapping f owner page))

/-- The first mapping of any of the processes that the directory does not record. -/
def firstStaleMapping (m : Machine) :
    List (ProcessId × UserProcess) → Except Violation (Option InvariantError)
  | [] => .ok none
  | (pid, p) :: rest => do
    match ← firstStaleMappingOf m pid (m.table p).resident with
    | some e => return some e
    | none => firstStaleMapping m rest

/-- The first disagreement between the parts of the machine, if there is one. -/
def check (m : Machine) : Except Violation (Option InvariantError) :=
  match m.kernel.frames.check with
  | .error e => .ok (some (.frameTable e))
  | .ok () =>
    match firstStaleRecord m m.kernel.frames.directory.toList with
    | some e => .ok (some e)
    | none => firstStaleMapping m m.kernel.registry.toList

end DemandPaging.Machine
