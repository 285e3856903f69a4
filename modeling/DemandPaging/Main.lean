import DemandPaging.Simulator

/-!
# The command line of the simulator

    vmsim [frames] [processes] [pages] [rounds] [--eager] [-v|-vv]
-/

/-- Run the simulator and print its report. -/
def main (args : List String) : IO UInt32 := do
  let report := DemandPaging.Simulator.reportOn args
  for message in report.messages do
    IO.eprintln message
  return UInt32.ofNat report.status
