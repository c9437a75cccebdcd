import CausalBlocks.CommandLine.Program

/-!
# The executable

Prints what `CausalBlocks.CommandLine.outcome` says and exits with its code.
-/

/-- Runs the program on its command line. -/
def main (args : List String) : IO UInt32 := do
  let outcome := CausalBlocks.CommandLine.outcome args
  outcome.output.forM IO.println
  outcome.complaint.forM IO.eprintln
  return UInt32.ofNat outcome.exitCode
