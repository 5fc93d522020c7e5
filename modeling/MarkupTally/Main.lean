import MarkupTally.CommandLine.Census
import MarkupTally.Disk.Snapshot
import MarkupTally.Grammar.Program

/-! The command. The disk on which it counts a folder is described on standard input. -/

open MarkupTally

/-- All lines of a stream. -/
partial def readLines (stream : IO.FS.Stream) (before : String) : IO String := do
  let line ← stream.getLine
  if line.isEmpty then return before else readLines stream (before ++ line)

def main (args : List String) : IO UInt32 := do
  let input ← readLines (← IO.getStdin) ""
  match Json.load input with
  | .error e =>
    IO.eprintln ("The description of the disk is no JSON text: " ++ toString e)
    return 1
  | .ok disk =>
    let ending := CommandLine.Census.run parseSource (Snapshot.ofJson disk) args
    IO.print ending.out
    IO.eprint ending.err
    return ending.exit.toUInt32
