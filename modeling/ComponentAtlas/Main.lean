import ComponentAtlas.Command.Bundle

/-!
# The program

The arguments name a command, and standard input holds the bundle of files that it runs on.
-/

/-- The whole text of a stream. -/
partial def readAll (input : IO.FS.Stream) (soFar : String) : IO String := do
  let line ← input.getLine
  if line.isEmpty then return soFar
  readAll input (soFar ++ line)

def main (args : List String) : IO UInt32 := do
  let bundle ← readAll (← IO.getStdin) ""
  let outcome := ComponentAtlas.Outcome.ofBundle args bundle
  (← IO.getStdout).putStr outcome.stdout
  (← IO.getStderr).putStr outcome.stderr
  return outcome.code.toUInt32
