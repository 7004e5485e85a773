import ViewHost.Replay

/-!
# The command line

The program replays its session and writes what happens. It has no window to
show the session in; any other argument is ignored.
-/

open ViewHost

def main (args : List String) : IO UInt32 := do
  if args.contains "--window" then
    (← IO.getStderr).putStrLn "there is no window to run in"
    return 1
  (← IO.getStdout).putStr Replay.output
  return 0
