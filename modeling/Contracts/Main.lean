import Contracts.CommandLine.Reader

/-!
# Contracts.Main

The program: it hands its arguments and its environment to `CommandLine.execute`.
-/

def main (args : List String) : IO UInt32 := do
  let environment ← IO.getEnv Contracts.CommandLine.modeVariable
  let exit := Contracts.CommandLine.execute environment args
  IO.print exit.stdout
  IO.eprint exit.stderr
  return exit.code
