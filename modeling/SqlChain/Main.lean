import SqlChain.Command

/-!
The command line. It reads the file of a plan and prints lines; what the lines are is decided
elsewhere.
-/

open SqlChain

namespace SqlChain.Command

def fail (code : UInt32) (message : String) : IO UInt32 := do
  IO.eprintln ("Error: " ++ message)
  return code

def printAll (lines : List String) : IO UInt32 := do
  lines.forM fun line => IO.println line
  return 0

def run : Command → IO UInt32
  | .settings => printAll Config.default.lines
  | .render file options => do
    match Plan.ofText? (← IO.FS.readFile file) with
    | none => fail 1 ("invalid plan file " ++ file)
    | some plan =>
      match plan.render options with
      | .error e => fail 1 e.message
      | .ok lines => printAll lines

end SqlChain.Command

def main (args : List String) : IO UInt32 :=
  match Command.ofArgs args with
  | .error e => Command.fail 2 e.message
  | .ok command => command.run
