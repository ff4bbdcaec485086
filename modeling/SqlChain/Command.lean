import SqlChain.Plan.Basic

/-!
# Commands

The words of a command line ask for the statement of a plan or for a list of the settings. Reading
them needs no file: a command only names the file that holds its plan.
-/

namespace SqlChain

inductive Command where
  /-- Render the plan in a file. -/
  | render (file : String) (options : Plan.Options)
  /-- List the settings with their defaults. -/
  | settings
deriving DecidableEq, Repr

/-- Why the words of a command line are refused. -/
inductive UsageFault where
  | noCommand
  | unknownCommand (word : String)
  | unknownOption (word : String)
  | noValue (option : String)
  | badValue (option value : String)
  | noPlan
deriving DecidableEq, Repr

namespace UsageFault

def message : UsageFault → String
  | .noCommand => "expected a command: render or settings"
  | .unknownCommand word => "unrecognized command '" ++ word ++ "'"
  | .unknownOption word => "unexpected argument '" ++ word ++ "'"
  | .noValue option => "a value is required for '" ++ option ++ "'"
  | .badValue option value => "invalid value '" ++ value ++ "' for '" ++ option ++ "'"
  | .noPlan => "a value is required for '--plan'"

end UsageFault

namespace Command

/-- The options of a rendering that were read so far. -/
structure Draft where
  file : Option String
  options : Plan.Options

namespace Draft

def empty : Draft where
  file := none
  options := { dialect := none, mode := .plain, strictness := ⟨false, false⟩ }

/-- The draft with an option that takes no value, unless the word is none of those. -/
def withFlag? (d : Draft) (word : String) : Option Draft :=
  let strict (s : Strictness) : Draft := { d with options := { d.options with strictness := s } }
  match word with
  | "--strict-sql" => some (strict { d.options.strictness with sql := true })
  | "--strict-numeric" => some (strict { d.options.strictness with numeric := true })
  | _ => none

/-- The draft with an option that takes a value. -/
def withValue (d : Draft) (option value : String) : Except UsageFault Draft :=
  match option with
  | "--plan" => .ok { d with file := some value }
  | "--dialect" =>
    match Backend.ofText? value with
    | some backend => .ok { d with options := { d.options with dialect := some backend } }
    | none => .error (.badValue option value)
  | "--mode" =>
    match Mode.ofName? value with
    | some mode => .ok { d with options := { d.options with mode } }
    | none => .error (.badValue option value)
  | _ => .error (.unknownOption option)

def read (d : Draft) : List String → Except UsageFault Draft
  | [] => .ok d
  | [word] =>
    match d.withFlag? word with
    | some d => .ok d
    | none =>
      if word ∈ ["--plan", "--dialect", "--mode"] then .error (.noValue word)
      else .error (.unknownOption word)
  | word :: value :: rest =>
    match d.withFlag? word with
    | some d => d.read (value :: rest)
    | none => do (← d.withValue word value).read rest

end Draft

/-- The command that the words of a command line stand for. -/
def ofArgs : List String → Except UsageFault Command
  | [] => .error .noCommand
  | ["settings"] => .ok .settings
  | "settings" :: word :: _ => .error (.unknownOption word)
  | "render" :: words => do
    let draft ← Draft.empty.read words
    match draft.file with
    | some file => return .render file draft.options
    | none => throw .noPlan
  | word :: _ => .error (.unknownCommand word)

end Command

end SqlChain
