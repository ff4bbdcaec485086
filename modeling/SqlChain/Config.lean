import SqlChain.Scalar.Reading

/-!
# Settings

A configuration has three settings. Each can be read and written by its name as a scalar. A chunk
size is checked when it is written by name; one that came in another way is checked by `validate`.
What writes to settings gives them back as they are then, also where it fails.
-/

namespace SqlChain

structure Config where
  /-- The most rows that are fetched in one page. -/
  chunkSize : UInt64
  /-- Whether a function that is not known is an error. -/
  strictSql : Bool
  /-- Whether every number is written with a decimal point. -/
  strictNumeric : Bool
deriving DecidableEq, Repr

inductive Setting where
  | chunkSize | strictNumeric | strictSql
deriving DecidableEq, Repr

namespace Setting

/-- Every setting, sorted by name. -/
def all : List Setting := [.chunkSize, .strictNumeric, .strictSql]

def name : Setting → String
  | .chunkSize => "chunk_size"
  | .strictNumeric => "strict_numeric"
  | .strictSql => "strict_sql"

def description : Setting → String
  | .chunkSize => "Maximum number of rows fetched per page"
  | .strictNumeric => "Render numeric literals with an explicit decimal point"
  | .strictSql => "Error on functions without a known translation"

def ofName? (name : String) : Option Setting := all.find? (·.name == name)

theorem ofName?_name (s : Setting) : ofName? s.name = some s := by cases s <;> decide

def ofName (name : String) : Except Error Setting :=
  match ofName? name with
  | some setting => .ok setting
  | none => .error (.invalidSetting (.unknownSetting name))

end Setting

namespace Config

def default : Config := { chunkSize := 10000, strictSql := false, strictNumeric := false }

def leastChunkSize : Nat := 1

def mostChunkSize : Nat := 1000000

def checkChunkSize (n : UInt64) : Except Error Unit :=
  if n.toNat < leastChunkSize then .error (.invalidSetting (.chunkTooSmall leastChunkSize))
  else if mostChunkSize < n.toNat then .error (.invalidSetting (.chunkTooLarge mostChunkSize))
  else .ok ()

def validate (c : Config) : Except Error Unit := checkChunkSize c.chunkSize

def read (c : Config) : Setting → Scalar
  | .chunkSize => .int64 c.chunkSize.toInt64
  | .strictNumeric => .boolean c.strictNumeric
  | .strictSql => .boolean c.strictSql

/-- The settings after a value was written to one of them, and whether it was taken. A chunk size is
checked before it is stored. -/
def write (c : Config) (value : Scalar) : Setting → Config × Except Error Unit
  | .chunkSize =>
    match value.asNatural with
    | .error e => (c, .error e)
    | .ok n =>
      match checkChunkSize n with
      | .error e => (c, .error e)
      | .ok () => ({ c with chunkSize := n }, .ok ())
  | .strictNumeric =>
    match value.asBool with
    | .error e => (c, .error e)
    | .ok b => ({ c with strictNumeric := b }, .ok ())
  | .strictSql =>
    match value.asBool with
    | .error e => (c, .error e)
    | .ok b => ({ c with strictSql := b }, .ok ())

def get (c : Config) (name : String) : Except Error Scalar := do
  return c.read (← Setting.ofName name)

/-- Write to the setting of this name, if there is one, the value that is meant for it. -/
def writeNamed (c : Config) (name : String) (value : Setting → Scalar) :
    Config × Except Error Unit :=
  match Setting.ofName name with
  | .error e => (c, .error e)
  | .ok setting => c.write (value setting) setting

def set (c : Config) (name : String) (value : Scalar) : Config × Except Error Unit :=
  c.writeNamed name fun _ => value

def reset (c : Config) (name : String) : Config × Except Error Unit :=
  c.writeNamed name default.read

def list (c : Config) : List (Setting × Scalar) := Setting.all.map fun s => (s, c.read s)

end Config

/-- Which of the strict settings a command turns on. It turns none of them off. -/
structure Strictness where
  sql : Bool
  numeric : Bool
deriving DecidableEq, Repr

namespace Strictness

def apply (s : Strictness) (c : Config) : Config :=
  { c with
    strictSql := s.sql || c.strictSql
    strictNumeric := s.numeric || c.strictNumeric }

/-- Turning a strict setting on is writing it by its name. -/
theorem set_strictSql (c : Config) :
    c.set Setting.strictSql.name (.boolean true) = (apply ⟨true, false⟩ c, .ok ()) := rfl

theorem set_strictNumeric (c : Config) :
    c.set Setting.strictNumeric.name (.boolean true) = (apply ⟨false, true⟩ c, .ok ()) := rfl

end Strictness

/-- Settings given to a command that fetches rows. -/
structure Flags where
  strictness : Strictness
  chunkSize : Option UInt64
deriving DecidableEq, Repr

namespace Flags

/-- The settings afterwards, and whether the chunk size was taken. A chunk size that is refused
changes nothing; the strict settings are turned on all the same. -/
def apply (flags : Flags) (c : Config) : Config × Except Error Unit :=
  let c := flags.strictness.apply c
  match flags.chunkSize with
  | none => (c, .ok ())
  | some n => c.set Setting.chunkSize.name (.int64 n.toInt64)

end Flags

end SqlChain
