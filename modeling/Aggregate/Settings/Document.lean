import Aggregate.Settings.Check
import Aggregate.Toml.Document

/-
  Settings as documents

  A snapshot is published as a document with one line per setting.
  `Settings.render` writes it and `Settings.parse` reads it back and checks it.
  Reading asks only for the settings: their order does not matter, and other
  keys are passed over. A whole number may stand for a real one, and a class may
  be given as a table with its name as the only key.
-/

namespace Aggregate

/-- The name of a system class in documents. -/
def SystemClass.word : SystemClass → String
  | .embedded => "embedded"
  | .general => "general"

def Environment.word : Environment → String
  | .logical => "logical"
  | .physical => "physical"
  | .simulated => "simulated"

def Configuration.word : Configuration → String
  | .standalone => "standalone"
  | .dependent => "dependent"

/-- The system class of a name. -/
def SystemClass.ofWord? : String → Option SystemClass
  | "embedded" => some .embedded
  | "general" => some .general
  | _ => none

def Environment.ofWord? : String → Option Environment
  | "logical" => some .logical
  | "physical" => some .physical
  | "simulated" => some .simulated
  | _ => none

def Configuration.ofWord? : String → Option Configuration
  | "standalone" => some .standalone
  | "dependent" => some .dependent
  | _ => none

namespace Settings

/-! ## Writing -/

/-- What a line of the document assigns. -/
inductive Cell where
  | word (value : String)
  | flag (value : Bool)
  | count (value : Nat)
  | real (value : Binary .double)
  deriving DecidableEq

/-- The characters of what a line assigns. -/
def Cell.chars : Cell → List Char
  | .word value => '"' :: (value.toList ++ ['"'])
  | .flag value => (boolText value).toList
  | .count value => Decimal.digits value
  | .real value => value.chars .document

def cells (s : Settings) : List (String × Cell) := [
  ("system", .word s.system.word),
  ("environment", .word s.environment.word),
  ("configuration", .word s.configuration.word),
  ("parallel", .flag s.parallel),
  ("synchronised", .flag s.synchronised),
  ("export_num", .count s.exportNum.toNat),
  ("export_ptr", .flag s.exportPtr),
  ("online_drop", .flag s.onlineDrop),
  ("message_push", .flag s.messagePush),
  ("value_push", .flag s.valuePush),
  ("warning_trace", .flag s.warningTrace),
  ("real_bits", .count s.realBits.toNat),
  ("trace_bits", .count s.traceBits.toNat),
  ("device_bits", .count s.deviceBits.toNat),
  ("hops_bits", .count s.hopsBits.toNat),
  ("realtime", .real s.realtime),
  ("time_epsilon", .real s.timeEpsilon),
  ("threads", .count s.threads.toNat),
  ("refresh_rate", .real s.refreshRate),
  ("antialias", .count s.antialias.toNat),
  ("sphericity", .count s.sphericity.toNat),
  ("tail_granularity", .count s.tailGranularity.toNat),
  ("field_draw_limit", .count s.fieldDrawLimit.toNat)]

/-- A line that assigns to a key, with its end. -/
def lineChars (cell : String × Cell) : List Char :=
  cell.1.toList ++ " = ".toList ++ cell.2.chars ++ ['\n']

/-- The characters of the document of a snapshot. A document holds whole numbers in the signed
64-bit range only, so a greater number of threads cannot be written. -/
def renderChars (s : Settings) : Except Error (List Char) :=
  if (s.threads.toNat : Int) ≤ Toml.maxInteger then .ok (s.cells.flatMap lineChars)
  else .error .unwritable

def render (s : Settings) : Except Error String := s.renderChars.map String.ofList

/-! ## Reading -/

/-- A name: given as a text, or as the only key of a table whose value is empty. -/
def word? : Toml.Value → Option String
  | .text value => some value
  | .table [(key, .table [])] => some key
  | .table [(key, .array [])] => some key
  | _ => none

def flag? : Toml.Value → Option Bool
  | .boolean value => some value
  | _ => none

/-- A count below a bound. -/
def count? (bound : Nat) : Toml.Value → Option Nat
  | .integer value => if 0 ≤ value ∧ value < bound then some value.toNat else none
  | _ => none

/-- A count of eight bits. -/
def byte? (v : Toml.Value) : Option UInt8 := (count? UInt8.size v).map .ofNat

def number? (v : Toml.Value) : Option UInt32 := (count? UInt32.size v).map .ofNat

def size? (v : Toml.Value) : Option UInt64 := (count? UInt64.size v).map .ofNat

/-- A real number; a whole one is taken as the double nearest to it. -/
def real? : Toml.Value → Option (Binary .double)
  | .real value => some value
  | .integer value => some (.ofInt .double value)
  | _ => none

/-- The value of a setting among the values of a document, in the form asked for. -/
def setting? {α : Type} (values : List (String × Toml.Value)) (form : Toml.Value → Option α)
    (key : String) : Option α :=
  (values.lookup key).bind form

/-- The snapshot that the values of a document give; every setting must be among them. -/
def ofValues? (values : List (String × Toml.Value)) : Option Settings := do
  return {
    system := ← setting? values (fun v => (word? v).bind SystemClass.ofWord?) "system"
    environment := ← setting? values (fun v => (word? v).bind Environment.ofWord?) "environment"
    configuration :=
      ← setting? values (fun v => (word? v).bind Configuration.ofWord?) "configuration"
    parallel := ← setting? values flag? "parallel"
    synchronised := ← setting? values flag? "synchronised"
    exportNum := ← setting? values byte? "export_num"
    exportPtr := ← setting? values flag? "export_ptr"
    onlineDrop := ← setting? values flag? "online_drop"
    messagePush := ← setting? values flag? "message_push"
    valuePush := ← setting? values flag? "value_push"
    warningTrace := ← setting? values flag? "warning_trace"
    realBits := ← setting? values number? "real_bits"
    traceBits := ← setting? values number? "trace_bits"
    deviceBits := ← setting? values number? "device_bits"
    hopsBits := ← setting? values number? "hops_bits"
    realtime := ← setting? values real? "realtime"
    timeEpsilon := ← setting? values real? "time_epsilon"
    threads := ← setting? values size? "threads"
    refreshRate := ← setting? values real? "refresh_rate"
    antialias := ← setting? values number? "antialias"
    sphericity := ← setting? values number? "sphericity"
    tailGranularity := ← setting? values number? "tail_granularity"
    fieldDrawLimit := ← setting? values number? "field_draw_limit" }

/-- Read a snapshot and check it. -/
def parseChars (text : List Char) : Except Error Settings :=
  match (Toml.read text).bind ofValues? with
  | none => .error .unreadable
  | some s => s.validate.map fun _ => s

/-- Read a snapshot and check it. -/
def parse (text : String) : Except Error Settings := parseChars text.toList

end Settings

end Aggregate
