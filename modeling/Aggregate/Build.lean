import Aggregate.Word
import Aggregate.Decimal.Basic

/-
  Builds

  What a build of the runtime is made for, and every quantity that follows from
  it. A choice left open falls back to what the class of the system or the
  environment calls for; two choices of the same group cannot be made, since a
  group is one field.
-/

namespace Aggregate

inductive SystemClass where
  | embedded
  | general
  deriving DecidableEq, Repr

inductive Environment where
  | logical
  | physical
  | simulated
  deriving DecidableEq, Repr

/-- Whether a system depends on user or network interaction. -/
inductive Configuration where
  | standalone
  | dependent
  deriving DecidableEq, Repr

/-- Nominal widths of device identifiers. -/
inductive DeviceWidth where
  | d8
  | d16
  | d24
  | d32
  | d48
  | d64
  deriving DecidableEq, Repr

/-- Bits of an identifier as agreed between devices. -/
def DeviceWidth.bits : DeviceWidth → Nat
  | .d8 => 8
  | .d16 => 16
  | .d24 => 24
  | .d32 => 32
  | .d48 => 48
  | .d64 => 64

/-- Bits of the machine word that holds an identifier. -/
def DeviceWidth.wordBits : DeviceWidth → Nat
  | .d8 => 8
  | .d16 => 16
  | .d24 | .d32 => 32
  | .d48 | .d64 => 64

inductive HopsWidth where
  | h8
  | h16
  | h32
  deriving DecidableEq, Repr

def HopsWidth.bits : HopsWidth → Nat
  | .h8 => 8
  | .h16 => 16
  | .h32 => 32

/-- The choices a build is made with. `none` leaves a choice to the defaults. -/
structure Build where
  system : SystemClass := .general
  environment : Environment := .simulated
  configuration : Configuration := .standalone
  parallel? : Option Bool := none
  synchronised? : Option Bool := none
  separateExports? : Option Bool := none
  exportPointers? : Option Bool := none
  onlineDrop? : Option Bool := none
  messagePull : Bool := false
  valuePush : Bool := false
  traceWidth? : Option Width := none
  deviceWidth? : Option DeviceWidth := none
  hopsWidth? : Option HopsWidth := none
  warnings : Bool := false
  deriving DecidableEq, Repr

namespace Build

variable (b : Build)

/-- Whether the build is for low-end systems. -/
def isEmbedded : Bool := b.system == .embedded

def isLogical : Bool := b.environment == .logical

def isPhysical : Bool := b.environment == .physical

/-- Whether rounds are computed by parallel threads. -/
def parallel : Bool := b.parallel?.getD b.isLogical

/-- Whether many events are expected at the same time. -/
def synchronised : Bool := b.synchronised?.getD b.isLogical

/-- Whether a device keeps the export for itself apart from the one for its neighbours. -/
def separateExports : Bool := b.separateExports?.getD b.isPhysical

def exportNum : Nat := if b.separateExports then 2 else 1

/-- Whether the two exports of a device are one cell. -/
def mirroredExports : Bool := !b.separateExports

/-- Whether exports are handled through shared pointers. -/
def exportPointers : Bool := b.exportPointers?.getD (!b.isPhysical)

/-- Whether old messages are dropped as new ones arrive. -/
def onlineDrop : Bool := b.onlineDrop?.getD b.isPhysical

/-- Whether incoming messages are pushed. -/
def messagePush : Bool := !b.messagePull

def traceWidth : Width := b.traceWidth?.getD (if b.isEmbedded then .short else .long)

def deviceWidth : DeviceWidth := b.deviceWidth?.getD (if b.isEmbedded then .d16 else .d32)

def hopsWidth : HopsWidth := b.hopsWidth?.getD (if b.isEmbedded then .h8 else .h16)

def deviceMax : Nat := (BitVec.allOnes b.deviceWidth.wordBits).toNat

def hopsMax : Int := (BitVec.intMax b.hopsWidth.bits).toInt

def hopsMin : Int := (BitVec.intMin b.hopsWidth.bits).toInt

/-! ## Real numbers -/

def realFormat : Format := if b.isEmbedded then .single else .double

def realBits : Nat := b.realFormat.codeBits + 1

/-- A number of the format widened to a double. -/
def widen (x : Binary b.realFormat) : Binary .double := x.convert .double

/-- Factor of real time passing: real time is endless unless the system is tied to it. -/
def realtime : Binary b.realFormat :=
  if b.isPhysical || b.configuration == .dependent then .ofInt _ 1 else .infinity _ false

/-- Time differences below this are negligible. -/
def timeEpsilon : Binary b.realFormat := (⟨1, -2⟩ : Decimal).toBinary _ false

/-- Least refresh rate of graphical representations. -/
def refreshRate : Binary b.realFormat := (⟨1, -1⟩ : Decimal).toBinary _ false

/-- Whether two times are equal up to the negligible difference. -/
def timesClose (s t : Binary b.realFormat) : Bool :=
  s.equal t || (s.sub t).abs.less b.timeEpsilon

/-! ## Presentation -/

def antialias : Nat := 4

def sphericity : Nat := 10

def tailGranularity : Nat := 10

/-- Greatest number of elements displayed for a field. -/
def fieldDrawLimit : Nat := 8

end Build

end Aggregate
