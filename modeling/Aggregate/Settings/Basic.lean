import Aggregate.Build
import Aggregate.Event
import Aggregate.Record
import Aggregate.Decimal.Text

/-
  Settings

  A snapshot of the settings of a build, as devices exchange it before they
  exchange anything else. `Build.settings` is the snapshot of a build; a
  snapshot that comes from elsewhere may hold any values its fields have room
  for.
-/

namespace Aggregate

/-- A snapshot of the settings of a build. -/
structure Settings where
  system : SystemClass
  environment : Environment
  configuration : Configuration
  parallel : Bool
  synchronised : Bool
  exportNum : UInt8
  exportPtr : Bool
  onlineDrop : Bool
  messagePush : Bool
  valuePush : Bool
  warningTrace : Bool
  realBits : UInt32
  traceBits : UInt32
  deviceBits : UInt32
  hopsBits : UInt32
  realtime : Binary .double
  timeEpsilon : Binary .double
  threads : UInt64
  refreshRate : Binary .double
  antialias : UInt32
  sphericity : UInt32
  tailGranularity : UInt32
  fieldDrawLimit : UInt32
  deriving DecidableEq

/-- The snapshot of a build on a machine with so many threads. -/
def Build.settings (b : Build) (threads : UInt64) : Settings where
  system := b.system
  environment := b.environment
  configuration := b.configuration
  parallel := b.parallel
  synchronised := b.synchronised
  exportNum := .ofNat b.exportNum
  exportPtr := b.exportPointers
  onlineDrop := b.onlineDrop
  messagePush := b.messagePush
  valuePush := b.valuePush
  warningTrace := b.warnings
  realBits := .ofNat b.realBits
  traceBits := .ofNat b.traceWidth.bits
  deviceBits := .ofNat b.deviceWidth.bits
  hopsBits := .ofNat b.hopsWidth.bits
  realtime := b.widen b.realtime
  timeEpsilon := b.widen b.timeEpsilon
  threads := threads
  refreshRate := b.widen b.refreshRate
  antialias := .ofNat Build.antialias
  sphericity := .ofNat Build.sphericity
  tailGranularity := .ofNat Build.tailGranularity
  fieldDrawLimit := .ofNat Build.fieldDrawLimit

/-! ## Names of the classes -/

/-- The name of a system class in descriptions. -/
def SystemClass.text : SystemClass → String
  | .embedded => "Embedded"
  | .general => "General"

def Environment.text : Environment → String
  | .logical => "Logical"
  | .physical => "Physical"
  | .simulated => "Simulated"

def Configuration.text : Configuration → String
  | .standalone => "Standalone"
  | .dependent => "Dependent"

namespace Settings

/-! ## Comparing and describing -/

/-- Whether two snapshots agree. Real numbers are compared as numbers, so the zeros agree and what
is no number agrees with nothing. -/
def agrees (s t : Settings) : Bool :=
  s.realtime.equal t.realtime && s.timeEpsilon.equal t.timeEpsilon &&
    s.refreshRate.equal t.refreshRate &&
    decide (s = { t with
      realtime := s.realtime, timeEpsilon := s.timeEpsilon, refreshRate := s.refreshRate })

def text (s : Settings) : String :=
  recordText "Settings" [
    ("system", s.system.text),
    ("environment", s.environment.text),
    ("configuration", s.configuration.text),
    ("parallel", boolText s.parallel),
    ("synchronised", boolText s.synchronised),
    ("export_num", toString s.exportNum.toNat),
    ("export_ptr", boolText s.exportPtr),
    ("online_drop", boolText s.onlineDrop),
    ("message_push", boolText s.messagePush),
    ("value_push", boolText s.valuePush),
    ("warning_trace", boolText s.warningTrace),
    ("real_bits", toString s.realBits.toNat),
    ("trace_bits", toString s.traceBits.toNat),
    ("device_bits", toString s.deviceBits.toNat),
    ("hops_bits", toString s.hopsBits.toNat),
    ("realtime", s.realtime.text .describing),
    ("time_epsilon", s.timeEpsilon.text .describing),
    ("threads", toString s.threads.toNat),
    ("refresh_rate", s.refreshRate.text .describing),
    ("antialias", toString s.antialias.toNat),
    ("sphericity", toString s.sphericity.toNat),
    ("tail_granularity", toString s.tailGranularity.toNat),
    ("field_draw_limit", toString s.fieldDrawLimit.toNat)]

/-- The event that announces the settings of a running system. -/
def event (s : Settings) : Event :=
  ⟨.info, "fieldcalc_core::config", "fieldcalc settings", [
    ("system", s.system.text),
    ("environment", s.environment.text),
    ("configuration", s.configuration.text),
    ("parallel", boolText s.parallel),
    ("threads", toString s.threads.toNat),
    ("export_num", toString s.exportNum.toNat),
    ("trace_bits", toString s.traceBits.toNat),
    ("device_bits", toString s.deviceBits.toNat),
    ("hops_bits", toString s.hopsBits.toNat)]⟩

end Settings

end Aggregate
