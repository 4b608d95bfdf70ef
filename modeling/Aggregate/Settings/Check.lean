import Aggregate.Settings.Basic

/-
  Checking settings

  `Settings.validate` holds a snapshot against the domain of every setting and
  reports the first that lies outside. `Settings.ensureCompatible` lets two
  valid snapshots through if they agree on the widths that shape exchanged
  data.
-/

namespace Aggregate

/-- Why a snapshot is refused. -/
inductive Settings.Error where
  | unreadable
  | unwritable
  | invalid (setting value : String)
  | incompatible (setting ours theirs : String)
  deriving DecidableEq, Repr

def Settings.Error.message : Settings.Error → String
  | .unreadable => "failed to parse settings"
  | .unwritable => "failed to serialize settings"
  | .invalid setting value => "invalid value " ++ value ++ " for setting `" ++ setting ++ "`"
  | .incompatible setting ours theirs =>
    "incompatible setting `" ++ setting ++ "`: local " ++ ours ++ ", peer " ++ theirs

namespace Settings

/-- Refuse a setting whose value is not in order. -/
def require (setting : String) (valid : Bool) (value : String) : Except Error Unit :=
  if valid then .ok () else .error (.invalid setting value)

/-- Refuse a setting whose value is not among the allowed ones. -/
def oneOf (setting : String) (allowed : List Nat) (value : Nat) : Except Error Unit :=
  require setting (allowed.contains value) (toString value)

/-- Check every setting against its domain. -/
def validate (s : Settings) : Except Error Unit := do
  oneOf "export_num" [1, 2] s.exportNum.toNat
  oneOf "real_bits" [32, 64] s.realBits.toNat
  oneOf "trace_bits" [16, 64] s.traceBits.toNat
  oneOf "device_bits" [8, 16, 24, 32, 48, 64] s.deviceBits.toNat
  oneOf "hops_bits" [8, 16, 32] s.hopsBits.toNat
  require "threads" (s.threads != 0) (toString s.threads.toNat)
  let zero : Binary .double := .ofCode _ false 0
  require "time_epsilon" (zero.lessEq s.timeEpsilon) (s.timeEpsilon.text .plain)
  require "realtime" (zero.less s.realtime) (s.realtime.text .plain)
  require "antialias" (s.antialias != 0) (toString s.antialias.toNat)
  require "sphericity" (s.sphericity != 0) (toString s.sphericity.toNat)

/-- Refuse a setting on which two snapshots differ. -/
def same (setting : String) (ours theirs : UInt32) : Except Error Unit :=
  if ours = theirs then .ok ()
  else .error (.incompatible setting (toString ours.toNat) (toString theirs.toNat))

/-- Check that a peer with the given snapshot can exchange exports with this one. -/
def ensureCompatible (s peer : Settings) : Except Error Unit := do
  s.validate
  peer.validate
  same "trace_bits" s.traceBits peer.traceBits
  same "device_bits" s.deviceBits peer.deviceBits
  same "hops_bits" s.hopsBits peer.hopsBits
  same "real_bits" s.realBits peer.realBits

end Settings

end Aggregate
