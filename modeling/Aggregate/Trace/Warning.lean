import Aggregate.Event
import Aggregate.Trace.Basic

/-
  Warnings about lossy code points

  A reporting build announces every loss of information in a code point
  identifier: a value that does not fit its frame, a frame that wraps over
  older ones, and a salt that does not fit above the frames. The warnings of
  an operation depend on the trace before it and come in the order given here.
-/

namespace Aggregate

/-- A loss of information, with the values it is reported with. -/
inductive Warning where
  | frameTruncated (value size used : Nat)
  | frameWrapped (size used : Nat)
  | saltTruncated (salt used : Nat)
  deriving DecidableEq, Repr

def Warning.event : Warning → Event
  | .frameTruncated value size used =>
    ⟨.warn, "fieldcalc::trace", "trace frame truncated: code points may collide",
      [("value", toString value), ("size", toString size), ("used", toString used)]⟩
  | .frameWrapped size used =>
    ⟨.warn, "fieldcalc::trace", "trace frame wrapped: code points may collide",
      [("size", toString size), ("used", toString used)]⟩
  | .saltTruncated salt used =>
    ⟨.warn, "fieldcalc::trace", "code point salt truncated: hashes may collide",
      [("salt", toString salt), ("used", toString used)]⟩

namespace Trace

variable {w : Width}

/-- What a reporting build says about a frame pushed now. A push stopped at the size limit gets
no further than the first of the two checks. -/
def frameWarnings (t : Trace w) (value : Word w) (size : Nat) : List Warning :=
  (if lowMask size < value then [.frameTruncated value.toNat size t.used] else []) ++
  (if w.bits < t.used + size ∧ t.used + size < sizeLimit then [.frameWrapped size t.used] else [])

/-- What a reporting build says about a salt combined with the hash now. -/
def saltWarnings (t : Trace w) (salt : Word w) : List Warning :=
  if !t.isSaturated && decide (lowMask (w.bits - t.used) < salt) then
    [.saltTruncated salt.toNat t.used]
  else []

end Trace

end Aggregate
