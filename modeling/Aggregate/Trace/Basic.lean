import Aggregate.Word
import Aggregate.Record

/-
  Trace of the code regions under way

  A `Trace` stands for the path of nested code regions that execution is in,
  as one word: the xor of the frames on its stack. A frame is placed at the
  first bit that the frames below it leave free, taken modulo the width, so
  below saturation the hash is the frames side by side and beyond it the
  frames overlap. Each frame keeps the bits it contributed, and popping xors
  them out again.

  The total size of the frames is counted in 32 bits. An operation that would
  carry it further stops with a fault, and `Outcome` says what it leaves
  behind.
-/

namespace Aggregate

/-- Why an operation on a trace was cut short. -/
inductive Fault where
  | emptyPop
  | sizeOverflow
  | unbalanced (actual expected : Nat)
  | raised (message : String)
  deriving DecidableEq, Repr

/-- The message a fault is reported with. -/
def Fault.message : Fault → String
  | .emptyPop => "pop on an empty trace: unbalanced push/pop"
  | .sizeOverflow => "attempt to add with overflow"
  | .unbalanced actual expected =>
    "assertion `left == right` failed: unbalanced trace: frames pushed inside a scope were not popped\n  left: "
      ++ toString actual ++ "\n right: " ++ toString expected
  | .raised message => message

/-- One entry of the stack: the bits it xors into the hash, and its nominal size. -/
structure Frame (w : Width) where
  bits : Word w
  size : Nat
  deriving DecidableEq, Repr

/-- The xor of the frames, their total size, and the frames themselves, top first. -/
structure Trace (w : Width) where
  hash : Word w
  used : Nat
  frames : List (Frame w)
  deriving DecidableEq, Repr

/-- What an operation leaves: a trace, and the fault that cut the operation short, if any. -/
structure Outcome (w : Width) where
  trace : Trace w
  fault : Option Fault
  deriving DecidableEq, Repr

namespace Trace

variable {w : Width}

def empty : Trace w := ⟨0, 0, []⟩

instance : Inhabited (Trace w) := ⟨empty⟩

def depth (t : Trace w) : Nat := t.frames.length

def isEmpty (t : Trace w) : Bool := t.frames.isEmpty

/-- Whether the frames fill the whole width, so that new ones wrap around. -/
def isSaturated (t : Trace w) : Bool := decide (w.bits ≤ t.used)

/-- The bound that the total size of the frames stays below. -/
def sizeLimit : Nat := UInt32.size

/-- The first bit of the next frame. -/
def offset (t : Trace w) : Nat := t.used % w.bits

/-- The hash together with a salt. The salt fills the bits above the frames; once these fill
the word it is xored in where the next frame would start. -/
def salted (t : Trace w) (salt : Word w) : Word w :=
  if t.isSaturated then t.hash ^^^ salt.rotateLeft t.offset
  else t.hash ||| (salt <<< t.used)

/-- The bits that a value pushed now contributes to the hash. -/
def placed (t : Trace w) (value : Word w) (size : Nat) : Word w :=
  (fold value size).rotateLeft t.offset

/-- Push a value as a frame of the given size. Where the total size would reach the limit the
push stops: a `reporting` build notices before it touches the trace, any other build has
already changed the hash. -/
def pushFrame (reporting : Bool) (t : Trace w) (value : Word w) (size : Nat) : Outcome w :=
  let hash := t.hash ^^^ t.placed value size
  if t.used + size < sizeLimit then
    ⟨⟨hash, t.used + size, ⟨t.placed value size, size⟩ :: t.frames⟩, none⟩
  else if reporting then ⟨t, some .sizeOverflow⟩
  else ⟨{ t with hash := hash }, some .sizeOverflow⟩

def push (reporting : Bool) (t : Trace w) (tag : Word w) : Outcome w :=
  t.pushFrame reporting tag w.frameBits

/-- Push a key that takes the whole width. -/
def pushWide (reporting : Bool) (t : Trace w) (key : Word w) : Outcome w :=
  t.pushFrame reporting key w.bits

def pop (t : Trace w) : Outcome w :=
  match t.frames with
  | [] => ⟨t, some .emptyPop⟩
  | frame :: below => ⟨⟨t.hash ^^^ frame.bits, t.used - frame.size, below⟩, none⟩

end Trace

/-! ## Texts -/

def Frame.text {w : Width} (f : Frame w) : String :=
  recordText "Frame" [("bits", toString f.bits.toNat), ("size", toString f.size)]

/-- The text of a trace, its frames listed from the bottom of the stack. -/
def Trace.text {w : Width} (t : Trace w) : String :=
  recordText "Trace" [("hash", toString t.hash.toNat), ("used", toString t.used),
    ("frames", sequenceText (t.frames.reverse.map Frame.text))]

end Aggregate
