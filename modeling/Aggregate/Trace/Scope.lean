import Aggregate.Trace.Warning

/-
  Scoped regions

  A `Region` is what a program asks for: a frame for a named call, for a key or
  for a loop counter, or a fresh trace. Entering it yields a `Scope`, which
  remembers the depth at which its own frame lies and gives the frame back when
  it is left. A scope left or stepped while other frames lie on its own faults
  and touches nothing. Left while a panic unwinds, it does not look: it takes
  away whatever frame is on top.

  `Context` is what such a program acts on: the trace, the open scopes
  (innermost first), copies of traces kept under names, and the warnings not
  yet observed.
-/

namespace Aggregate

/-- A region that a program runs code in. -/
inductive Region (w : Width) where
  | call (tag : Word w)
  | apply (tag : Word w)
  | key (key : Word w)
  | cycle (start : Word w)
  | reset
  deriving DecidableEq, Repr

/-- An open region. `depth` counts the frames up to its own; an `apply` scope hands its body the
bare trace. -/
inductive Scope (w : Width) where
  | call (depth : Nat)
  | apply (depth : Nat)
  | key (depth : Nat)
  | cycle (depth : Nat) (counter : Word w)
  | reset
  deriving DecidableEq, Repr

/-- The depth that the scope expects, if it has a frame of its own. -/
def Scope.depth? {w : Width} : Scope w → Option Nat
  | .call depth | .apply depth | .key depth | .cycle depth _ => some depth
  | .reset => none

/-- The text of a scope over a trace. -/
def Scope.text {w : Width} (t : Trace w) : Scope w → String
  | .call depth => recordText "TraceCall" [("trace", t.text), ("depth", toString depth)]
  | .apply _ => t.text
  | .key depth => recordText "TraceKey" [("trace", t.text), ("depth", toString depth)]
  | .cycle depth counter =>
    recordText "TraceCycle"
      [("trace", t.text), ("depth", toString depth), ("i", toString counter.toNat)]
  | .reset => recordText "TraceReset" [("trace", t.text)]

/-- What a program over a trace acts on. -/
structure Context (w : Width) where
  trace : Trace w
  scopes : List (Scope w)
  slots : List (String × Trace w)
  pending : List Warning
  deriving DecidableEq, Repr

/-- What one step of a program leaves: the context, and a value or the fault that stopped it. -/
structure Step (w : Width) (α : Type) where
  context : Context w
  result : Except Fault α

namespace Context

variable {w : Width}

def onTrace (t : Trace w) : Context w := ⟨t, [], [], []⟩

/-- Put an outcome into the context and, in a reporting build, its warnings on record. -/
def accept (c : Context w) (reporting : Bool) (warnings : List Warning) (o : Outcome w) :
    Context w :=
  { c with trace := o.trace, pending := if reporting then c.pending ++ warnings else c.pending }

/-- The result of an outcome that has no value. -/
def done? : Option Fault → Except Fault Unit
  | none => .ok ()
  | some fault => .error fault

def pushFrame (reporting : Bool) (value : Word w) (size : Nat) (c : Context w) : Step w Unit :=
  let o := c.trace.pushFrame reporting value size
  ⟨c.accept reporting (c.trace.frameWarnings value size) o, done? o.fault⟩

def popFrame (c : Context w) : Step w Unit :=
  let o := c.trace.pop
  ⟨{ c with trace := o.trace }, done? o.fault⟩

/-- Push the frame of a scope, then open it: a push that faults opens nothing. -/
def pushScope (reporting : Bool) (value : Word w) (size : Nat) (scope : Nat → Scope w)
    (c : Context w) : Step w Unit :=
  match c.pushFrame reporting value size with
  | ⟨c, .ok ()⟩ => ⟨{ c with scopes := scope c.trace.depth :: c.scopes }, .ok ()⟩
  | ⟨c, .error fault⟩ => ⟨c, .error fault⟩

def enter (reporting : Bool) : Region w → Context w → Step w Unit
  | .call tag => pushScope reporting tag w.frameBits .call
  | .apply tag => pushScope reporting tag w.frameBits .apply
  | .key key => pushScope reporting key w.bits .key
  | .cycle start => pushScope reporting start w.frameBits (.cycle · start)
  | .reset => fun c => ⟨{ c with trace := .empty, scopes := .reset :: c.scopes }, .ok ()⟩

/-- Check that the frame of a scope is the one on top. -/
def balanced? (c : Context w) (depth : Nat) : Except Fault Unit :=
  if c.trace.depth = depth then .ok () else .error (.unbalanced c.trace.depth depth)

/-- Leave the innermost scope at the end of its body. -/
def leave (c : Context w) : Step w Unit :=
  match c.scopes with
  | [] => ⟨c, .ok ()⟩
  | scope :: outer =>
    let c := { c with scopes := outer }
    match scope.depth? with
    | none => ⟨{ c with trace := .empty }, .ok ()⟩
    | some depth =>
      match c.balanced? depth with
      | .ok () => c.popFrame
      | .error fault => ⟨c, .error fault⟩

/-- Leave the innermost scope while a panic unwinds. -/
def unwind (c : Context w) : Step w Unit :=
  match c.scopes with
  | [] => ⟨c, .ok ()⟩
  | scope :: outer =>
    let c := { c with scopes := outer }
    match scope.depth? with
    | none => ⟨{ c with trace := .empty }, .ok ()⟩
    | some _ => c.popFrame

/-- The counter of the innermost scope, if that is a cycle. -/
def counter? (c : Context w) : Option (Word w) :=
  match c.scopes with
  | .cycle _ counter :: _ => some counter
  | _ => none

/-- Put a new value into the innermost cycle: its frame is replaced by one for that value.
Where the frame is not on top nothing changes. No other scope can be stepped. -/
def rewrite (reporting : Bool) (step : Word w → Word w) (c : Context w) : Step w Unit :=
  match c.scopes with
  | .cycle depth counter :: outer =>
    match c.balanced? depth with
    | .error fault => ⟨c, .error fault⟩
    | .ok () =>
      match c.popFrame with
      | ⟨c, .error fault⟩ => ⟨c, .error fault⟩
      | ⟨c, .ok ()⟩ =>
        pushFrame reporting (step counter) w.frameBits
          { c with scopes := .cycle depth (step counter) :: outer }
  | _ => ⟨c, .ok ()⟩

/-- The text of the innermost scope, or of the trace where none is open. -/
def text (c : Context w) : String :=
  match c.scopes with
  | [] => c.trace.text
  | scope :: _ => scope.text c.trace

/-- Keep a copy of the trace under a name. -/
def save (slot : String) (c : Context w) : Context w :=
  { c with slots := (slot, c.trace) :: c.slots.filter (·.1 != slot) }

/-- The trace last kept under a name. -/
def slot? (c : Context w) (slot : String) : Option (Trace w) :=
  c.slots.lookup slot

/-- Overwrite the trace with the copy kept under a name. -/
def restore (slot : String) (c : Context w) : Context w :=
  match c.slot? slot with
  | none => c
  | some t => { c with trace := t }

end Context

end Aggregate
