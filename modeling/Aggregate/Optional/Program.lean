import Aggregate.Optional.Basic
import Aggregate.Registers

/-
  Programs over optional values

  A program acts on named registers of one kind, step by step. Each step shows
  a reading, and after it the contents of every register can be seen.
-/

namespace Aggregate.Optional

inductive Step (α : Type) where
  | new (r : String) (value : α)
  | default (r : String)
  | make (r : String) (value : α)
  | front (r : String)
  | length (r : String)
  | slice (r : String)
  | iterate (r : String)
  | alter (r : String) (change : α → α)
  | bump (r : String)
  | fill (r : String) (value : α)
  | get (r : String)
  | update (r : String) (change : α → α)
  | set (r : String) (value : α)
  | take (r : String)
  | clone (r target : String)
  | equal (r s : String)
  | swap (r s : String)
  | describe (r : String)
  | digest (r : String)

inductive Reading (α : Type) (w : Width) where
  | nothing
  | value (value : α)
  | values (values : List α)
  | iterated (owned borrowed : List α)
  | calls (count : Nat)
  | size (length : Nat) (isEmpty enabled : Bool)
  | count (items : Nat)
  | equality (equal : Bool)
  | text (value : String)
  | digest (value : Word w)
  | unavailable

abbrev Store (α : Type) (enabled : Bool) := Registers (Optional α enabled)

variable {α : Type} [Element α] {enabled : Bool} {w : Width}

/-- A reading of the register under a name; a name without a register shows nothing. -/
def readRegister (store : Store α enabled) (r : String)
    (reading : Optional α enabled → Reading α w) : Reading α w :=
  match store.get? r with
  | some o => reading o
  | none => .nothing

def changeRegister (store : Store α enabled) (r : String) (change : α → α) : Store α enabled :=
  match store.get? r with
  | some o => store.put r (o.map change)
  | none => store

/-- Change every stored value in place, and show how many there were. -/
def alterRegister (store : Store α enabled) (r : String) (change : α → α) :
    Store α enabled × Reading α w :=
  (changeRegister store r change, readRegister store r fun o => .count o.toList.length)

/-- The value of an enabled optional; of a disabled one it cannot even be asked. -/
def getReading : {enabled : Bool} → Optional α enabled → Reading α w
  | true, o => .value o.get
  | false, _ => .unavailable

/-- Change the value of an enabled optional, and show the new one. -/
def updateRegister (store : Store α enabled) (r : String) (change : α → α) :
    Store α enabled × Reading α w :=
  let changed := changeRegister store r change
  (changed, readRegister changed r getReading)

def Step.perform (w : Width) (step : Step α) (store : Store α enabled) :
    Store α enabled × Reading α w :=
  match step with
  | .new r value => (store.put r (.new enabled value), .nothing)
  | .default r => (store.put r (.new enabled Element.default), .nothing)
  | .make r value =>
    let made := Optional.make enabled (fun calls : Nat => (value, calls + 1)) 0
    (store.put r made.1, .calls made.2)
  | .front r => (store, readRegister store r fun o => .value o.front)
  | .length r => (store, readRegister store r fun o => .size o.length o.isEmpty enabled)
  | .slice r => (store, readRegister store r fun o => .values o.toList)
  | .iterate r => (store, readRegister store r fun o => .iterated o.toList o.toList)
  | .alter r change => alterRegister store r change
  | .bump r => alterRegister store r Element.bump
  | .fill r value => alterRegister store r fun _ => value
  | .get r => (store, readRegister store r getReading)
  | .update r change => updateRegister store r change
  | .set r value => updateRegister store r fun _ => value
  | .take r => (store.erase r, readRegister store r getReading)
  | .clone r target =>
    (match store.get? r with
      | some o => store.put target o
      | none => store, .nothing)
  | .equal r s =>
    (store, readRegister store r fun o => readRegister store s fun p => .equality (o.equal p))
  | .swap r s => (store.swap r s, .nothing)
  | .describe r => (store, readRegister store r fun o => .text o.text)
  | .digest r => (store, readRegister store r fun o => .digest (o.key.digest w))

/-- Run a program: what each step shows, and the registers after it. -/
def run (w : Width) : List (Step α) → Store α enabled → List (Reading α w × Store α enabled)
  | [], _ => []
  | step :: rest, store =>
    let r := step.perform w store
    (r.2, r.1) :: run w rest r.1

end Aggregate.Optional
