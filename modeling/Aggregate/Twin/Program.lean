import Aggregate.Twin.Basic
import Aggregate.Registers

/-
  Programs over twins

  A program acts on named registers of one layout, step by step. Each step
  shows a reading, and after it both values of every register can be seen.
-/

namespace Aggregate.Twin

inductive Step (α : Type) where
  | new (r : String) (value : α)
  | default (r : String)
  | build (r : String) (first second : α)
  | first (r : String)
  | second (r : String)
  | alterFirst (r : String) (change : α → α)
  | alterSecond (r : String) (change : α → α)
  | setFirst (r : String) (value : α)
  | setSecond (r : String) (value : α)
  | bumpFirst (r : String)
  | bumpSecond (r : String)
  | split (r : String) (first second : α)
  | layout (r : String)
  | clone (r target : String)
  | equal (r s : String)
  | swap (r s : String)
  | describe (r : String)
  | digest (r : String)

inductive Reading (α : Type) (w : Width) where
  | nothing
  | value (value : α)
  | pair (first second : α)
  | calls (count : Nat)
  | mirrored (value : Bool)
  | equality (equal : Bool)
  | text (value : String)
  | digest (value : Word w)
  | unavailable

abbrev Store (α : Type) (mirrors : Bool) := Registers (Twin α mirrors)

variable {α : Type} [Element α] {mirrors : Bool} {w : Width}

/-- A reading of the register under a name; a name without a register shows nothing. -/
def readRegister (store : Store α mirrors) (r : String) (reading : Twin α mirrors → Reading α w) :
    Reading α w :=
  match store.get? r with
  | some t => reading t
  | none => .nothing

def changeRegister (store : Store α mirrors) (r : String)
    (change : Twin α mirrors → Twin α mirrors) : Store α mirrors :=
  match store.get? r with
  | some t => store.put r (change t)
  | none => store

/-- Both cells at once: a mirrored twin cannot give them. -/
def splitReading : {mirrors : Bool} → Twin α mirrors → Reading α w
  | true, _ => .unavailable
  | false, t => .pair t.first t.second

def splitChange (a b : α) : {mirrors : Bool} → Twin α mirrors → Twin α mirrors
  | true, t => t
  | false, _ => .separate a b

def Step.perform (w : Width) (step : Step α) (store : Store α mirrors) :
    Store α mirrors × Reading α w :=
  match step with
  | .new r value => (store.put r (.new mirrors value), .nothing)
  | .default r =>
    (store.put r (Twin.build mirrors (fun s : Unit => (Element.default, s)) ()).1, .nothing)
  | .build r a b =>
    let made := Twin.build mirrors
      (fun calls : Nat => (if calls = 0 then a else b, calls + 1)) 0
    (store.put r made.1, .calls made.2)
  | .first r => (store, readRegister store r fun t => .value t.first)
  | .second r => (store, readRegister store r fun t => .value t.second)
  | .alterFirst r change => (changeRegister store r (changeFirst change), .nothing)
  | .alterSecond r change => (changeRegister store r (changeSecond change), .nothing)
  | .setFirst r value => (changeRegister store r (changeFirst fun _ => value), .nothing)
  | .setSecond r value => (changeRegister store r (changeSecond fun _ => value), .nothing)
  | .bumpFirst r => (changeRegister store r (changeFirst Element.bump), .nothing)
  | .bumpSecond r => (changeRegister store r (changeSecond Element.bump), .nothing)
  | .split r a b =>
    (changeRegister store r (splitChange a b), readRegister store r splitReading)
  | .layout _ => (store, .mirrored mirrors)
  | .clone r target =>
    (match store.get? r with
      | some t => store.put target t
      | none => store, .nothing)
  | .equal r s =>
    (store, readRegister store r fun t => readRegister store s fun u => .equality (t.equal u))
  | .swap r s => (store.swap r s, .nothing)
  | .describe r => (store, readRegister store r fun t => .text t.text)
  | .digest r => (store, readRegister store r fun t => .digest (t.key.digest w))

/-- Run a program: what each step shows, and the registers after it. -/
def run (w : Width) : List (Step α) → Store α mirrors → List (Reading α w × Store α mirrors)
  | [], _ => []
  | step :: rest, store =>
    let r := step.perform w store
    (r.2, r.1) :: run w rest r.1

end Aggregate.Twin
