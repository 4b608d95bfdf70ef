import Aggregate.Decimal.Text
import Aggregate.Key.Basic
import Aggregate.Record
import Aggregate.Text.Quoted

/-
  Elements

  What a container asks of the values it stores: a default, an equality, a
  readable text, the key that a sequence of them is digested as, and a small
  change that can be made in place. Equality need not be reflexive: a real that
  is no number differs from itself.
-/

namespace Aggregate

/-- What a container asks of its values. -/
class Element (α : Type) where
  default : α
  equal : α → α → Bool
  text : α → String
  sequenceKey : List α → Key
  bump : α → α

namespace Element

def equalAll {α : Type} [Element α] : List α → List α → Bool
  | [], [] => true
  | a :: as, b :: bs => equal a b && equalAll as bs
  | _, _ => false

end Element

/-- The key of a 64-bit integer. -/
def Key.int64 (n : Int64) : Key := .integer .w64 n.toBitVec

instance : Element Int64 where
  default := 0
  equal a b := a == b
  text n := toString n.toInt
  sequenceKey ns := .integers .w64 (ns.map Int64.toBitVec)
  bump n := n + 1

instance : Element UInt8 where
  default := 0
  equal a b := a == b
  text n := toString n.toNat
  sequenceKey ns := .integers .w8 (ns.map UInt8.toBitVec)
  bump n := n + 1

instance : Element String where
  default := ""
  equal a b := a == b
  text := quoted
  sequenceKey ss := .sequence (ss.map .text)
  bump s := s ++ "!"

instance : Element (List Int64) where
  default := []
  equal a b := a == b
  text ns := sequenceText (ns.map Element.text)
  sequenceKey vs := .sequence (vs.map Element.sequenceKey)
  bump ns := ns ++ [.ofNat ns.length]

instance : Element (Option Int64) where
  default := none
  equal a b := a == b
  text
    | none => "None"
    | some n => "Some(" ++ Element.text n ++ ")"
  sequenceKey os := .sequence (os.map fun
    | none => .absent
    | some n => .present (.int64 n))
  bump
    | none => some 0
    | some n => some (n + 1)

instance : Element (Binary .double) where
  default := .ofCode _ false 0
  equal := Binary.equal
  text x := x.text .describing
  sequenceKey xs := .sequence (xs.map fun x => .integer .w64 (BitVec.ofNat _ x.bits))
  bump x := x.add (.ofInt _ 1)

end Aggregate
