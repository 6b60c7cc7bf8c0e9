import EntityQuery.Formula.Basic
import EntityQuery.Json.Basic

/-!
# Outlines of formulas

An outline shows what a formula is made of: for each node an array with its kind, a number that
tells about the node where there is one, and the outlines of its parts. Shared parts are shown
wherever they stand.
-/

namespace EntityQuery.Formula

/-- The kind of a node. -/
def kind : Formula → String
  | empty .. => "empty"
  | constant .. => "constant"
  | index .. => "index"
  | and .. => "and"
  | or .. => "or"
  | not .. => "not"
  | price .. => "price"
  | cached .. => "cached"
  | observed _ _ (.adept _) _ => "adept"
  | observed _ _ (.recording _) _ => "recording"

/-- The number of keys of a result, the version of a snapshot, or the cost of what is observed. -/
def measure? : Formula → Option Nat
  | constant _ keys | cached _ keys => some keys.size
  | index _ snapshot => some snapshot.version
  | observed _ _ _ savedCost => some savedCost
  | empty .. | and .. | or .. | not .. | price .. => none

/-- A node with the outlines of its parts. -/
def outlineWith (f : Formula) (parts : List Json) : Json :=
  .array (.string f.kind :: (f.measure?.toList.map fun n => .integer n) ++ parts)

mutual

/-- The outline of a formula. -/
def outline : Formula → Json
  | empty p => (empty p).outlineWith []
  | constant p keys => (constant p keys).outlineWith []
  | index p snapshot => (index p snapshot).outlineWith []
  | cached p keys => (cached p keys).outlineWith []
  | and p children => (and p children).outlineWith (outlines children)
  | or p children => (or p children).outlineWith (outlines children)
  | not p subtracted superset =>
    (not p subtracted superset).outlineWith [outline subtracted, outline superset]
  | price p source prices predicate =>
    (price p source prices predicate).outlineWith [outline source]
  | observed p inner observer savedCost =>
    (observed p inner observer savedCost).outlineWith [outline inner]

/-- The outlines of some formulas. -/
def outlines : List Formula → List Json
  | [] => []
  | f :: rest => outline f :: outlines rest

end

end EntityQuery.Formula
