import EntityQuery.CandidateSet

/-!
# Windows of an order

An order is made by stages, each of which orders some of the keys that the stages before it left.
Only a window of the whole order is wanted. Each stage sees the window relative to its own output,
writes the keys that fall into it behind those that are there already, and hands a shifted window to
the next stage.
-/

namespace EntityQuery

/-- Where an order stands before a stage. -/
structure SortContext where
  /-- The keys that no stage has ordered yet. -/
  keys : CandidateSet
  /-- The position at which the window starts, relative to the stages that are left. -/
  start : Nat
  /-- The position at which it ends, which does not belong to it. -/
  stop : Nat
  /-- The number of keys that are written. -/
  peak : Nat := 0
  deriving DecidableEq

namespace SortContext

/-- The context before the first stage. -/
def ofWindow (keys : CandidateSet) (start stop : Nat) : SortContext where
  keys := keys
  start := start
  stop := max stop start

/-- The number of keys that are still wanted. -/
def window (c : SortContext) : Nat := c.stop - c.start

/-- Whether no more keys are wanted. -/
def isFilled (c : SortContext) : Bool := Nat.ble c.stop c.start

/-- The context after a stage that wrote `read` keys and had `skipped` ones before the window. -/
def next (c : SortContext) (keys : CandidateSet) (read skipped : Nat) : SortContext where
  keys := keys
  start := c.start - skipped
  stop := max (c.stop - skipped - read) (c.start - skipped)
  peak := c.peak + read

/-- A stage leaves the part of the window that it did not fill. -/
theorem window_next (c : SortContext) (keys : CandidateSet) {read skipped : Nat}
    (h : skipped ≤ c.start) : (c.next keys read skipped).window = c.window - read := by
  simp only [next, window]
  omega

/-- The room that is left in an output. -/
def room (c : SortContext) (out : List Nat) : Nat := out.length - c.peak

/-- The keys of a stage that fall into the window and find room. -/
def written (c : SortContext) (ordered out : List Nat) : List Nat :=
  (ordered.drop c.start).take (min c.window (c.room out))

/-- The output with some keys written behind those that are there. -/
def write (c : SortContext) (keys out : List Nat) : List Nat :=
  out.take c.peak ++ keys ++ out.drop (c.peak + keys.length)

/-- Writing keys leaves an output as long as it was. -/
theorem length_out_write (c : SortContext) (ordered out : List Nat) :
    (c.write (c.written ordered out) out).length = out.length := by
  simp only [write, written, room, List.length_append, List.length_take, List.length_drop]
  omega

/-- What a stage leaves. -/
structure Progress where
  context : SortContext
  out : List Nat
  /-- The keys that the stage ordered before the window. -/
  skipped : List Nat
  deriving DecidableEq

/-- A stage that orders all keys. It stops where no further key can reach the output, so it passes
no key over when there is no room from the start. -/
def sliceAll (c : SortContext) (ordered out : List Nat) : Progress :=
  let skipped := if c.room out = 0 then [] else ordered.take c.start
  let written := c.written ordered out
  { context := c.next ∅ written.length skipped.length
    out := c.write written out
    skipped }

/-- A stage that orders some keys and leaves the others. A key that it lists again is ignored. -/
def slicePart (c : SortContext) (listed out : List Nat) : Progress :=
  let ordered := firstOccurrences listed
  let skipped := ordered.take c.start
  let written := c.written ordered out
  { context := c.next (c.keys.diff (.ofKeys ordered)) written.length skipped.length
    out := c.write written out
    skipped }

end SortContext

end EntityQuery
