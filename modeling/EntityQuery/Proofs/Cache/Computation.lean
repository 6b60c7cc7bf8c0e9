import EntityQuery.Cache.Entry
import EntityQuery.Proofs.Cache.Determined

/-!
# Computations that a cache stands in for

Filters, counts of facets and merged orders side by side: what the cache looks at in each of them,
and what it keeps of each. A result that the cache keeps is right when it is the result of every
computation with the same digest that reads the same snapshots (`Payload.RightFor`), and the result
of any such computation is right (`Computation.rightFor`).
-/

namespace EntityQuery

/-- A computation whose result can be cached. -/
inductive Computation where
  /-- A filter. -/
  | filter (f : Formula)
  /-- A count of facets. -/
  | facets (c : FacetCount)
  /-- A merged order. -/
  | order (r : MergedRecords)

namespace Computation

/-- The kind of a computation. -/
def kind : Computation → RecordKind
  | filter _ => .filter
  | facets _ => .extra
  | order _ => .sorted

/-- What a computation is made of, whatever the versions that it reads. -/
def digest : Computation → Digest
  | filter f => f.digest
  | facets c => c.digest
  | order r => r.digest

/-- The snapshots that a computation reads. -/
def snapshots : Computation → List Digest
  | filter f => f.snapshots
  | facets c => c.snapshots
  | order r => r.snapshots

/-- What identifies the versions that a computation reads. -/
def snapshotsDigest : Computation → Digest
  | filter f => f.snapshotsDigest
  | facets c => c.snapshotsDigest
  | order r => r.snapshotsDigest

/-- The result of a computation. -/
def result : Computation → Payload
  | filter f => .filter f.result
  | facets c => .extra c.result.get
  | order r => .sorted r.result.get

/-- The memory after a computation was run. -/
def visit : Computation → Memory → Memory
  | filter f => f.visit
  | facets c => c.visit
  | order r => r.visit

/-- Runs a computation. -/
def compute : Computation → Run Payload
  | filter f => do return .filter (← f.compute)
  | facets c => do return .extra (← c.compute)
  | order r => do return .sorted (← r.compute)

/-- The outcome does not depend on what has been computed before. -/
theorem compute_eq (x : Computation) (m : Memory) : x.compute m = (x.result, x.visit m) := by
  rcases x with f | c | r <;> rfl

/-- Whether a computation is built as it should be, over indexes with some contents. -/
def Built (C : Contents) : Computation → Prop
  | filter f => f.Built C.provenance
  | facets c => c.Built C.provenance
  | order r => r.Built C

variable {C : Contents}

/-- Computations of one kind with the same digest that read the same snapshots have the same
result. -/
theorem result_eq {x y : Computation} (hx : x.Built C) (hy : y.Built C)
    (hsingle : SingleVersion x.snapshots) (hkind : x.kind = y.kind) (hdigest : x.digest = y.digest)
    (hsnapshots : x.snapshotsDigest = y.snapshotsDigest) : x.result = y.result := by
  match x, y with
  | filter f, filter g =>
    exact congrArg Payload.filter (Formula.Built.result_eq hx hy hsingle hdigest hsnapshots)
  | facets c, facets d =>
    exact congrArg Payload.extra (FacetCount.Built.result_eq hx hy hsingle hdigest hsnapshots)
  | order r, order t =>
    exact congrArg Payload.sorted (MergedRecords.Built.result_eq hx hy hsingle hdigest hsnapshots)
  | filter _, facets _ | filter _, order _ | facets _, filter _ | facets _, order _
  | order _, filter _ | order _, facets _ => exact absurd hkind (by simp [kind])

end Computation

/-- Whether a result is that of every computation of some kind with the given digest and the given
snapshots. -/
def Payload.RightFor (C : Contents) (kind : RecordKind) (content snapshots : Digest)
    (payload : Payload) : Prop :=
  ∀ x : Computation, x.Built C → SingleVersion x.snapshots → x.kind = kind → x.digest = content →
    x.snapshotsDigest = snapshots → x.result = payload

/-- The result of a computation is right for its digest and its snapshots. -/
theorem Computation.rightFor {C : Contents} {x : Computation} (hx : x.Built C)
    (hsingle : SingleVersion x.snapshots) :
    x.result.RightFor C x.kind x.digest x.snapshotsDigest :=
  fun _ hy _ hkind hdigest hsnapshots =>
    (result_eq hx hy hsingle hkind.symm hdigest.symm hsnapshots.symm).symm

end EntityQuery
