import EntityQuery.Digest

/-!
# Numbers for digests

A digest can be long, and what matters of it is only which others it equals. A numbering stands for
digests by numbers, which are given in the order in which digests are first met.
-/

namespace EntityQuery

/-- The digests that were met, each at the position that is its number. -/
structure Numbering where
  met : List Digest := []

namespace Numbering

/-- The number of a digest, and the numbering that knows it. -/
def number (n : Numbering) (d : Digest) : Nat × Numbering :=
  (n.met.idxOf d, if d ∈ n.met then n else ⟨n.met ++ [d]⟩)

/-- The numbers of some digests, one after the other. -/
def numbers (n : Numbering) : List Digest → List Nat
  | [] => []
  | d :: rest => (n.number d).1 :: (n.number d).2.numbers rest

end Numbering

end EntityQuery
