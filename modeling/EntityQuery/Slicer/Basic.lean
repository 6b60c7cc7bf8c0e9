import EntityQuery.Error
import EntityQuery.PageExpr.Bound

/-!
# Pages with gaps

A page holds as many records as its size says, less what its gaps reserve: a gap takes its share of
every page on which its condition holds. The offset of a page is therefore the sum of the capacities
of the pages before it. The walk adds them up page by page, and once no gap can match any more, all
further pages are full and are counted by division.
-/

namespace EntityQuery

/-- A number of places reserved on every page on which a condition holds. -/
structure Gap where
  size : Nat
  condition : PageExpr
  deriving DecidableEq, Repr

namespace Gap

/-- The gap whose condition a text spells. -/
def ofText (size : Nat) (condition : String) : Except Error Gap :=
  match PageExpr.parse condition with
  | .ok e => .ok ⟨size, e⟩
  | .error e => .error (.pageExpr e)

/-- Whether the condition can hold on a page from `page` on. -/
def mayMatchFrom (g : Gap) (page : Nat) : Bool := g.condition.lastPage.all (page ≤ ·)

end Gap

/-- The records of one page. -/
structure Window where
  /-- The number of records before the page. -/
  offset : Nat
  /-- The number of records that the page has room for. -/
  limit : Nat
  page : Nat
  /-- The number of the last page. -/
  last : Nat
  /-- The number of all records. -/
  total : Nat
  deriving DecidableEq, Repr, Inhabited

/-- The numbers of a window with their names. -/
def Window.numbers (w : Window) : List (String × Nat) :=
  [("offset", w.offset), ("limit", w.limit), ("page", w.page), ("last", w.last),
    ("total", w.total)]

/-- The room on a page: its size less the sizes of the gaps that match it, added up as words, and
one place at least. -/
def capacity (gaps : List Gap) (pageSize page : Nat) : Nat :=
  let matching := gaps.filter (·.condition.matchesPage page)
  max 1 (pageSize - Word.sum (matching.map (·.size)))

/-- There is always room for one record. -/
theorem capacity_pos (gaps : List Gap) (pageSize page : Nat) : 0 < capacity gaps pageSize page := by
  simp only [capacity]
  omega

/-- The gaps that can match a page from `page` on. -/
def gapsFrom (gaps : List Gap) (page : Nat) : List Gap := gaps.filter (·.mayMatchFrom page)

/-- The outcome of walking all pages. -/
structure Walk where
  /-- Offset and limit of the page asked for, where it was met. -/
  found : Option (Nat × Nat)
  /-- The room on the first page. -/
  firstLimit : Nat
  /-- The number of the last page. -/
  last : Nat
  deriving DecidableEq, Repr

/-- The number of full pages for some records, and one at least. -/
def fullPages (records pageSize : Nat) : Nat := max 1 ((records + pageSize - 1) / pageSize)

/-- Walks the pages from `page` on, before which `offset` records lie. -/
def walkFrom (requested pageSize total : Nat) (gaps : List Gap) (page offset : Nat)
    (found : Option (Nat × Nat)) (firstLimit : Option Nat) : Walk :=
  let active := gapsFrom gaps page
  if active.isEmpty then
    let skipped := Word.satMul (requested - page) pageSize
    { found := found.or (some (Word.satAdd offset skipped, pageSize))
      firstLimit := firstLimit.getD pageSize
      last := Word.satAdd (page - 1) (fullPages (total - offset) pageSize) }
  else
    let room := capacity active pageSize page
    let firstLimit := firstLimit.getD room
    let found := if page = requested then some (offset, room) else found
    if total ≤ offset + room then { found, firstLimit, last := page }
    else walkFrom requested pageSize total active (page + 1) (offset + room) found (some firstLimit)
termination_by total - offset
decreasing_by
  have := capacity_pos (gapsFrom gaps page) pageSize page
  omega

/-- The window of a page, counted from one. A page past the end gives the first page instead. -/
def windowOf (gaps : List Gap) (requested pageSize total : Nat) : Window :=
  let walk := walkFrom requested pageSize total gaps 1 0 none none
  let first : Window := ⟨0, walk.firstLimit, 1, walk.last, total⟩
  match walk.found with
  | some (offset, limit) =>
    if offset < total ∨ requested = 1 then ⟨offset, limit, requested, walk.last, total⟩ else first
  | none => first

end EntityQuery
