import EntityQuery.Slicer.Basic
import Std.Data.HashMap

/-!
# Slicers that remember

A slicer remembers the windows that it computed for its gaps, and a registry remembers the slicers.
Both start over when they are full.
-/

namespace EntityQuery

/-- The windows that were computed for some gaps, by page number, page size and total. -/
structure Slicer where
  gaps : List Gap
  memo : Std.HashMap (Nat × Nat × Nat) Window := ∅

namespace Slicer

/-- How many windows a slicer remembers. -/
def memoCapacity : Nat := 4096

/-- The slicer that knows a window, after all others were forgotten if there was no room. -/
def remember (s : Slicer) (key : Nat × Nat × Nat) (w : Window) : Slicer :=
  let memo := if memoCapacity ≤ s.memo.size then ∅ else s.memo
  { s with memo := memo.insert key w }

/-- The window of a page, and the slicer that remembers it. -/
def window (s : Slicer) (number size total : Nat) : Except Error (Window × Slicer) :=
  if number = 0 ∨ size = 0 then .error (.page number size)
  else
    match s.memo[(number, size, total)]? with
    | some w => .ok (w, s)
    | none =>
      let w := windowOf s.gaps number size total
      .ok (w, s.remember (number, size, total) w)

/-- Pages are counted from one and have room. -/
theorem window_eq_error {s : Slicer} {number size total : Nat} (h : number = 0 ∨ size = 0) :
    s.window number size total = .error (.page number size) := by
  simp [window, h]

/-- A slicer remembers no more windows than it has room for. -/
theorem size_remember_le (s : Slicer) (key : Nat × Nat × Nat) (w : Window) :
    (s.remember key w).memo.size ≤ memoCapacity := by
  unfold remember
  simp only
  split
  · exact Nat.le_trans Std.HashMap.size_insert_le (by simp [memoCapacity])
  · rename_i h
    exact Nat.le_trans Std.HashMap.size_insert_le (by omega)

/-- Cutting out a page makes a slicer remember no more windows than it has room for. -/
theorem size_window_le {s s' : Slicer} {number size total : Nat} {w : Window}
    (hs : s.memo.size ≤ memoCapacity) (h : s.window number size total = .ok (w, s')) :
    s'.memo.size ≤ memoCapacity := by
  unfold window at h
  split at h
  · simp at h
  · split at h
    · simp only [Except.ok.injEq, Prod.mk.injEq] at h
      exact h.2 ▸ hs
    · simp only [Except.ok.injEq, Prod.mk.injEq] at h
      exact h.2 ▸ size_remember_le _ _ _

end Slicer

/-- The slicers in use, by the sizes and conditions of their gaps. -/
structure SlicerRegistry where
  slicers : Std.HashMap (List (Nat × String)) Slicer := ∅

namespace SlicerRegistry

/-- How many slicers a registry remembers. -/
def capacity : Nat := 256

/-- The registry that knows a slicer, after all others were forgotten if there was no room. -/
def remember (r : SlicerRegistry) (gaps : List (Nat × String)) (s : Slicer) : SlicerRegistry :=
  if r.slicers.contains gaps || r.slicers.size < capacity then ⟨r.slicers.insert gaps s⟩
  else ⟨(∅ : Std.HashMap _ _).insert gaps s⟩

/-- The slicer for some gaps: the one in use, or else a new one. -/
def slicer (r : SlicerRegistry) (gaps : List (Nat × String)) : Except Error Slicer :=
  match r.slicers[gaps]? with
  | some s => .ok s
  | none => do .ok { gaps := ← gaps.mapM fun g => Gap.ofText g.1 g.2 }

/-- The window of a page with some gaps. -/
def window (r : SlicerRegistry) (gaps : List (Nat × String)) (number size total : Nat) :
    Except Error Window × SlicerRegistry :=
  match r.slicer gaps with
  | .error e => (.error e, r)
  | .ok s =>
    match s.window number size total with
    | .ok (w, s) => (.ok w, r.remember gaps s)
    | .error e => (.error e, r.remember gaps s)

end SlicerRegistry

end EntityQuery
