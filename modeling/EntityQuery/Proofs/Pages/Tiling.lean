import EntityQuery.Proofs.Pages.Table

/-!
# Pages tile an order

The window of a page cuts some keys out of an order. The pages in range cut the order into pieces
that follow each other without gaps or overlaps (`flatMap_keysOf`), and a page out of range is the
first page once more (`tableWindow_of_out`).
-/

namespace EntityQuery

/-- The keys of an order that lie in a window. The end of the window is added up as a word. -/
def Window.keysOf (w : Window) (order : List ℕ) : List ℕ :=
  order.extract (min w.offset order.length)
    (min (Word.satAdd w.offset w.limit) order.length)

/-- The window of a page in range. -/
theorem tableWindow_of_in {gaps : List Gap} {requested pageSize total : ℕ}
    (h : InRange gaps pageSize total requested) :
    tableWindow gaps requested pageSize total
      = ⟨pageOffset gaps pageSize requested, pageRoom gaps pageSize requested, requested,
          lastPageNumber gaps pageSize total, total⟩ := by
  rw [tableWindow, if_pos h]

/-- The first page is always in range. -/
theorem inRange_one (gaps : List Gap) (pageSize total : ℕ) : InRange gaps pageSize total 1 :=
  Or.inr rfl

/-- A page out of range has the window of the first page. -/
theorem tableWindow_of_out {gaps : List Gap} {requested pageSize total : ℕ}
    (h : ¬InRange gaps pageSize total requested) :
    tableWindow gaps requested pageSize total = tableWindow gaps 1 pageSize total := by
  rw [tableWindow, if_neg h, tableWindow_of_in (inRange_one gaps pageSize total), pageOffset_one]

/-- Whatever page is asked for, the last page is the same. -/
theorem tableWindow_last (gaps : List Gap) (requested pageSize total : ℕ) :
    (tableWindow gaps requested pageSize total).last = lastPageNumber gaps pageSize total := by
  unfold tableWindow
  split_ifs
  · rfl
  · rfl

/-- Whatever page is asked for, the total is passed through. -/
theorem tableWindow_total (gaps : List Gap) (requested pageSize total : ℕ) :
    (tableWindow gaps requested pageSize total).total = total := by
  unfold tableWindow
  split_ifs
  · rfl
  · rfl

/-- What lies between two positions follows what lies before the first of them. -/
theorem take_append_extract (order : List ℕ) (start room : ℕ) :
    order.take start ++ (order.drop start).take room = order.take (start + room) :=
  List.take_add.symm

/-- The keys in the window of a page in range are those behind the pages before it. -/
theorem keysOf_tableWindow {gaps : List Gap} {requested pageSize : ℕ} {order : List ℕ}
    (h : InRange gaps pageSize order.length requested) (hlength : order.length ≤ Word.max) :
    (tableWindow gaps requested pageSize order.length).keysOf order
      = (order.drop (pageOffset gaps pageSize requested)).take
          (pageRoom gaps pageSize requested) := by
  rw [tableWindow_of_in h, Window.keysOf, List.extract_eq_take_drop]
  simp only
  generalize pageOffset gaps pageSize requested = offset
  generalize pageRoom gaps pageSize requested = room
  rcases Nat.le_total offset order.length with hle | hle
  · -- The end of the window may saturate, but not before the end of the order.
    rw [min_eq_left hle, List.take_eq_take_iff, List.length_drop]
    unfold Word.satAdd
    omega
  · rw [min_eq_right hle, List.drop_eq_nil_of_le hle, List.drop_length, List.take_nil,
      List.take_nil]

/-- The first pages hold the first keys of the order, as many as there is room for. -/
theorem flatMap_drop_take (gaps : List Gap) (pageSize : ℕ) (order : List ℕ) (pages : ℕ) :
    ((List.range' 1 pages).flatMap fun p =>
        (order.drop (pageOffset gaps pageSize p)).take (pageRoom gaps pageSize p))
      = order.take (pageOffset gaps pageSize (pages + 1)) := by
  induction pages with
  | zero => rw [pageOffset_one, List.take_zero, List.range'_zero, List.flatMap_nil]
  | succ n ih =>
    rw [List.range'_concat, List.flatMap_append, ih, List.flatMap_singleton,
      pageOffset_succ gaps pageSize (show 1 ≤ n + 1 by omega), ← take_append_extract, one_mul,
      add_comm 1 n]

/-- The pages in range hold all keys of the order, one after the other. -/
theorem flatMap_keysOf (gaps : List Gap) (pageSize : ℕ) {order : List ℕ}
    (hlength : order.length ≤ Word.max) :
    ((List.range' 1 (lastPageNumber gaps pageSize order.length)).flatMap fun p =>
        (tableWindow gaps p pageSize order.length).keysOf order) = order := by
  obtain ⟨⟨-, hend⟩, -⟩ := isLeast_lastPageNumber gaps pageSize order.length
  calc ((List.range' 1 (lastPageNumber gaps pageSize order.length)).flatMap fun p =>
        (tableWindow gaps p pageSize order.length).keysOf order)
      = (List.range' 1 (lastPageNumber gaps pageSize order.length)).flatMap fun p =>
          (order.drop (pageOffset gaps pageSize p)).take (pageRoom gaps pageSize p) := by
        refine List.flatMap_congr fun p hp => ?_
        obtain ⟨hone, hlast⟩ := List.mem_range'_1.mp hp
        exact keysOf_tableWindow ((inRange_iff hone).mpr (by omega)) hlength
    _ = order.take (pageOffset gaps pageSize (lastPageNumber gaps pageSize order.length + 1)) :=
        flatMap_drop_take gaps pageSize order _
    _ = order := List.take_of_length_le hend

end EntityQuery
