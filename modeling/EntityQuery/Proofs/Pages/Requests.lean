import EntityQuery.Proofs.Pages.Registry

/-!
# Any sequence of requests for windows

A registry serves requests for windows one after the other, and what it remembers changes with each
of them. `SlicerRegistry.serve_eq_fresh` shows that the answers do not tell: each of them is that of
a slicer which is made for the request alone. The memory stays bounded however many requests are
served, and a request that is repeated at once is answered from memory.

What a registry remembers is sound and within its bounds at any time
(`SlicerRegistry.Sound`, `SlicerRegistry.Bounded`), and each request keeps it so.
-/

namespace EntityQuery

/-- A request for the window of a page. -/
structure WindowRequest where
  /-- The sizes and conditions of the gaps. -/
  gaps : List (ℕ × String)
  number : ℕ
  size : ℕ
  total : ℕ
  deriving DecidableEq, Repr

namespace WindowRequest

/-- What a slicer remembers a window by. -/
def key (q : WindowRequest) : ℕ × ℕ × ℕ := (q.number, q.size, q.total)

/-- The answer of a slicer that is made for the request alone. -/
def fresh (q : WindowRequest) : Except Error Window := do
  let gaps ← Gap.ofTexts q.gaps
  let (w, _) ← ({ gaps } : Slicer).window q.number q.size q.total
  return w

/-- Where the gaps can be parsed, that is the answer of a slicer which remembers nothing. -/
theorem fresh_of_ofTexts {q : WindowRequest} {gaps : List Gap} (h : Gap.ofTexts q.gaps = .ok gaps) :
    q.fresh = (Slicer.window { gaps } q.number q.size q.total).map Prod.fst := by
  rw [fresh, h]
  rfl

/-- The answer of a registry, which may remember it. -/
def serve (q : WindowRequest) : StateM SlicerRegistry (Except Error Window) :=
  fun r => r.window q.gaps q.number q.size q.total

end WindowRequest

/-! ## What a slicer remembers after a call -/

namespace Slicer

/-- A window that was given is remembered. -/
theorem memo_window {s s' : Slicer} {number size total : ℕ} {w : Window}
    (h : s.window number size total = .ok (w, s')) : s'.memo[(number, size, total)]? = some w := by
  unfold window at h
  split_ifs at h
  split at h
  · rename_i known hknown
    obtain ⟨rfl, rfl⟩ := Prod.mk.inj (Except.ok.inj h)
    exact hknown
  · obtain ⟨rfl, rfl⟩ := Prod.mk.inj (Except.ok.inj h)
    exact Std.HashMap.getElem?_insert_self

/-- A window that is remembered is given, and nothing new is remembered. -/
theorem window_of_memo {s : Slicer} {number size total : ℕ} {w : Window}
    (hpositive : ¬(number = 0 ∨ size = 0)) (h : s.memo[(number, size, total)]? = some w) :
    s.window number size total = .ok (w, s) := by
  rw [window, if_neg hpositive, h]

end Slicer

namespace SlicerRegistry

/-! ## Bounds -/

/-- Whether a registry and its slicers remember no more than they have room for. -/
structure Bounded (r : SlicerRegistry) : Prop where
  /-- There is room for the slicers. -/
  size_le : r.slicers.size ≤ capacity
  /-- There is room for the windows of each slicer. -/
  memo_le : ∀ (texts : List (ℕ × String)) (s : Slicer), r.slicers[texts]? = some s →
    s.memo.size ≤ Slicer.memoCapacity

variable {r : SlicerRegistry} {texts : List (ℕ × String)} {s : Slicer}

/-- A slicer that a registry comes to know is found, and it displaces all others or none. -/
theorem getElem?_remember (texts' : List (ℕ × String)) :
    (r.remember texts s).slicers[texts']? = if texts = texts' then some s
      else if r.slicers.contains texts || r.slicers.size < capacity then r.slicers[texts']?
      else none := by
  unfold remember
  by_cases hroom : (r.slicers.contains texts || r.slicers.size < capacity) = true
  · rw [if_pos hroom, if_pos hroom, Std.HashMap.getElem?_insert]
    simp only [beq_iff_eq]
  · rw [if_neg hroom, if_neg hroom, Std.HashMap.getElem?_insert, Std.HashMap.getElem?_empty]
    simp only [beq_iff_eq]

/-- A new registry remembers nothing. -/
theorem Bounded.empty : Bounded {} := by
  refine ⟨by decide, fun texts s hs => ?_⟩
  rw [Std.HashMap.getElem?_empty] at hs
  exact absurd hs nofun

/-- A registry that comes to know one more bounded slicer stays bounded. -/
theorem Bounded.remember (h : r.Bounded) (texts : List (ℕ × String))
    (hs : s.memo.size ≤ Slicer.memoCapacity) : (r.remember texts s).Bounded where
  size_le := by
    unfold SlicerRegistry.remember
    split_ifs with hroom
    · rw [Std.HashMap.size_insert]
      split_ifs with hknown
      · exact h.size_le
      · rw [Bool.or_eq_true, Std.HashMap.contains_iff_mem, decide_eq_true_eq] at hroom
        exact hroom.resolve_left hknown
    · refine Nat.le_trans Std.HashMap.size_insert_le ?_
      rw [Std.HashMap.size_empty]
      decide
  memo_le := by
    intro texts' s' hs'
    rw [getElem?_remember] at hs'
    split_ifs at hs'
    · exact Option.some.inj hs' ▸ hs
    · exact h.memo_le texts' s' hs'

/-- A bounded registry hands out bounded slicers. -/
theorem Bounded.slicer (h : r.Bounded) (hs : r.slicer texts = .ok s) :
    s.memo.size ≤ Slicer.memoCapacity := by
  unfold SlicerRegistry.slicer at hs
  split at hs
  · rename_i known hknown
    exact h.memo_le texts s (Except.ok.inj hs ▸ hknown)
  · have hparsed : (Gap.ofTexts texts).map (fun gaps => ({ gaps } : Slicer)) = .ok s := hs
    rcases htexts : Gap.ofTexts texts with e | gaps
    · rw [htexts] at hparsed
      exact absurd hparsed nofun
    · rw [htexts] at hparsed
      rw [← Except.ok.inj hparsed]
      exact Nat.zero_le _

/-! ## One request -/

/-- What serving a request does: without a slicer it is refused, a slicer may refuse it, or a slicer
gives a window and remembers it. -/
inductive Serves (r : SlicerRegistry) (q : WindowRequest) :
    Except Error Window × SlicerRegistry → Prop
  /-- The gaps cannot be parsed. -/
  | unparsed {e : Error} (hs : r.slicer q.gaps = .error e) : Serves r q (.error e, r)
  /-- There is no page or no place on it. -/
  | refused {s : Slicer} {e : Error} (hs : r.slicer q.gaps = .ok s)
    (hw : s.window q.number q.size q.total = .error e) :
    Serves r q (.error e, r.remember q.gaps s)
  /-- There is a window. -/
  | given {s s' : Slicer} {w : Window} (hs : r.slicer q.gaps = .ok s)
    (hw : s.window q.number q.size q.total = .ok (w, s')) :
    Serves r q (.ok w, r.remember q.gaps s')

/-- What serving a request does. -/
theorem serves (r : SlicerRegistry) (q : WindowRequest) : r.Serves q (q.serve.run r) := by
  show r.Serves q (r.window q.gaps q.number q.size q.total)
  unfold window
  rcases hs : r.slicer q.gaps with e | s
  · exact .unparsed hs
  · rcases hw : s.window q.number q.size q.total with e | ⟨w, s'⟩
    · simp only [hw]
      exact .refused hs hw
    · simp only [hw]
      exact .given hs hw

/-- Serving a request keeps a registry bounded. -/
theorem Bounded.serve (h : r.Bounded) (q : WindowRequest) : (q.serve.run r).2.Bounded := by
  have hserves := r.serves q
  generalize q.serve.run r = answered at hserves
  cases hserves with
  | unparsed hs => exact h
  | refused hs hw => exact h.remember q.gaps (h.slicer hs)
  | given hs hw => exact h.remember q.gaps (Slicer.size_window_le (h.slicer hs) hw)

/-- A sound registry answers as a slicer that is made for the request alone. -/
theorem Sound.serve_eq (h : r.Sound) (q : WindowRequest) : (q.serve.run r).1 = q.fresh := by
  have hserves := r.serves q
  generalize q.serve.run r = answered at hserves
  rcases htexts : Gap.ofTexts q.gaps with e | gaps
  · have hfresh : q.fresh = .error e := by
      rw [WindowRequest.fresh, htexts]
      rfl
    rw [hfresh]
    have hslicer := h.slicer_eq_error htexts
    cases hserves with
    | unparsed hs => rw [Except.error.inj (hs.symm.trans hslicer)]
    | refused hs hw => exact absurd (hs.symm.trans hslicer) nofun
    | given hs hw => exact absurd (hs.symm.trans hslicer) nofun
  · rw [WindowRequest.fresh_of_ofTexts htexts]
    -- A slicer for the gaps gives what a new one gives, whatever it remembers.
    have hsame {s : Slicer} (hs : r.slicer q.gaps = .ok s) :
        (s.window q.number q.size q.total).map Prod.fst
          = (Slicer.window { gaps } q.number q.size q.total).map Prod.fst := by
      obtain ⟨gaps', htexts', hremembers⟩ := h.slicer hs
      obtain rfl : gaps = gaps' := Except.ok.inj (htexts.symm.trans htexts')
      by_cases hzero : q.number = 0 ∨ q.size = 0
      · rw [Slicer.window_eq_error hzero, Slicer.window_eq_error hzero]
      · have hnumber : 1 ≤ q.number := by omega
        have hsize : 1 ≤ q.size := by omega
        have hnew := (Slicer.Reachable.fresh : Slicer.Reachable gaps _).remembers
        obtain ⟨s₁, hs₁, -⟩ := hremembers.window hnumber hsize q.total
        obtain ⟨s₂, hs₂, -⟩ := hnew.window hnumber hsize q.total
        rw [hs₁, hs₂]
        rfl
    cases hserves with
    | unparsed hs =>
      obtain ⟨s, hs'⟩ := r.exists_slicer htexts
      exact absurd (hs.symm.trans hs') nofun
    | refused hs hw =>
      rw [← hsame hs, hw]
      rfl
    | given hs hw =>
      rw [← hsame hs, hw]
      rfl

/-- A request that was given a window and is repeated at once is answered from memory, and the
registry stays as it is. -/
theorem serve_again (r : SlicerRegistry) {q : WindowRequest} {w : Window}
    (hw : (q.serve.run r).1 = .ok w) :
    ∃ s, (q.serve.run r).2.slicers[q.gaps]? = some s ∧ s.memo[q.key]? = some w ∧
      (q.serve.run (q.serve.run r).2).1 = .ok w ∧
      ∀ texts : List (ℕ × String), (q.serve.run (q.serve.run r).2).2.slicers[texts]?
        = (q.serve.run r).2.slicers[texts]? := by
  have hserves := r.serves q
  generalize q.serve.run r = answered at hserves hw ⊢
  cases hserves with
  | unparsed hs => exact absurd hw nofun
  | refused hs hw' => exact absurd hw nofun
  | @given s s' w' hs hw' =>
    obtain rfl := Except.ok.inj hw
    have hknown : (r.remember q.gaps s').slicers[q.gaps]? = some s' := by
      rw [getElem?_remember, if_pos rfl]
    have hmemo := Slicer.memo_window hw'
    have hpositive : ¬(q.number = 0 ∨ q.size = 0) := by
      intro hzero
      rw [Slicer.window_eq_error hzero] at hw'
      exact absurd hw' nofun
    have hagain : q.serve.run (r.remember q.gaps s')
        = (.ok w', (r.remember q.gaps s').remember q.gaps s') := by
      show (r.remember q.gaps s').window q.gaps q.number q.size q.total = _
      have hslicer : (r.remember q.gaps s').slicer q.gaps = .ok s' := by
        rw [slicer, hknown]
      rw [window, hslicer]
      simp only [Slicer.window_of_memo hpositive hmemo]
    refine ⟨s', hknown, hmemo, congrArg Prod.fst hagain, fun texts => ?_⟩
    rw [hagain]
    -- A slicer that is known already displaces nothing.
    have hcontains : (r.remember q.gaps s').slicers.contains q.gaps = true := by
      rw [Std.HashMap.contains_eq_isSome_getElem?, hknown]
      rfl
    rw [getElem?_remember, hcontains, Bool.true_or, if_pos rfl]
    split_ifs with hsame
    · rw [← hsame, hknown]
    · rfl

/-! ## Any sequence of requests -/

/-- Serving requests one after the other gives the answers of slicers that are made for each of them
alone, and keeps a registry sound and bounded. -/
theorem serve_all (requests : List WindowRequest) (hsound : r.Sound) (hbounded : r.Bounded) :
    ((requests.mapM WindowRequest.serve).run r).1 = requests.map WindowRequest.fresh ∧
      ((requests.mapM WindowRequest.serve).run r).2.Sound ∧
      ((requests.mapM WindowRequest.serve).run r).2.Bounded := by
  induction requests generalizing r with
  | nil => exact ⟨rfl, hsound, hbounded⟩
  | cons q rest ih =>
    have hsound' : (q.serve.run r).2.Sound := hsound.after q.gaps q.number q.size q.total
    obtain ⟨hanswers, hrest⟩ := ih hsound' (hbounded.serve q)
    have hrun : ((q :: rest).mapM WindowRequest.serve).run r
        = ((q.serve.run r).1 :: ((rest.mapM WindowRequest.serve).run (q.serve.run r).2).1,
          ((rest.mapM WindowRequest.serve).run (q.serve.run r).2).2) := by
      rw [List.mapM_cons]
      rfl
    rw [hrun, hanswers, hsound.serve_eq q]
    exact ⟨rfl, hrest⟩

/-- What a registry remembers does not show: whatever requests it serves, each is answered as by a
slicer that is made for this request alone, errors included. After any requests it remembers at most
256 slicers, and each of them at most 4096 windows. A request that is given a window and repeated at
once is given the window that the slicer remembers, and nothing is computed or forgotten. -/
theorem serve_eq_fresh (requests : List WindowRequest) :
    let served := (requests.mapM WindowRequest.serve).run {}
    served.1 = requests.map WindowRequest.fresh ∧
      served.2.slicers.size ≤ 256 ∧
      (∀ (texts : List (ℕ × String)) (s : Slicer), served.2.slicers[texts]? = some s →
        s.memo.size ≤ 4096) ∧
      ∀ (q : WindowRequest) (w : Window), (q.serve.run served.2).1 = .ok w →
        let r := (q.serve.run served.2).2
        ∃ s, r.slicers[q.gaps]? = some s ∧ s.memo[q.key]? = some w ∧
          (q.serve.run r).1 = .ok w ∧
          ∀ texts : List (ℕ × String), (q.serve.run r).2.slicers[texts]? = r.slicers[texts]? := by
  intro served
  obtain ⟨hanswers, -, hbounded⟩ := serve_all requests Reachable.fresh.sound .empty
  exact ⟨hanswers, hbounded.size_le, hbounded.memo_le, fun q w hw => serve_again served.2 hw⟩

/-- A page that is asked for again and again, once after a page that does not exist. -/
theorem serve_eq_fresh_twice :
    let page : WindowRequest := ⟨[(1, "$pageNumber <= 2")], 2, 10, 15⟩
    let missing : WindowRequest := ⟨[(1, "$pageNumber <= 2")], 0, 10, 15⟩
    let requests := [page, missing, page]
    ((requests.mapM WindowRequest.serve).run {}).1
        = [.ok ⟨9, 9, 2, 2, 15⟩, .error (.page 0 10), .ok ⟨9, 9, 2, 2, 15⟩] ∧
      ∃ s, (page.serve.run ((requests.mapM WindowRequest.serve).run {}).2).2.slicers[page.gaps]?
          = some s ∧ s.memo[page.key]? = some ⟨9, 9, 2, 2, 15⟩ := by
  intro page missing requests
  have hparse : PageExpr.parse "$pageNumber <= 2" = .ok (.compare .page .le (.constant 2)) := by cbv
  let gaps : List Gap := [⟨1, .compare .page .le (.constant 2)⟩]
  have hgaps : Gap.ofTexts page.gaps = .ok gaps := by
    rw [Gap.ofTexts, List.mapM_cons, List.mapM_nil, Gap.ofText_of_parse hparse]
    rfl
  have hwindow : windowOf gaps 2 10 15 = ⟨9, 9, 2, 2, 15⟩ := by cbv
  have hpage : page.fresh = .ok ⟨9, 9, 2, 2, 15⟩ := by
    have hnew := (Slicer.Reachable.fresh : Slicer.Reachable gaps _).remembers
    obtain ⟨s, hs, -⟩ := hnew.window (show 1 ≤ 2 by decide) (show 1 ≤ 10 by decide) 15
    rw [WindowRequest.fresh_of_ofTexts hgaps, hs, hwindow]
    rfl
  have hmissing : missing.fresh = .error (.page 0 10) := by
    have hgaps : Gap.ofTexts missing.gaps = .ok gaps := hgaps
    rw [WindowRequest.fresh_of_ofTexts hgaps, Slicer.window_eq_error (.inl rfl)]
    rfl
  have hanswers : requests.map WindowRequest.fresh = [.ok ⟨9, 9, 2, 2, 15⟩, .error (.page 0 10),
      .ok ⟨9, 9, 2, 2, 15⟩] := by
    rw [List.map_cons, List.map_cons, List.map_cons, List.map_nil, hpage, hmissing]
  have hsound := (serve_all requests Reachable.fresh.sound .empty).2.1
  obtain ⟨hserved, -, -, hagain⟩ := serve_eq_fresh requests
  obtain ⟨s, hknown, hmemo, -⟩ := hagain page _ ((hsound.serve_eq page).trans hpage)
  exact ⟨hserved.trans hanswers, s, hknown, hmemo⟩

end SlicerRegistry

end EntityQuery
