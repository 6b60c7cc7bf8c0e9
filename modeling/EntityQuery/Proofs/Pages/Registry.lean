import EntityQuery.Proofs.Pages.Walk

/-!
# Registries of slicers

A registry hands out the slicer that it knows for some gaps, with all that the slicer remembers, or
else a new one. `SlicerRegistry.Reachable.sound` shows that whatever windows were asked for before,
each slicer in use is one for the gaps that it is found by and remembers windows of the walk only,
so that a registry gives the window of the table (`SlicerRegistry.Sound.window`).
-/

namespace EntityQuery

/-- The gaps that some texts spell. -/
def Gap.ofTexts (texts : List (ℕ × String)) : Except Error (List Gap) :=
  texts.mapM fun g => Gap.ofText g.1 g.2

/-- A gap has the condition that its text is parsed to. -/
theorem Gap.ofText_of_parse {size : ℕ} {text : String} {e : PageExpr}
    (h : PageExpr.parse text = .ok e) : Gap.ofText size text = .ok ⟨size, e⟩ := by
  unfold Gap.ofText
  rw [h]

namespace SlicerRegistry

/-- The registries that calls can lead to, in any order and with any arguments. -/
inductive Reachable : SlicerRegistry → Prop
  /-- A new registry knows no slicer. -/
  | fresh : Reachable {}
  /-- A call may let a registry remember a slicer, and forget others. -/
  | window {r : SlicerRegistry} (texts : List (ℕ × String)) (number size total : ℕ)
    (hr : Reachable r) : Reachable (r.window texts number size total).2

/-- Whether all slicers in use are for the gaps that they are found by, and remember windows of the
walk only. -/
def Sound (r : SlicerRegistry) : Prop :=
  ∀ texts s, r.slicers[texts]? = some s → ∃ gaps, Gap.ofTexts texts = .ok gaps ∧ s.Remembers gaps

/-- A registry that comes to know one more such slicer still knows only such slicers. -/
theorem Sound.remember {r : SlicerRegistry} (h : r.Sound) {texts : List (ℕ × String)}
    {gaps : List Gap} (htexts : Gap.ofTexts texts = .ok gaps) {s : Slicer}
    (hs : s.Remembers gaps) : (r.remember texts s).Sound := by
  intro texts' s' hs'
  unfold SlicerRegistry.remember at hs'
  -- With room left the other slicers are kept, and else they are forgotten.
  split_ifs at hs' with hroom
  · rw [Std.HashMap.getElem?_insert] at hs'
    split_ifs at hs' with hsame
    · rw [← eq_of_beq hsame]
      exact ⟨gaps, htexts, Option.some.inj hs' ▸ hs⟩
    · exact h texts' s' hs'
  · rw [Std.HashMap.getElem?_insert] at hs'
    split_ifs at hs' with hsame
    · rw [← eq_of_beq hsame]
      exact ⟨gaps, htexts, Option.some.inj hs' ▸ hs⟩
    · simp at hs'

/-- The slicer that a registry hands out is for the gaps, if they can be parsed. -/
theorem Sound.slicer {r : SlicerRegistry} (h : r.Sound) {texts : List (ℕ × String)} {s : Slicer}
    (hs : r.slicer texts = .ok s) : ∃ gaps, Gap.ofTexts texts = .ok gaps ∧ s.Remembers gaps := by
  unfold SlicerRegistry.slicer at hs
  split at hs
  · rename_i known hknown
    exact h texts s (Except.ok.inj hs ▸ hknown)
  · have hparsed : (Gap.ofTexts texts).map (fun gaps => ({ gaps } : Slicer)) = .ok s := hs
    rcases htexts : Gap.ofTexts texts with e | gaps
    · rw [htexts] at hparsed
      exact absurd hparsed (by simp [Except.map])
    · rw [htexts] at hparsed
      refine ⟨gaps, rfl, ?_⟩
      rw [← Except.ok.inj hparsed]
      exact ⟨rfl, fun _ _ _ _ hw => by simp at hw⟩

/-- Where the gaps can be parsed, a registry has a slicer for them. -/
theorem exists_slicer (r : SlicerRegistry) {texts : List (ℕ × String)} {gaps : List Gap}
    (htexts : Gap.ofTexts texts = .ok gaps) : ∃ s, r.slicer texts = .ok s := by
  unfold SlicerRegistry.slicer
  split
  · rename_i s hs
    exact ⟨s, rfl⟩
  · have hparsed : ∃ s, (Gap.ofTexts texts).map (fun gaps => ({ gaps } : Slicer)) = .ok s := by
      rw [htexts]
      exact ⟨_, rfl⟩
    exact hparsed

/-- Where gaps cannot be parsed, there is no slicer for them. -/
theorem Sound.slicer_eq_error {r : SlicerRegistry} (h : r.Sound) {texts : List (ℕ × String)}
    {e : Error} (htexts : Gap.ofTexts texts = .error e) : r.slicer texts = .error e := by
  unfold SlicerRegistry.slicer
  split
  · rename_i s hs
    obtain ⟨gaps, hgaps, -⟩ := h texts s hs
    exact absurd (htexts.symm.trans hgaps) nofun
  · have hparsed : (Gap.ofTexts texts).map (fun gaps => ({ gaps } : Slicer)) = .error e := by
      rw [htexts]
      rfl
    exact hparsed

/-- A call with parseable gaps, a page number and a page size gives the window of the walk, and the
registry still knows only slicers of this kind. -/
theorem Sound.window {r : SlicerRegistry} (h : r.Sound) {texts : List (ℕ × String)}
    {gaps : List Gap} (htexts : Gap.ofTexts texts = .ok gaps) {number size : ℕ}
    (hnumber : 1 ≤ number) (hsize : 1 ≤ size) (total : ℕ) :
    ∃ r', r.window texts number size total = (.ok (windowOf gaps number size total), r') ∧
      r'.Sound := by
  obtain ⟨s, hs⟩ := r.exists_slicer htexts
  obtain ⟨gaps', htexts', hremembers⟩ := h.slicer hs
  obtain rfl : gaps = gaps' := Except.ok.inj (htexts.symm.trans htexts')
  obtain ⟨s', hs', hremembers'⟩ := hremembers.window hnumber hsize total
  refine ⟨r.remember texts s', ?_, h.remember htexts hremembers'⟩
  unfold SlicerRegistry.window
  rw [hs]
  simp only
  rw [hs']

/-- Whatever the call, the registry still knows only slicers of this kind. -/
theorem Sound.after {r : SlicerRegistry} (h : r.Sound) (texts : List (ℕ × String))
    (number size total : ℕ) : (r.window texts number size total).2.Sound := by
  rcases hs : r.slicer texts with e | s
  · unfold SlicerRegistry.window
    rw [hs]
    exact h
  · obtain ⟨gaps, htexts, hremembers⟩ := h.slicer hs
    by_cases hzero : number = 0 ∨ size = 0
    · -- A call that is refused remembers nothing new.
      unfold SlicerRegistry.window
      rw [hs]
      simp only [Slicer.window_eq_error hzero]
      exact h.remember htexts hremembers
    · have hnumber : 1 ≤ number := by omega
      have hsize : 1 ≤ size := by omega
      obtain ⟨r', hr', hsound⟩ := h.window htexts hnumber hsize total
      rw [hr']
      exact hsound

/-- Whatever calls were made, a registry knows only slicers of this kind. -/
theorem Reachable.sound {r : SlicerRegistry} (h : r.Reachable) : r.Sound := by
  induction h with
  | fresh =>
    intro texts s hs
    simp at hs
  | window texts number size total _ ih => exact ih.after texts number size total

end SlicerRegistry

end EntityQuery
