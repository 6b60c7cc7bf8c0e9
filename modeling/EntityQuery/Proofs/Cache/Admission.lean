import EntityQuery.Proofs.Cache.Uses

/-!
# Who is let in

Candidates are let in from the highest rank down, so whether one gets in is settled by those ahead
of it: it gets in exactly where it fits beside what was let in of them
(`Admission.mem_ofCandidates_iff`). Those ahead of a better candidate are the first of those ahead
of a worse one, and letting in more takes no fewer bytes (`Admission.fits_of_first`). A candidate
that gets in where a better one does not is therefore smaller (`Admission.size_lt_of_skipped`), and
who gets in would get in with a better ratio, too (`Admission.mem_of_improved`). Candidates with
different keys have one order by rank only, so it does not matter in which order they are given
(`Admission.ofCandidates_perm`).
-/

namespace EntityQuery

namespace Candidate

/-- A candidate ranks no later with a ratio that is no lower. -/
theorem ranksBefore_of_ratio_le {a b : Candidate} (hkey : a.key = b.key) (h : b.ratio ≤ a.ratio) :
    a.ranksBefore b = true := by
  have hle := Digest.le_total b.key b.key
  rw [Bool.or_self] at hle
  simp only [ranksBefore, Bool.or_eq_true, Bool.and_eq_true, decide_eq_true_eq, beq_iff_eq, hkey]
  rcases Nat.lt_or_eq_of_le h with hlt | heq
  · exact .inl hlt
  · exact .inr ⟨heq.symm, hle⟩

/-- Two candidates of the same rank have the same key. -/
theorem key_eq_of_ranksBefore {a b : Candidate} (hab : a.ranksBefore b) (hba : b.ranksBefore a) :
    a.key = b.key := by
  simp only [ranksBefore, Bool.or_eq_true, Bool.and_eq_true, decide_eq_true_eq, beq_iff_eq] at *
  rcases hab with hab | ⟨hab, hkeys⟩
  · omega
  · rcases hba with hba | ⟨-, hkeys'⟩
    · omega
    · exact Digest.le_antisymm hkeys hkeys'

/-- The candidates from the highest rank down. -/
def ranked (candidates : List Candidate) : List Candidate :=
  candidates.mergeSort ranksBefore

/-- Ranking keeps all candidates. -/
theorem ranked_perm (candidates : List Candidate) : (ranked candidates).Perm candidates :=
  List.mergeSort_perm _ _

/-- Ranked candidates come from the highest rank down. -/
theorem ranked_pairwise (candidates : List Candidate) :
    (ranked candidates).Pairwise fun a b => a.ranksBefore b = true :=
  List.pairwise_mergeSort ranksBefore_trans ranksBefore_total candidates

/-- Candidates with different keys have one order by rank. -/
theorem eq_of_perm {l l' : List Candidate} (hkeys : (l.map key).Nodup) (hperm : l.Perm l')
    (hl : l.Pairwise fun a b => a.ranksBefore b = true)
    (hl' : l'.Pairwise fun a b => a.ranksBefore b = true) : l = l' := by
  refine hperm.eq_of_pairwise (fun a b ha hb hab hba => ?_) hl hl'
  exact List.inj_on_of_nodup_map hkeys ha (hperm.mem_iff.2 hb) (key_eq_of_ranksBefore hab hba)

/-- The candidates ahead of some rank, from the highest rank down. -/
def ahead (candidates : List Candidate) (c : Candidate) : List Candidate :=
  (ranked candidates).filter fun b => !c.ranksBefore b

/-- Those ahead of a better rank are the first of those ahead of a worse one. -/
theorem ahead_first (candidates : List Candidate) {b c : Candidate} (h : b.ranksBefore c) :
    ahead candidates b <+: ahead candidates c := by
  unfold ahead
  have hsorted := ranked_pairwise candidates
  generalize ranked candidates = sorted at hsorted ⊢
  induction sorted with
  | nil => exact List.prefix_rfl
  | cons a rest ih =>
    obtain ⟨ha, hrest⟩ := List.pairwise_cons.1 hsorted
    by_cases hb : b.ranksBefore a = true
    · -- All that follows is behind `a`, which is behind `b`.
      have hnone : (a :: rest).filter (fun x => !b.ranksBefore x) = [] := by
        refine List.filter_eq_nil_iff.2 fun x hx => ?_
        have hbx : b.ranksBefore x = true := by
          rcases List.mem_cons.1 hx with rfl | hx
          · exact hb
          · exact ranksBefore_trans b a x hb (ha x hx)
        simp [hbx]
      rw [hnone]
      exact List.nil_prefix
    · have hc : ¬c.ranksBefore a = true := fun hc => hb (ranksBefore_trans b c a h hc)
      simpa [hb, hc] using ih hrest

/-- A candidate stands behind those ahead of it. -/
theorem ranked_eq_append {candidates : List Candidate} {c : Candidate}
    (hkeys : (candidates.map key).Nodup) (hc : c ∈ candidates) :
    ∃ behind, ranked candidates = ahead candidates c ++ c :: behind := by
  obtain ⟨before, behind, hsplit⟩ := List.append_of_mem ((ranked_perm candidates).mem_iff.2 hc)
  have hsorted := ranked_pairwise candidates
  have hnodup := ((ranked_perm candidates).map key).nodup_iff.2 hkeys
  rw [hsplit] at hsorted hnodup
  obtain ⟨-, hbehind, hbefore⟩ := List.pairwise_append.1 hsorted
  refine ⟨behind, ?_⟩
  have hfront : before.filter (fun b => !c.ranksBefore b) = before := by
    refine List.filter_eq_self.2 fun b hb => ?_
    have hne : b.key ≠ c.key := by
      rw [List.map_append] at hnodup
      exact (List.nodup_append.1 hnodup).2.2 _ (List.mem_map_of_mem hb) _
        (List.mem_map_of_mem List.mem_cons_self)
    have hbc := hbefore b hb c List.mem_cons_self
    by_cases hcb : c.ranksBefore b = true
    · exact absurd (key_eq_of_ranksBefore hbc hcb) hne
    · simp [hcb]
  have hback : (c :: behind).filter (fun b => !c.ranksBefore b) = [] := by
    refine List.filter_eq_nil_iff.2 fun b hb => ?_
    have hcb : c.ranksBefore b = true := by
      rcases List.mem_cons.1 hb with rfl | hb
      · exact ranksBefore_of_ratio_le rfl (Nat.le_refl b.ratio)
      · exact (List.pairwise_cons.1 hbehind).1 b hb
    simp [hcb]
  rw [ahead, hsplit, List.filter_append, hfront, hback, List.append_nil]

end Candidate

namespace Admission

open Candidate

variable {budget : ℕ} {candidates : List Candidate} {b c : Candidate}

/-- It does not matter in which order candidates with different keys are given. -/
theorem ofCandidates_perm {candidates' : List Candidate} (hkeys : (candidates.map key).Nodup)
    (hperm : candidates.Perm candidates') (budget : ℕ) :
    ofCandidates budget candidates = ofCandidates budget candidates' := by
  have hranked : ranked candidates = ranked candidates' := by
    refine eq_of_perm (((ranked_perm candidates).map key).nodup_iff.2 hkeys) ?_
      (ranked_pairwise _) (ranked_pairwise _)
    exact ((ranked_perm candidates).trans hperm).trans (ranked_perm candidates').symm
  exact congrArg (List.foldl (letIn budget) {}) hranked

/-- Letting one candidate in takes no fewer bytes, within a budget that sums can exceed. -/
theorem usedBytes_le_letIn (hbudget : budget < Word.max) (a : Admission) (c : Candidate) :
    a.usedBytes ≤ (a.letIn budget c).usedBytes := by
  unfold letIn
  split_ifs with hfits
  · unfold Word.satAdd at hfits
    have hsum : a.usedBytes + c.size < Word.max := by omega
    have hword : Word.max < Word.modulus := by decide
    show a.usedBytes ≤ Word.wrap (a.usedBytes + c.size)
    rw [Word.wrap_of_lt (hsum.trans hword)]
    exact Nat.le_add_right _ _
  · exact Nat.le_refl _

/-- Letting more candidates in takes no fewer bytes. -/
theorem usedBytes_le_foldl (hbudget : budget < Word.max) (candidates : List Candidate)
    (a : Admission) : a.usedBytes ≤ (candidates.foldl (letIn budget) a).usedBytes := by
  induction candidates generalizing a with
  | nil => exact Nat.le_refl _
  | cons c rest ih => exact (usedBytes_le_letIn hbudget a c).trans (ih _)

/-- What fits beside some candidates fits beside the first of them. -/
theorem fits_of_first {front all : List Candidate} {size size' : ℕ} (hfirst : front <+: all)
    (hsize : size ≤ size')
    (hfits : Word.satAdd (all.foldl (letIn budget) {}).usedBytes size' ≤ budget) :
    Word.satAdd (front.foldl (letIn budget) {}).usedBytes size ≤ budget := by
  by_cases hbudget : budget < Word.max
  · obtain ⟨rest, rfl⟩ := hfirst
    rw [List.foldl_append] at hfits
    have hmore := usedBytes_le_foldl hbudget rest (front.foldl (letIn budget) {})
    unfold Word.satAdd at *
    omega
  · -- No sum exceeds such a budget.
    exact (Word.satAdd_le_max _ _).trans (Nat.le_of_not_lt hbudget)

/-- A candidate is let in exactly where it fits beside what was let in of those ahead of it. -/
theorem mem_ofCandidates_iff (hkeys : (candidates.map key).Nodup)
    (hentries : (candidates.map entry).Nodup) (hc : c ∈ candidates) :
    c.entry ∈ (ofCandidates budget candidates).entries ↔
      Word.satAdd ((ahead candidates c).foldl (letIn budget) {}).usedBytes c.size ≤ budget := by
  obtain ⟨behind, hsplit⟩ := ranked_eq_append hkeys hc
  have hnodup := ((ranked_perm candidates).map entry).nodup_iff.2 hentries
  rw [hsplit, List.map_append, List.map_cons, List.nodup_middle, List.nodup_cons,
    ← List.map_append] at hnodup
  -- Neither those ahead nor those behind have the entry of the candidate.
  have hothers : ∀ admitted : List Candidate, admitted.Sublist (ahead candidates c)
      ∨ admitted.Sublist behind → c.entry ∉ (admitted.map entry).reverse := by
    intro admitted hsublist hmem
    refine hnodup.1 ?_
    obtain ⟨d, hd, hentry⟩ := List.mem_map.1 (List.mem_reverse.1 hmem)
    refine List.mem_map.2 ⟨d, List.mem_append.2 ?_, hentry⟩
    exact hsublist.imp (fun h => h.subset hd) fun h => h.subset hd
  obtain ⟨front, hfront, hbefore, -⟩ := foldl_letIn budget (ahead candidates c) {}
  obtain ⟨back, hback, hafter, -⟩ := foldl_letIn budget behind
    (((ahead candidates c).foldl (letIn budget) {}).letIn budget c)
  have hall : ofCandidates budget candidates = (ranked candidates).foldl (letIn budget) {} := rfl
  rw [hall, hsplit, List.foldl_append, List.foldl_cons, hafter, List.mem_append,
    or_iff_right (hothers back (.inr hback)), letIn]
  split_ifs with hfits
  · exact iff_of_true List.mem_cons_self hfits
  · refine iff_of_false ?_ hfits
    rw [hbefore, List.append_nil]
    exact hothers front (.inl hfront)

/-- A candidate that is let in where a better one is not is smaller. -/
theorem size_lt_of_skipped (hkeys : (candidates.map key).Nodup)
    (hentries : (candidates.map entry).Nodup) (hb : b ∈ candidates) (hc : c ∈ candidates)
    (hranks : b.ranksBefore c) (hin : c.entry ∈ (ofCandidates budget candidates).entries)
    (hout : b.entry ∉ (ofCandidates budget candidates).entries) : c.size < b.size := by
  by_contra hsize
  refine hout ((mem_ofCandidates_iff hkeys hentries hb).2 ?_)
  exact fits_of_first (ahead_first candidates hranks) (Nat.le_of_not_lt hsize)
    ((mem_ofCandidates_iff hkeys hentries hc).1 hin)

/-- A candidate that is let in would be let in with a better ratio, too. -/
theorem mem_of_improved {front back : List Candidate} {c' : Candidate}
    (hkeys : ((front ++ c :: back).map key).Nodup)
    (hentries : ((front ++ c :: back).map entry).Nodup) (hkey : c'.key = c.key)
    (hentry : c'.entry = c.entry) (hsize : c'.size = c.size) (hranks : c'.ranksBefore c)
    (hin : c.entry ∈ (ofCandidates budget (front ++ c :: back)).entries) :
    c'.entry ∈ (ofCandidates budget (front ++ c' :: back)).entries := by
  have hkeys' : ((front ++ c' :: back).map key).Nodup := by simpa [hkey] using hkeys
  have hentries' : ((front ++ c' :: back).map entry).Nodup := by simpa [hentry] using hentries
  -- The others do not change, and neither do those of them that are ahead of the better rank.
  have hsame : ahead (front ++ c' :: back) c' = ahead (front ++ c :: back) c' := by
    have hperm : (ahead (front ++ c' :: back) c').Perm (ahead (front ++ c :: back) c') := by
      refine ((ranked_perm _).filter _).trans (.trans ?_ ((ranked_perm _).filter _).symm)
      simp [List.filter_append, hranks, ranksBefore_of_ratio_le]
    refine eq_of_perm ?_ hperm ((ranked_pairwise _).filter _) ((ranked_pairwise _).filter _)
    exact (((ranked_perm _).map key).nodup_iff.2 hkeys').sublist (List.filter_sublist.map key)
  have hfits := (mem_ofCandidates_iff hkeys hentries (by simp)).1 hin
  refine (mem_ofCandidates_iff hkeys' hentries' (by simp)).2 ?_
  rw [hsame]
  exact fits_of_first (ahead_first _ hranks) (Nat.le_of_eq hsize) hfits

end Admission

namespace TableState

/-- Whether a slot competes for room in a sweep: as a record that does not expire, or as an adept
that is worth being promoted. -/
def competes (s : TableState) (kind : SweepKind) (p : Digest × Slot) : Bool :=
  s.entries[p.2.entry]?.any fun e =>
    if p.2.isAdept then e.isWorth s.table.options
    else !s.table.isExpired kind e

/-- What competes for room in a sweep. -/
def contenders (s : TableState) (kind : SweepKind) : List Candidate :=
  (s.table.slots.filter (s.competes kind)).map s.contender

variable {s : TableState} {kind : SweepKind}

/-- The candidates of a sweep are what competes for room. -/
theorem Consistent.candidate?_eq (h : s.Consistent) {p : Digest × Slot} (hp : p ∈ s.table.slots)
    (kind : SweepKind) :
    s.table.candidate? kind s.entries p.1 p.2
      = if s.competes kind p = true then some (s.contender p) else none := by
  obtain ⟨e, he, hsuit⟩ := h.suits p hp
  obtain ⟨key, slot⟩ := p
  rcases slot with i | i
  · have he : s.entries[i]? = some e := he
    rcases hm : e.metrics with - | m
    · simp [Table.candidate?, competes, Entry.isWorth, Slot.entry, he, hm]
    · simp [Table.candidate?, competes, contender, bytesAt, Entry.isWorth, Entry.ratio?,
        Entry.size, Slot.entry, he, hm]
  · have he : s.entries[i]? = some e := he
    obtain ⟨m, hm⟩ := Option.isSome_iff_exists.1 hsuit
    simp only [Table.candidate?, competes, contender, bytesAt, Entry.ratio?, Entry.size,
      Slot.entry, Slot.isAdept_cached, he, hm, bind, Option.bind_some, Option.map_some,
      Option.any_some, Option.elim_some, Option.getD_some, Bool.false_eq_true, if_false]
    rcases s.table.isExpired kind e with - | - <;> rfl

/-- What a sweep lets in, it lets in of what competes for room. -/
theorem Consistent.admission_eq (h : s.Consistent) (kind : SweepKind) :
    s.table.admission kind s.entries
      = .ofCandidates s.table.options.cacheSize (s.contenders kind) := by
  have hcandidates : (s.table.slots.filterMap fun p =>
      s.table.candidate? kind s.entries p.1 p.2) = s.contenders kind := by
    rw [contenders, ← List.filterMap_eq_map, List.filterMap_filter]
    exact List.filterMap_congr fun p hp => h.candidate?_eq hp kind
  rw [Table.admission, hcandidates]

/-- Different contenders have different keys. -/
theorem Consistent.nodup_contender_keys (h : s.Consistent) (kind : SweepKind) :
    ((s.contenders kind).map Candidate.key).Nodup := by
  rw [contenders, List.map_map]
  exact h.nodup_keys.sublist (List.filter_sublist.map Prod.fst)

/-- Different contenders have different entries. -/
theorem Consistent.nodup_contender_entries (h : s.Consistent) (kind : SweepKind) :
    ((s.contenders kind).map Candidate.entry).Nodup := by
  rw [contenders, List.map_map]
  exact h.nodup_entries.sublist (List.filter_sublist.map _)

/-- A slot is that of a record after a sweep exactly where its entry was let in. -/
theorem Consistent.hasRecord_sweep_iff (h : s.Consistent) {p : Digest × Slot}
    (hp : p ∈ s.table.slots) (number : ℕ) (kind : SweepKind) :
    (s.next number (.sweep kind)).hasRecord p.1 = true
      ↔ p.2.entry ∈ (s.table.admission kind s.entries).entries := by
  rw [hasRecord, h.slot?_sweep, h.slot?_eq_some_iff.2 hp, Option.bind_some]
  have hcached (i : EntryId) :
      Table.applyVerdict p.2 (s.table.judge kind s.isHeld s.entries p.2) = some (.cached i)
        ↔ p.2.entry = i ∧ i ∈ (s.table.admission kind s.entries).entries :=
    Table.applyVerdict_judge_eq_cached h.nodup_entries h.entry_lt hp i
  constructor
  · intro hrecord
    obtain ⟨slot, hslot, hadept⟩ := (Option.any_eq_true _ _).1 hrecord
    rcases slot with i | i
    · exact absurd hadept (by simp)
    · obtain ⟨rfl, hin⟩ := (hcached i).1 hslot
      exact hin
  · intro hin
    rw [(hcached p.2.entry).2 ⟨rfl, hin⟩]
    rfl

end TableState

end EntityQuery
