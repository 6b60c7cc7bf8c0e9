import EntityQuery.Proofs.Cache.Faithful

/-!
# Work on a faithful cache

The observers that the cache puts into computations tell the entries of what they observe
(`Computation.Admissible`). Running such a computation, now or later, reports right results only
(`Computation.Admissible.advances_visit`).

What is done with a cache is described by what it gives (`Workspace.Gives`): it keeps every faithful
cache faithful, entries keep their keys, and what is asserted of the outcome holds of the entries as
they are then.
-/

namespace EntityQuery

variable {C : Contents}

/-! ## Running computations -/

/-- Leaves hold what the indexes hold, and observers tell the entries of what they observe. -/
def Contents.provenanceIn (C : Contents) (entries : Entries) : Provenance where
  snapshot := C.provenance.snapshot
  prices := C.provenance.prices
  partless := C.provenance.partless
  cached := C.provenance.cached
  observer o inner :=
    SingleVersion inner.snapshots ∧ Entries.Follows entries o .filter inner.digest

/-- Nothing more is asked of leaves than that they hold what the indexes hold. -/
theorem Contents.provenanceIn_le (entries : Entries) : (C.provenanceIn entries).Le C.provenance :=
  ⟨fun _ h => h, fun _ _ h => h, fun h => h, fun _ _ h => h, fun _ _ _ => trivial⟩

/-- Observers go on telling the entries of what they observe. -/
theorem Contents.provenanceIn_mono {old new : Entries} (hkeep : Entries.Keeps old new) :
    (C.provenanceIn old).Le (C.provenanceIn new) :=
  ⟨fun _ h => h, fun _ _ h => h, fun h => h, fun _ _ h => h,
    fun _ _ h => ⟨h.1, h.2.mono hkeep⟩⟩

/-- A first run is reported, where the observer tells the entry of what was run. -/
theorem Entries.Advances.memoryReport {m : Memory} {observer : Option Observer} {kind : RecordKind}
    {content : Digest} {computed : Computed}
    (hfollows : ∀ o ∈ observer, Follows m.entries o kind content)
    (hright : computed.payload.RightFor C kind content computed.snapshots) :
    Advances C m.entries (m.report observer computed).entries := by
  rcases observer with - | o
  · exact .refl _
  · exact .report (hfollows o rfl) hright

/-- Running a filter reports right results only. -/
theorem Formula.Built.advances_visit {f : Formula} {entries : Entries}
    (h : f.Built (C.provenanceIn entries)) {m : Memory} (hkeep : Entries.Keeps entries m.entries) :
    Entries.Advances C m.entries (f.visit m).entries := by
  -- Entries advance from any memory that still has the entries which the observers tell.
  let R (m m' : Memory) : Prop :=
    Entries.Keeps entries m.entries → Entries.Advances C m.entries m'.entries
  have htrans {a b c : Memory} (hab : R a b) (hbc : R b c) : R a c :=
    fun ha => (hab ha).trans (hbc (ha.trans (hab ha).keeps))
  refine h.visit_rel (R := R) (fun m _ => .refl m.entries) htrans (fun m _ _ => .refl m.entries) ?_
    m hkeep
  intro m id inner o cost hinner ho hkeep
  obtain ⟨hsingle, hfollows⟩ := ho
  have hbuilt : (Computation.filter inner).Built C := hinner.mono (C.provenanceIn_le entries)
  exact .report (hfollows.mono hkeep) (Computation.rightFor hbuilt hsingle)

namespace Computation

/-- Whether a computation is built as it should be, and its observers tell the entries of what they
observe. -/
def BuiltIn (C : Contents) (entries : Entries) : Computation → Prop
  | filter f => f.Built (C.provenanceIn entries)
  | facets c => c.Built (C.provenanceIn entries)
    ∧ ∀ o ∈ c.observer, Entries.Follows entries o .extra c.digest
  | order r => r.Built C ∧ ∀ o ∈ r.observer, Entries.Follows entries o .sorted r.digest

/-- A computation that a cache may be given. -/
structure Admissible (C : Contents) (entries : Entries) (x : Computation) : Prop where
  /-- It is built as it should be. -/
  built : x.BuiltIn C entries
  /-- It reads no index at two versions. -/
  single : SingleVersion x.snapshots

/-- What a cache may be given is built as it should be. -/
theorem BuiltIn.built {entries : Entries} {x : Computation} (h : x.BuiltIn C entries) :
    x.Built C := by
  rcases x with f | c | r
  · exact Formula.Built.mono (C.provenanceIn_le entries) h
  · exact h.1.mono (C.provenanceIn_le entries)
  · exact h.1

/-- What a cache may be given, it may be given later. -/
theorem Admissible.mono {old new : Entries} (hkeep : Entries.Keeps old new) {x : Computation}
    (h : x.Admissible C old) : x.Admissible C new := by
  refine ⟨?_, h.single⟩
  obtain ⟨hbuilt, -⟩ := h
  rcases x with f | c | r
  · exact Formula.Built.mono (Contents.provenanceIn_mono hkeep) hbuilt
  · exact ⟨hbuilt.1.mono (Contents.provenanceIn_mono hkeep), fun o ho => (hbuilt.2 o ho).mono hkeep⟩
  · exact ⟨hbuilt.1, fun o ho => (hbuilt.2 o ho).mono hkeep⟩

/-- Running a computation reports right results only. -/
theorem Admissible.advances_visit {x : Computation} {m : Memory} (h : x.Admissible C m.entries) :
    Entries.Advances C m.entries (x.visit m).entries := by
  obtain ⟨hbuilt, hsingle⟩ := h
  have hright := rightFor hbuilt.built hsingle
  rcases x with f | c | r
  · exact Formula.Built.advances_visit hbuilt (.refl m.entries)
  · obtain ⟨hc, hfollows⟩ := hbuilt
    show Entries.Advances C m.entries (c.visit m).entries
    unfold FacetCount.visit
    split_ifs
    · exact .refl m.entries
    · -- The filter is computed first, and its reports may come before that of the count.
      have hfilter := hc.filter.advances_visit (.refl m.entries)
      have hfollows : ∀ o ∈ c.observer, Entries.Follows (c.filter.visit m).entries o .extra
          c.digest := fun o ho => (hfollows o ho).mono hfilter.keeps
      exact hfilter.trans (.memoryReport hfollows hright)
  · obtain ⟨-, hfollows⟩ := hbuilt
    show Entries.Advances C m.entries (r.visit m).entries
    unfold MergedRecords.visit
    split_ifs
    · exact .refl m.entries
    · exact .memoryReport hfollows hright

end Computation

/-! ## Work on a faithful cache -/

namespace Workspace

variable {α β : Type} {base : Entries}

/-- Whether some work keeps every cache faithful that has certain entries, keeps all entries there,
and gives what it should. -/
def Gives (C : Contents) (base : Entries) (x : Work α) (post : Entries → α → Prop) : Prop :=
  ∀ w : Workspace, w.Faithful C → Entries.Keeps base w.memory.entries →
    (x.run w).2.Faithful C ∧ Entries.Keeps w.memory.entries (x.run w).2.memory.entries
      ∧ post (x.run w).2.memory.entries (x.run w).1

namespace Gives

variable {x : Work α} {post : Entries → α → Prop}

/-- Work can be done later. -/
theorem later (h : Gives C base x post) {entries : Entries} (hkeep : Entries.Keeps base entries) :
    Gives C entries x post :=
  fun w hw hbase => h w hw (hkeep.trans hbase)

/-- What needs no work is given right away. -/
theorem pure {a : α} (h : ∀ entries, Entries.Keeps base entries → post entries a) :
    Gives C base (Pure.pure a) post :=
  fun _ hw hbase => ⟨hw, .refl _, h _ hbase⟩

/-- Some work is done with what other work has given. -/
theorem bind {f : α → Work β} {result : Entries → β → Prop} (hx : Gives C base x post)
    (hf : ∀ entries a, Entries.Keeps base entries → post entries a → Gives C entries (f a) result) :
    Gives C base (x >>= f) result := by
  intro w hw hbase
  obtain ⟨hfaithful, hkeep, ha⟩ := hx w hw hbase
  obtain ⟨hfaithful', hkeep', hb⟩ := hf _ _ (hbase.trans hkeep) ha _ hfaithful (.refl _)
  exact ⟨hfaithful', hkeep.trans hkeep', hb⟩

/-- Work that only uses the memory, and leaves the entries alone. -/
theorem ofRun {y : Run α} (hentries : ∀ m, (y.run m).2.entries = m.entries)
    (h : ∀ m, Entries.Keeps base m.entries → post m.entries (y.run m).1) :
    Gives C base (MonadLift.monadLift y) post := by
  intro w hw hbase
  have hsame : (y.run w.memory).2.entries = w.memory.entries := hentries w.memory
  have hadvances : Entries.Advances C w.memory.entries (y.run w.memory).2.entries := by
    rw [hsame]
    exact .refl _
  refine ⟨hw.withMemory hadvances, hadvances.keeps, ?_⟩
  have hpost := h w.memory hbase
  rw [← hsame] at hpost
  exact hpost

/-- A lookup gives a right answer. -/
theorem consult (scope : Scope) (kind : RecordKind) (content snapshots : Digest) (cost : ℕ) :
    Gives C base (Workspace.consult scope kind content snapshots cost) fun entries r =>
      ∀ answer ∈ r, answer.Right C entries kind content snapshots :=
  fun _ hw _ => hw.consult scope kind content snapshots cost

/-- A computation is looked up, and the work goes on. Where the cache has a result, it is that of
the computation, and where it has an entry, the entry follows the computation. -/
theorem lookUp {z : Computation} (hbuilt : z.Built C) (hsingle : SingleVersion z.snapshots)
    (scope : Scope) (cost : ℕ) {f : Option Lookup → Work α}
    (hhit : ∀ entries, Entries.Keeps base entries → Gives C entries (f (some (.hit z.result))) post)
    (hrecord : ∀ entries i, Entries.Keeps base entries →
      Entries.Follows entries (.recording i) z.kind z.digest →
        Gives C entries (f (some (.record i))) post)
    (hadept : ∀ entries i, Entries.Keeps base entries →
      Entries.Follows entries (.adept i) z.kind z.digest →
        Gives C entries (f (some (.adept i))) post)
    (hstale : ∀ entries, Entries.Keeps base entries → Gives C entries (f (some .stale)) post)
    (hnone : ∀ entries, Entries.Keeps base entries → Gives C entries (f none) post) :
    Gives C base (Workspace.consult scope z.kind z.digest z.snapshotsDigest cost >>= f) post := by
  refine bind (consult scope z.kind z.digest z.snapshotsDigest cost) ?_
  intro entries r hkeep hanswer
  rcases r with - | payload | i | i | -
  · exact hnone entries hkeep
  · -- A recorded result is that of every computation like this one, so it is that of this one.
    obtain rfl : z.result = payload := hanswer _ rfl z hbuilt hsingle rfl rfl rfl
    exact hhit entries hkeep
  · exact hrecord entries i hkeep (hanswer _ rfl)
  · exact hadept entries i hkeep (hanswer _ rfl)
  · exact hstale entries hkeep

end Gives

end Workspace

end EntityQuery
