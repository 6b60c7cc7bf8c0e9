import EntityQuery.Proofs.PageExpr.Grammar

/-!
# What is read from a text is spelled by it

A reader is sound for a grammar when the tokens that it takes off a text derive the value that it
gives (`Reader.Sound`). Every combinator keeps sound readers sound, whatever it tries and gives up
on the way, so the readers of operands and of conditions follow their productions one by one up to
`PageExpr.spelled_of_parseChars`.
-/

namespace EntityQuery

namespace Reader

variable {α β : Type}

/-- Whether a reader gives only what the tokens that it reads stand for. -/
def Sound (p : Reader α) (G : List Token → α → Prop) : Prop :=
  ∀ s a r, p s = .ok (a, r) → ∃ ts, Spells ts s r ∧ G ts a

namespace Sound

variable {p : Reader α} {q : Reader β} {G G' : List Token → α → Prop} {H : List Token → β → Prop}

/-- A reader that is sound for some tokens is sound for more. -/
theorem mono (h : Sound p G) (hsub : ∀ ts a, G ts a → G' ts a) : Sound p G' := by
  intro s a r hread
  obtain ⟨ts, hts, hG⟩ := h s a r hread
  exact ⟨ts, hts, hsub ts a hG⟩

/-- A token stands for its value. -/
theorem token (t : Token) (v : α) : Sound (Reader.token t v) fun ts a => ts = [t] ∧ a = v := by
  intro s a r hread
  unfold Reader.token at hread
  split_ifs at hread with hprefix
  obtain ⟨rest, rfl⟩ := List.isPrefixOf_iff_prefix.mp hprefix
  obtain ⟨rfl, rfl⟩ := Prod.mk.inj (Except.ok.inj hread)
  rw [List.drop_left]
  exact ⟨[t], .single t rest, rfl, rfl⟩

/-- Blanks around a piece do not matter. -/
theorem padded (h : Sound p G) : Sound (Reader.padded p) G := by
  intro s a r hread
  unfold Reader.padded at hread
  split at hread
  · rename_i b rest hitem
    obtain ⟨rfl, rfl⟩ := Prod.mk.inj (Except.ok.inj hread)
    obtain ⟨ts, hts, hG⟩ := h _ b rest hitem
    exact ⟨ts, hts.of_skipBlank.skipBlank_rest, hG⟩
  · exact absurd hread nofun

/-- Blanks in front of a piece do not matter. -/
theorem skipBlank (h : Sound p G) : Sound (fun s => p (Reader.skipBlank s)) G := by
  intro s a r hread
  obtain ⟨ts, hts, hG⟩ := h _ a r hread
  exact ⟨ts, hts.of_skipBlank, hG⟩

/-- A reader that tries others in order is sound where all of them are. -/
theorem firstOf {alternatives : List (Reader α)} {last : Reader α}
    (h : ∀ p ∈ alternatives, Sound p G) (hlast : Sound last G) :
    Sound (Reader.firstOf alternatives last) G := by
  intro s a r hread
  induction alternatives with
  | nil => exact hlast s a r hread
  | cons p others ih =>
    unfold Reader.firstOf at hread
    split at hread
    · rename_i result hp
      exact h p List.mem_cons_self s a r (hp.trans hread)
    · exact ih (fun q hq => h q (List.mem_cons_of_mem p hq)) hread

/-- What two readers read follows each other. -/
theorem both (hp : Sound p G) (hq : Sound q H) :
    Sound (Reader.both p q) fun ts ab => ∃ us vs, ts = us ++ vs ∧ G us ab.1 ∧ H vs ab.2 := by
  intro s ab r hread
  unfold Reader.both at hread
  split at hread
  · cases hread
  · rename_i a m hfirst
    split at hread
    · cases hread
    · rename_i b rest hsecond
      obtain ⟨rfl, rfl⟩ := Prod.mk.inj (Except.ok.inj hread)
      obtain ⟨us, hus, hG⟩ := hp s a m hfirst
      obtain ⟨vs, hvs, hH⟩ := hq m b rest hsecond
      exact ⟨us ++ vs, hus.append hvs, us, vs, rfl, hG, hH⟩

/-- A value may be sent through a function. -/
theorem mapped {f : α → β} (hp : Sound p G) (hf : ∀ ts a, G ts a → H ts (f a)) :
    Sound (Reader.mapped f p) H := by
  intro s b r hread
  unfold Reader.mapped at hread
  split at hread
  · rename_i a rest hitem
    obtain ⟨rfl, rfl⟩ := Prod.mk.inj (Except.ok.inj hread)
    obtain ⟨ts, hts, hG⟩ := hp s a rest hitem
    exact ⟨ts, hts, hf ts a hG⟩
  · exact absurd hread nofun

/-- Joining on from a value keeps to what may be joined. -/
theorem joinLeft {join : α → β → α} (hq : Sound q H)
    (hjoin : ∀ {ts us a b}, G ts a → H us b → G (ts ++ us) (join a b)) {a a' : α}
    {s m r : List Char} {ts : List Token} (hts : Spells ts s m) (ha : G ts a)
    (hread : Reader.joinLeft q join a m = (a', r)) : ∃ us, Spells us s r ∧ G us a' := by
  -- Every step shortens the rest.
  induction hlength : m.length using Nat.strong_induction_on generalizing a m ts with
  | _ n ih =>
    subst hlength
    unfold Reader.joinLeft at hread
    split at hread
    · obtain ⟨rfl, rfl⟩ := Prod.mk.inj hread
      exact ⟨ts, hts, ha⟩
    · rename_i b rest hnext
      split_ifs at hread with hshorter
      · obtain ⟨us, hus, hb⟩ := hq m b rest hnext
        exact ih rest.length hshorter (hts.append hus) (hjoin ha hb) hread rfl
      · obtain ⟨rfl, rfl⟩ := Prod.mk.inj hread
        exact ⟨ts, hts, ha⟩

/-- Operands of one rank, joined by its operators. -/
theorem leftAssoc {operator : Reader (α → α → α)} {O : List Token → (α → α → α) → Prop}
    (hoperator : Sound operator O) (hp : Sound p G') (hone : ∀ {ts a}, G' ts a → G ts a)
    (hmore : ∀ {ts us vs a f b}, G ts a → O us f → G' vs b → G (ts ++ (us ++ vs)) (f a b)) :
    Sound (Reader.leftAssoc operator p) G := by
  intro s a r hread
  unfold Reader.leftAssoc at hread
  split at hread
  · cases hread
  · rename_i first rest hfirst
    obtain ⟨ts, hts, hG⟩ := hp s first rest hfirst
    refine joinLeft (hoperator.padded.both hp) ?_ hts (hone hG) (Except.ok.inj hread)
    rintro ts us a ⟨f, b⟩ ha ⟨vs, ws, rfl, hf, hb⟩
    exact hmore ha hf hb

end Sound

end Reader

namespace Operand

open Reader (Sound)

/-- A run of digits stands for its value. -/
theorem integer_sound : Sound integer (Derives .factor) := by
  intro s o r hread
  unfold integer at hread
  simp only at hread
  split_ifs at hread with hfault
  simp only [Bool.or_eq_true, List.isEmpty_iff, decide_eq_true_eq, not_or, not_lt] at hfault
  obtain ⟨hne, hvalue⟩ := hfault
  obtain ⟨rfl, rfl⟩ := Prod.mk.inj (Except.ok.inj hread)
  refine ⟨[s.takeWhile Char.isDigit], ?_, .integer hne (fun _ => List.mem_takeWhile_imp) hvalue⟩
  have hspells := Spells.single (s.takeWhile Char.isDigit) (s.dropWhile Char.isDigit)
  rwa [List.takeWhile_append_dropWhile] at hspells

/-- A factor is sound where what it holds between parentheses is. -/
theorem factor_sound {inner : Reader Operand} (h : Sound inner (Derives .arith)) :
    Sound (factor inner) (Derives .factor) := by
  refine Sound.padded (Sound.firstOf ?_ ?_)
  · intro p hp
    rcases List.mem_pair.mp hp with rfl | rfl
    · refine (Sound.token _ _).mono ?_
      rintro _ _ ⟨rfl, rfl⟩
      exact .page
    · exact integer_sound
  · refine ((Sound.token _ _).both (h.both (Sound.token Token.closing ()).skipBlank)).mapped ?_
    rintro ts ⟨_, o, _⟩ ⟨_, _, rfl, ⟨rfl, -⟩, us, _, rfl, ho, rfl, -⟩
    exact .group ho

/-- A term is sound where what stands between parentheses is. -/
theorem term_sound {inner : Reader Operand} (h : Sound inner (Derives .arith)) :
    Sound (term inner) (Derives .term) := by
  refine Sound.leftAssoc (O := fun ts f => ∃ op : ArithOp, (op = .mul ∨ op = .div ∨ op = .rem) ∧
    ts = [op.symbol] ∧ f = .binary op) (Sound.firstOf ?_ ?_) (factor_sound h) .ofFactor ?_
  · intro p hp
    rcases List.mem_pair.mp hp with rfl | rfl
    · exact (Sound.token _ _).mono fun ts f hf => ⟨.mul, .inl rfl, hf⟩
    · exact (Sound.token _ _).mono fun ts f hf => ⟨.div, .inr (.inl rfl), hf⟩
  · exact (Sound.token _ _).mono fun ts f hf => ⟨.rem, .inr (.inr rfl), hf⟩
  · rintro ts _ vs a _ b ha ⟨op, hop, rfl, rfl⟩ hb
    exact .product hop ha hb

/-- A sum is sound where what stands between parentheses is. -/
theorem arith_sound {inner : Reader Operand} (h : Sound inner (Derives .arith)) :
    Sound (arith inner) (Derives .arith) := by
  refine Sound.leftAssoc (O := fun ts f => ∃ op : ArithOp, (op = .add ∨ op = .sub) ∧
    ts = [op.symbol] ∧ f = .binary op) (Sound.firstOf ?_ ?_) (term_sound h) .ofTerm ?_
  · intro p hp
    rw [List.mem_singleton.mp hp]
    exact (Sound.token _ _).mono fun ts f hf => ⟨.add, .inl rfl, hf⟩
  · exact (Sound.token _ _).mono fun ts f hf => ⟨.sub, .inr rfl, hf⟩
  · rintro ts _ vs a _ b ha ⟨op, hop, rfl, rfl⟩ hb
    exact .sum hop ha hb

/-- Operands are read by their grammar, at any depth. -/
theorem readerOfDepth_sound (depth : ℕ) : Sound (readerOfDepth depth) (Derives .arith) := by
  induction depth with
  | zero => exact fun _ _ _ hread => absurd hread nofun
  | succ depth ih => exact arith_sound ih

/-- Operands are read by their grammar. -/
theorem reader_sound : Sound reader (Derives .arith) :=
  fun s o r hread => readerOfDepth_sound (s.length + 1) s o r hread

end Operand

namespace PageExpr

open Reader (Sound)

/-- Comparison operators are read by their signs. -/
theorem compareOperator_sound :
    Sound CompareOp.reader fun ts op => ts = [CompareOp.symbol op] := by
  refine Sound.firstOf (fun p hp => ?_) ?_
  · simp only [List.mem_cons, List.not_mem_nil, or_false] at hp
    rcases hp with rfl | rfl | rfl | rfl | rfl <;>
      exact (Sound.token _ _).mono fun ts op h => by rw [h.1, h.2]
  · exact (Sound.token _ _).mono fun ts op h => by rw [h.1, h.2]

/-- Comparisons are read by their production. -/
theorem comparison_sound : Sound comparison (Derives .unary) := by
  refine (Operand.reader_sound.both
    (compareOperator_sound.padded.both Operand.reader_sound)).mapped ?_
  rintro ts ⟨l, op, r⟩ ⟨us, _, rfl, hl, _, vs, rfl, rfl, hr⟩
  exact .compare op hl hr

variable {unary : Reader PageExpr} (h : Sound unary (Derives .unary))

include h

/-- Conjunctions are sound where their parts are. -/
theorem conjunction_sound : Sound (conjunction unary) (Derives .conjunction) := by
  refine Sound.leftAssoc (Sound.token _ _) h .ofUnary ?_
  rintro ts _ vs a _ b ha ⟨rfl, rfl⟩ hb
  exact .and ha hb

/-- Disjunctions are sound where their parts are. -/
theorem disjunction_sound : Sound (disjunction unary) (Derives .disjunction) := by
  refine Sound.leftAssoc (Sound.token _ _) (conjunction_sound h) .ofConjunction ?_
  rintro ts _ vs a _ b ha ⟨rfl, rfl⟩ hb
  exact .or ha hb

omit h in
/-- Conditions are read by their grammar, at any depth. -/
theorem unaryOfDepth_sound (depth : ℕ) : Sound (unaryOfDepth depth) (Derives .unary) := by
  induction depth with
  | zero => exact fun _ _ _ hread => absurd hread nofun
  | succ depth ih =>
    refine Sound.padded (Sound.firstOf (fun p hp => ?_) ?_)
    · simp only [List.mem_cons, List.not_mem_nil, or_false] at hp
      rcases hp with rfl | rfl | rfl | rfl
      · refine ((Sound.token _ _).both ih).mapped ?_
        rintro ts ⟨_, e⟩ ⟨_, us, rfl, ⟨rfl, -⟩, he⟩
        exact .not he
      · refine (Sound.token _ _).mono ?_
        rintro _ _ ⟨rfl, rfl⟩
        exact .literal true
      · refine (Sound.token _ _).mono ?_
        rintro _ _ ⟨rfl, rfl⟩
        exact .literal false
      · exact comparison_sound
    · refine ((Sound.token _ _).both ((disjunction_sound ih).both
        (Sound.token Token.closing ()).padded)).mapped ?_
      rintro ts ⟨_, e, _⟩ ⟨_, _, rfl, ⟨rfl, -⟩, us, _, rfl, he, rfl, -⟩
      exact .group he

omit h in
/-- What is read from a text is spelled by it. -/
theorem spelled_of_parseChars {s : List Char} {e : PageExpr} (hread : parseChars s = .ok e) :
    Spelled s e := by
  unfold parseChars at hread
  split at hread
  · exact absurd hread nofun
  · rename_i e' hreader
    rw [← Except.ok.inj hread]
    exact (disjunction_sound (unaryOfDepth_sound (s.length + 1))).padded s e' [] hreader
  · exact absurd hread nofun

end PageExpr

end EntityQuery
