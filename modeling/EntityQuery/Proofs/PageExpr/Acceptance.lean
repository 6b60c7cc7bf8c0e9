import EntityQuery.Proofs.PageExpr.Reading

/-!
# What a text spells is read from it

The readers try alternatives in order and never come back to a choice, and they join operands for as
long as they can. Nothing is lost by that:

* joining stops exactly where a derivation does, because what follows a rank is none of the signs
  that the rank goes on with (`Reader.Stops`, `Reader.Reaches`),
* an alternative that is tried too early fails. Only parentheses need an argument here: what could
  be read as an operand at the start of a condition ends in front of the sign of a comparison and
  not of a closing parenthesis (`PageExpr.Derives.head_ne_of_operand`),
* the depth of the readers is never used up, because a derivation has a token for each level.

With the soundness of the readers, `PageExpr.parse_eq_ok_iff_spelled` is the result for whole texts.
-/

namespace EntityQuery

/-! ## Readers that succeed, and readers that fail -/

namespace Reader

variable {α β : Type}

/-- Whether a reader does not accept a text. -/
def Fails (p : Reader α) (s : List Char) : Prop := ∃ found, p s = .error found

/-- A token in front of a text is read. -/
theorem token_append (t : Token) (v : α) (s : List Char) : token t v (t ++ s) = .ok (v, s) := by
  rw [token, if_pos (List.isPrefixOf_iff_prefix.mpr (List.prefix_append t s)), List.drop_left]

variable {p : Reader α} {q : Reader β} {s m r : List Char} {a : α} {b : β}

/-- What an item is read as is read with blanks around it. -/
theorem padded_of_ok (h : p (skipBlank s) = .ok (a, r)) : padded p s = .ok (a, skipBlank r) := by
  rw [padded, h]

/-- Two items are read one after the other. -/
theorem both_of_ok (hp : p s = .ok (a, m)) (hq : q m = .ok (b, r)) :
    both p q s = .ok ((a, b), r) := by
  simp only [both, hp, hq]

/-- The value of an item is sent through a function. -/
theorem mapped_of_ok (f : α → β) (h : p s = .ok (a, r)) : mapped f p s = .ok (f a, r) := by
  rw [mapped, h]

/-- Behind an alternative that fails, the others are tried. -/
theorem firstOf_of_fails {others : List (Reader α)} {last : Reader α} (h : Fails p s) :
    firstOf (p :: others) last s = firstOf others last s := by
  obtain ⟨found, hp⟩ := h
  simp only [firstOf, hp]

namespace Fails

/-- A reader that fails gives nothing. -/
theorem ne_ok (h : Fails p s) : p s ≠ .ok (a, r) := by
  obtain ⟨found, hp⟩ := h
  rw [hp]
  exact nofun

/-- A token is not read where its first character does not stand. -/
theorem token {c : Char} (t : Token) (v : α) (h : s.head? ≠ some c) :
    Fails (Reader.token (c :: t) v) s := by
  refine ⟨s, if_neg fun hprefix => h ?_⟩
  obtain ⟨rest, rfl⟩ := List.isPrefixOf_iff_prefix.mp hprefix
  rfl

/-- A token is not read where it goes on otherwise than its first character. -/
theorem token_cons (c : Char) {t : Token} {v : α} (h : Fails (Reader.token t v) s) :
    Fails (Reader.token (c :: t) v) (c :: s) := by
  obtain ⟨found, hp⟩ := h
  refine ⟨c :: s, if_neg fun hprefix => ?_⟩
  obtain ⟨-, hrest⟩ := List.cons_prefix_cons.mp (List.isPrefixOf_iff_prefix.mp hprefix)
  obtain ⟨rest, rfl⟩ := hrest
  exact absurd ((token_append t v rest).symm.trans hp) nofun

/-- Blanks around an item do not help. -/
theorem padded (h : Fails p (skipBlank s)) : Fails (Reader.padded p) s := by
  obtain ⟨found, hp⟩ := h
  exact ⟨found, by rw [Reader.padded, hp]⟩

/-- Without a first item there are not both. -/
theorem both_left (h : Fails p s) (q : Reader β) : Fails (Reader.both p q) s := by
  obtain ⟨found, hp⟩ := h
  exact ⟨found, by simp only [Reader.both, hp]⟩

/-- Nor are there without a second item. -/
theorem both_right (hp : p s = .ok (a, m)) (h : Fails q m) : Fails (Reader.both p q) s := by
  obtain ⟨found, hq⟩ := h
  exact ⟨found, by simp only [Reader.both, hp, hq]⟩

/-- A function does not help. -/
theorem mapped (h : Fails p s) (f : α → β) : Fails (Reader.mapped f p) s := by
  obtain ⟨found, hp⟩ := h
  exact ⟨found, by rw [Reader.mapped, hp]⟩

/-- Where all alternatives fail, nothing is read. -/
theorem firstOf {alternatives : List (Reader α)} {last : Reader α}
    (h : ∀ p ∈ alternatives, Fails p s) (hlast : Fails last s) :
    Fails (Reader.firstOf alternatives last) s := by
  induction alternatives with
  | nil => exact hlast
  | cons p others ih =>
    have hothers := ih fun q hq => h q (List.mem_cons_of_mem p hq)
    unfold Fails
    rw [firstOf_of_fails (h p List.mem_cons_self)]
    exact hothers

/-- Without a first operand nothing is joined. -/
theorem leftAssoc {operator : Reader (α → α → α)} (h : Fails p s) :
    Fails (Reader.leftAssoc operator p) s := by
  obtain ⟨found, hp⟩ := h
  exact ⟨found, by rw [Reader.leftAssoc, hp]⟩

end Fails

/-- Whether joined operands are read as a value, with a rest where more of them may be joined. -/
def Reaches (operator : Reader (α → α → α)) (item : Reader α) (s : List Char) (a : α)
    (rest : List Char) : Prop :=
  leftAssoc operator item s
    = .ok (joinLeft (both (padded operator) item) (fun a fb => fb.1 a fb.2) a rest)

namespace Reaches

variable {operator : Reader (α → α → α)} {item : Reader α} {f : α → α → α} {b : α}

/-- The first operand is reached. -/
theorem first (h : item s = .ok (a, r)) : Reaches operator item s a r := by
  rw [Reaches, leftAssoc, h]

/-- From what is reached, an operator and an operand lead on. -/
theorem next (h : Reaches operator item s a r) (hoperator : operator (skipBlank r) = .ok (f, m))
    {r' : List Char} (hitem : item (skipBlank m) = .ok (b, r')) (hlt : r'.length < r.length) :
    Reaches operator item s (f a b) r' := by
  have hboth := both_of_ok (padded_of_ok hoperator) hitem
  rw [Reaches, h, joinLeft, hboth]
  simp only [hlt, if_true]

/-- From what is reached, the sign of an operator and the tokens of an operand lead on. -/
theorem next_of_spells {t u : Token} {us : List Token} (h : Reaches operator item s a (skipBlank m))
    (ht : t.Visible) (hus : ∀ v ∈ u :: us, v.Visible) (hm : Spells (t :: u :: us) m r)
    (hoperator : ∀ k, operator (t ++ k) = .ok (f, k))
    (hitem : ∀ k, Spells (u :: us) k r → item k = .ok (b, skipBlank r)) :
    Reaches operator item s (f a b) (skipBlank r) := by
  obtain ⟨k, hk, hspells⟩ := hm.skipBlank_cons ht
  have hlength := hspells.length_add_length_le hus
  refine next h (m := k) ?_ (hitem _ (hspells.skipBlank_text (hus u List.mem_cons_self))) ?_
  · rw [Spells.skipBlank_skipBlank, hk]
    exact hoperator k
  · have hr := length_skipBlank r
    rw [hk, List.length_append]
    simp only [List.length_cons] at hlength
    omega

/-- Without an operator, what is reached is the outcome. -/
theorem stop (h : Reaches operator item s a (skipBlank r))
    (hoperator : Fails operator (skipBlank r)) :
    leftAssoc operator item s = .ok (a, skipBlank r) := by
  rw [← Spells.skipBlank_skipBlank] at hoperator
  obtain ⟨found, hboth⟩ := hoperator.padded.both_left item
  rw [h, joinLeft, hboth]

end Reaches

end Reader

/-! ## What may follow -/

/-- Whether a text does not go on, behind its first blanks, with a character of a kind. -/
def Reader.Stops (kind : Char → Bool) (s : List Char) : Prop :=
  ∀ c ∈ (Reader.skipBlank s).head?, kind c = false

namespace Reader.Stops

variable {kind : Char → Bool} {s m : List Char} {c : Char}

/-- A text stops at the first character behind its blanks. -/
theorem of_cons (hs : skipBlank s = c :: m) (hc : kind c = false) : Stops kind s := by
  intro d hd
  rw [hs, List.head?_cons, Option.mem_some_iff] at hd
  rwa [← hd]

/-- Where a text does not go on with a kind, it does not with what is of that kind. -/
theorem mono {kind' : Char → Bool} (h : Stops kind s)
    (hkind : ∀ c, kind' c = true → kind c = true) : Stops kind' s := by
  intro c hc
  by_contra hgoesOn
  rw [Bool.not_eq_false] at hgoesOn
  exact absurd (h c hc) (by simp [hkind c hgoesOn])

/-- Where a text stops, it does not start with a character that goes on. -/
theorem head_ne (h : Stops kind s) (hc : kind c = true) : (skipBlank s).head? ≠ some c := by
  intro hhead
  exact absurd (h c hhead) (by simp [hc])

end Reader.Stops

/-! ## Parentheses -/

/-- An opening parenthesis is seen. -/
theorem Token.opening_visible : Token.opening.Visible := ⟨'(', rfl, rfl⟩

/-- A closing parenthesis is seen. -/
theorem Token.closing_visible : Token.closing.Visible := ⟨')', rfl, rfl⟩

/-- What stands between parentheses is spelled between them. -/
theorem Spells.exists_group {ts : List Token} {s r : List Char}
    (h : Spells (Token.opening :: (ts ++ [Token.closing])) s r) :
    ∃ m k k', Reader.skipBlank s = '(' :: m ∧ Spells ts m k ∧
      Reader.skipBlank k = ')' :: k' ∧ Reader.skipBlank k' = Reader.skipBlank r := by
  obtain ⟨m, hopening, hm⟩ := h.skipBlank_cons Token.opening_visible
  obtain ⟨k, hts, hk⟩ := hm.exists_split
  obtain ⟨k', hclosing, hk'⟩ := hk.skipBlank_cons Token.closing_visible
  exact ⟨m, k, k', hopening, hts, hclosing, hk'.skipBlank_nil⟩

namespace Operand

open Reader (skipBlank Reaches Fails Stops)

/-! ## Operands -/

/-- The characters that an operand may start with. -/
def opens (c : Char) : Bool := c == '$' || c.isDigit || c == '('

/-- The characters with which a rank of operands may go on. -/
def Rank.goesOn : Rank → Char → Bool
  | .factor, c => c.isDigit
  | .term, c => c.isDigit || c == '*' || c == '/' || c == '%'
  | .arith, c => c.isDigit || c == '*' || c == '/' || c == '%' || c == '+' || c == '-'

/-- Reads the sign of a product. -/
def mulOperator : Reader (Operand → Operand → Operand) :=
  Reader.firstOf
    [Reader.token ArithOp.mul.symbol (.binary .mul), Reader.token ArithOp.div.symbol (.binary .div)]
    (Reader.token ArithOp.rem.symbol (.binary .rem))

/-- Reads the sign of a sum. -/
def addOperator : Reader (Operand → Operand → Operand) :=
  Reader.firstOf [Reader.token ArithOp.add.symbol (.binary .add)]
    (Reader.token ArithOp.sub.symbol (.binary .sub))

variable {rank : Rank} {ts : List Token} {o : Operand} {op : ArithOp} {inner : Reader Operand}
  {c : Char} {s m r : List Char} {d : ℕ}

/-- No blank starts an operand. -/
theorem isBlank_of_opens (h : opens c = true) : Reader.isBlank c = false := by
  by_contra hblank
  simp only [Reader.isBlank, Bool.not_eq_false, Bool.or_eq_true, beq_iff_eq] at hblank
  rcases hblank with ((rfl | rfl) | rfl) | rfl <;> exact absurd h (by decide)

/-- An operator is seen, and it is none of the characters that start an operand. -/
theorem symbol_visible (op : ArithOp) : Token.Visible op.symbol := by
  cases op <;> exact ⟨_, rfl, rfl⟩

namespace Derives

/-- The first token of an operand starts like an operand. -/
theorem exists_opens (h : Derives rank ts o) :
    ∃ c t us, ts = (c :: t) :: us ∧ opens c = true := by
  induction h with
  | page => exact ⟨'$', _, [], rfl, rfl⟩
  | @integer digits hne hdigits hvalue =>
    obtain ⟨c, t, rfl⟩ := List.exists_cons_of_ne_nil hne
    refine ⟨c, t, [], rfl, ?_⟩
    simp [opens, hdigits c List.mem_cons_self]
  | group => exact ⟨'(', [], _, rfl, rfl⟩
  | ofFactor _ ih => exact ih
  | ofTerm _ ih => exact ih
  | product _ _ _ ih _ =>
    obtain ⟨c, t, us, rfl, hc⟩ := ih
    exact ⟨c, t, _, rfl, hc⟩
  | sum _ _ _ ih _ =>
    obtain ⟨c, t, us, rfl, hc⟩ := ih
    exact ⟨c, t, _, rfl, hc⟩

/-- All tokens of an operand are seen. -/
theorem visible (h : Derives rank ts o) : ∀ t ∈ ts, t.Visible := by
  induction h with
  | page =>
    intro t ht
    rw [List.mem_singleton.mp ht]
    exact ⟨'$', rfl, rfl⟩
  | @integer digits hne hdigits hvalue =>
    intro t ht
    rw [List.mem_singleton.mp ht]
    obtain ⟨c, t, rfl⟩ := List.exists_cons_of_ne_nil hne
    refine ⟨c, rfl, isBlank_of_opens ?_⟩
    simp [opens, hdigits c List.mem_cons_self]
  | group _ ih =>
    intro t ht
    simp only [List.mem_cons, List.mem_append, List.not_mem_nil, or_false] at ht
    rcases ht with rfl | ht | rfl
    · exact Token.opening_visible
    · exact ih t ht
    · exact Token.closing_visible
  | ofFactor _ ih => exact ih
  | ofTerm _ ih => exact ih
  | product _ _ _ ihl ihr | sum _ _ _ ihl ihr =>
    intro t ht
    simp only [List.mem_cons, List.mem_append] at ht
    rcases ht with ht | rfl | ht
    · exact ihl t ht
    · exact symbol_visible _
    · exact ihr t ht

/-- Behind its first blanks, an operand starts like an operand. -/
theorem exists_head (h : Derives rank ts o) (hs : Spells ts s r) :
    ∃ c m, skipBlank s = c :: m ∧ opens c = true := by
  obtain ⟨c, t, us, rfl, hc⟩ := h.exists_opens
  obtain ⟨m, hm, -⟩ := hs.skipBlank_cons ⟨c, rfl, isBlank_of_opens hc⟩
  exact ⟨c, t ++ m, hm, hc⟩

/-- The blanks in front of an operand may be left out. -/
theorem skipBlank_text (h : Derives rank ts o) (hs : Spells ts s r) :
    Spells ts (skipBlank s) r := by
  obtain ⟨c, t, us, rfl, hc⟩ := h.exists_opens
  exact hs.skipBlank_text ⟨c, rfl, isBlank_of_opens hc⟩

end Derives

/-- The sign of a product is read. -/
theorem mulOperator_append (hop : op = .mul ∨ op = .div ∨ op = .rem) (m : List Char) :
    mulOperator (op.symbol ++ m) = .ok (.binary op, m) := by
  rcases hop with rfl | rfl | rfl <;> rfl

/-- Where no product goes on, no sign of one is read. -/
theorem mulOperator_fails (h : Stops Rank.term.goesOn s) : Fails mulOperator (skipBlank s) := by
  refine .firstOf (fun p hp => ?_) (.token [] _ (h.head_ne rfl))
  rcases List.mem_pair.mp hp with rfl | rfl
  · exact .token [] _ (h.head_ne rfl)
  · exact .token [] _ (h.head_ne rfl)

/-- The sign of a sum is read. -/
theorem addOperator_append (hop : op = .add ∨ op = .sub) (m : List Char) :
    addOperator (op.symbol ++ m) = .ok (.binary op, m) := by
  rcases hop with rfl | rfl <;> rfl

/-- Where no sum goes on, no sign of one is read. -/
theorem addOperator_fails (h : Stops Rank.arith.goesOn s) : Fails addOperator (skipBlank s) := by
  refine .firstOf (fun p hp => ?_) (.token [] _ (h.head_ne rfl))
  rw [List.mem_singleton.mp hp]
  exact .token [] _ (h.head_ne rfl)

/-- A run of digits is read up to its end. -/
theorem integer_append {digits : List Char} (hne : digits ≠ [])
    (hdigits : ∀ c ∈ digits, c.isDigit = true)
    (hvalue : (Decimal.digitsValue digits : ℤ) ≤ Signed.max) (hm : Stops Rank.factor.goesOn m) :
    integer (digits ++ m) = .ok (.constant (Decimal.digitsValue digits), m) := by
  -- A digit is no blank, so no digit follows directly.
  have hhead : ∀ c ∈ m.head?, c.isDigit = false := by
    intro c hc
    by_contra hdigit
    obtain ⟨m', rfl⟩ := List.head?_eq_some_iff.mp hc
    have hblank : Reader.isBlank c = false := isBlank_of_opens (by simp_all [opens])
    exact hdigit (hm c (by rw [Spells.skipBlank_eq_self hblank]; rfl))
  have htake : m.takeWhile Char.isDigit = [] := by
    cases m with
    | nil => rfl
    | cons c m => exact List.takeWhile_cons_of_neg (by simp [hhead c rfl])
  have hdrop : m.dropWhile Char.isDigit = m := by
    cases m with
    | nil => rfl
    | cons c m => exact List.dropWhile_cons_of_neg (by simp [hhead c rfl])
  have hfault :
      (digits.isEmpty || decide (Signed.max < (Decimal.digitsValue digits : ℤ))) = false := by
    simp [hne, hvalue]
  simp only [integer, List.takeWhile_append_of_pos hdigits, List.dropWhile_append_of_pos hdigits,
    htake, hdrop, List.append_nil, hfault, Bool.false_eq_true, if_false]

/-- No digit starts what does not start with a digit. -/
theorem integer_fails (hs : ∀ c ∈ s.head?, c.isDigit = false) : Fails integer s := by
  have htake : s.takeWhile Char.isDigit = [] := by
    cases s with
    | nil => rfl
    | cons c s => exact List.takeWhile_cons_of_neg (by simp [hs c rfl])
  exact ⟨s, by simp [integer, htake]⟩

/-- What does not start with a dollar sign is not the page number. -/
theorem page_fails (hs : s.head? ≠ some '$') : Fails (Reader.token pageVariable page) s := by
  have hpage : pageVariable = '$' :: "pageNumber".toList := rfl
  rw [hpage]
  exact .token _ _ hs

/-- Of the alternatives of a factor, only the last one starts with a parenthesis. -/
theorem factor_of_opening (hs : skipBlank s = '(' :: m) :
    factor inner s = Reader.padded (parenthesised inner) s := by
  have hpage : Fails (Reader.token pageVariable Operand.page) ('(' :: m) := page_fails (by simp)
  have hinteger : Fails integer ('(' :: m) := integer_fails (by simp)
  rw [factor, Reader.padded, Reader.padded, hs, Reader.firstOf_of_fails hpage,
    Reader.firstOf_of_fails hinteger]
  rfl

/-- Nothing is read between parentheses where what was read goes on otherwise. -/
theorem arith_fails_of_opening (hs : skipBlank s = '(' :: m)
    (hinner : ∀ o rest, inner m = .ok (o, rest) → (skipBlank rest).head? ≠ some ')') :
    Fails (arith inner) s := by
  have hboth : Fails (Reader.both inner fun s => Reader.token [')'] () (skipBlank s)) m := by
    cases hread : inner m with
    | error found => exact Fails.both_left ⟨found, hread⟩ _
    | ok result => exact Fails.both_right hread (Fails.token [] () (hinner _ _ hread))
  have hparenthesised : Fails (parenthesised inner) (skipBlank s) := by
    rw [hs]
    exact (Fails.both_right (Reader.token_append ['('] () m) hboth).mapped _
  refine Fails.leftAssoc (Fails.leftAssoc ?_)
  obtain ⟨found, hfactor⟩ := hparenthesised.padded
  exact ⟨found, (factor_of_opening hs).trans hfactor⟩

/-- Whether a text is read as an operand of a rank, up to where the rank goes on. -/
def Reads : Rank → ℕ → List Char → Operand → List Char → Prop
  | .factor, d, s, o, r => factor (readerOfDepth d) s = .ok (o, skipBlank r)
  | .term, d, s, o, r => Reaches mulOperator (factor (readerOfDepth d)) s o (skipBlank r)
  | .arith, d, s, o, r => Reaches addOperator (term (readerOfDepth d)) s o (skipBlank r)

/-- The characters that must not follow where a rank is read up to where it goes on. -/
def Rank.joins : Rank → Char → Bool
  | .factor => Rank.factor.goesOn
  | .term => Rank.factor.goesOn
  | .arith => Rank.term.goesOn

/-- What a lower rank goes on with, a higher rank goes on with. -/
theorem Rank.term_goesOn_of_factor (h : Rank.factor.goesOn c = true) :
    Rank.term.goesOn c = true := by
  simp_all [goesOn]

/-- What a term goes on with, a sum goes on with. -/
theorem Rank.arith_goesOn_of_term (h : Rank.term.goesOn c = true) :
    Rank.arith.goesOn c = true :=
  Bool.or_eq_true_iff.mpr (.inl (Bool.or_eq_true_iff.mpr (.inl h)))

/-- A term is read to its end. -/
theorem Reads.term_eq (h : Reads .term d s o r) (hr : Stops Rank.term.goesOn r) :
    term (readerOfDepth d) s = .ok (o, skipBlank r) :=
  Reaches.stop h (mulOperator_fails hr)

/-- A sum is read to its end. -/
theorem Reads.arith_eq (h : Reads .arith d s o r) (hr : Stops Rank.arith.goesOn r) :
    readerOfDepth (d + 1) s = .ok (o, skipBlank r) :=
  Reaches.stop h (addOperator_fails hr)

/-- What operands derive is read, at a depth that the tokens do not exceed. -/
theorem Derives.reads (h : Derives rank ts o) (hs : Spells ts s r) (hd : ts.length ≤ d)
    (hr : Stops rank.joins r) : Reads rank d s o r := by
  induction h generalizing s r d with
  | page =>
    obtain ⟨m, hpage, hm⟩ := hs.skipBlank_cons ⟨'$', rfl, rfl⟩
    change factor _ s = .ok (_, skipBlank r)
    rw [← hm.skipBlank_nil]
    refine Reader.padded_of_ok (Reader.firstOf_of_ok ?_)
    rw [hpage]
    exact Reader.token_append _ _ m
  | @integer digits hne hdigits hvalue =>
    have h := Derives.integer hne hdigits hvalue
    obtain ⟨m, hdigitsm, hm⟩ := hs.skipBlank_cons (h.visible _ List.mem_cons_self)
    have hstops : Stops Rank.factor.goesOn m := by
      unfold Stops
      rw [hm.skipBlank_nil]
      exact hr
    have hpage : Fails (Reader.token pageVariable Operand.page) (digits ++ m) := by
      obtain ⟨c, t, rfl⟩ := List.exists_cons_of_ne_nil hne
      refine page_fails fun hc => ?_
      have hdigit := hdigits c List.mem_cons_self
      rw [Option.some.inj hc] at hdigit
      exact absurd hdigit (by decide)
    change factor _ s = .ok (_, skipBlank r)
    rw [← hm.skipBlank_nil]
    refine Reader.padded_of_ok ?_
    rw [hdigitsm, Reader.firstOf_of_fails hpage]
    exact Reader.firstOf_of_ok (integer_append hne hdigits hvalue hstops)
  | @group ts o h ih =>
    obtain ⟨m, k, k', hopening, hts, hclosing, hk'⟩ := hs.exists_group
    simp only [List.length_cons, List.length_append] at hd
    obtain ⟨d, rfl⟩ : ∃ d', d = d' + 1 := Nat.exists_eq_add_one.mpr (by omega)
    have hopened : Reader.token ['('] () (skipBlank s) = .ok ((), m) := by
      rw [hopening]
      exact Reader.token_append ['('] () m
    have hinner : readerOfDepth (d + 1) m = .ok (o, skipBlank k) :=
      (ih hts (by omega) (.of_cons hclosing rfl)).arith_eq (.of_cons hclosing rfl)
    have hclosed : Reader.token [')'] () (skipBlank (skipBlank k)) = .ok ((), k') := by
      rw [Spells.skipBlank_skipBlank, hclosing]
      exact Reader.token_append [')'] () k'
    change factor _ s = .ok (_, skipBlank r)
    rw [factor_of_opening hopening, ← hk']
    exact Reader.padded_of_ok
      (Reader.mapped_of_ok _ (Reader.both_of_ok hopened (Reader.both_of_ok hinner hclosed)))
  | ofFactor h ih => exact Reaches.first (ih hs hd hr)
  | @product ts us l r' op hop hl hr' ihl ihr =>
    obtain ⟨m, hts, hus⟩ := hs.exists_split
    simp only [List.length_append, List.length_cons] at hd
    have hstops : Stops Rank.term.joins m := by
      obtain ⟨k, hk, -⟩ := hus.skipBlank_cons (symbol_visible op)
      rcases hop with rfl | rfl | rfl <;> exact .of_cons hk rfl
    obtain ⟨c, t, us, rfl, -⟩ := hr'.exists_opens
    exact (ihl hts (by omega) hstops).next_of_spells (symbol_visible op) hr'.visible hus
      (mulOperator_append hop) fun k hk => ihr hk (by omega) hr
  | ofTerm h ih =>
    have hstops : Stops Rank.term.joins r := hr.mono fun _ => Rank.term_goesOn_of_factor
    exact Reaches.first ((ih hs hd hstops).term_eq hr)
  | @sum ts us l r' op hop hl hr' ihl ihr =>
    obtain ⟨m, hts, hus⟩ := hs.exists_split
    simp only [List.length_append, List.length_cons] at hd
    have hstops : Stops Rank.arith.joins m := by
      obtain ⟨k, hk, -⟩ := hus.skipBlank_cons (symbol_visible op)
      rcases hop with rfl | rfl <;> exact .of_cons hk rfl
    have hstops' : Stops Rank.term.joins r := hr.mono fun _ => Rank.term_goesOn_of_factor
    obtain ⟨c, t, us, rfl, -⟩ := hr'.exists_opens
    exact (ihl hts (by omega) hstops).next_of_spells (symbol_visible op) hr'.visible hus
      (addOperator_append hop) fun k hk => (ihr hk (by omega) hstops').term_eq hr

/-- An operand is read to its end, at a depth that its tokens do not exceed. -/
theorem Derives.readerOfDepth_eq (h : Derives .arith ts o) (hs : Spells ts s r) (hd : ts.length ≤ d)
    (hr : Stops Rank.arith.goesOn r) : readerOfDepth (d + 1) s = .ok (o, skipBlank r) := by
  have hstops : Stops Rank.arith.joins r := hr.mono fun _ => Rank.arith_goesOn_of_term
  exact (h.reads hs hd hstops).arith_eq hr

/-- An operand is read to its end. -/
theorem Derives.reader_eq (h : Derives .arith ts o) (hs : Spells ts s r)
    (hr : Stops Rank.arith.goesOn r) : reader s = .ok (o, skipBlank r) := by
  have hlength := hs.length_add_length_le h.visible
  exact h.readerOfDepth_eq hs (by omega) hr

/-- Where an operand is read, the first token starts like one. -/
theorem opens_of_spells {c : Char} {t : List Char} (hc : Reader.isBlank c = false)
    (hs : Spells ((c :: t) :: ts) s m) (h : readerOfDepth d s = .ok (o, r)) : opens c = true := by
  obtain ⟨us, hus, hderives⟩ := readerOfDepth_sound d s o r h
  obtain ⟨c', k, hk, hopens⟩ := hderives.exists_head hus
  obtain ⟨k', hk', -⟩ := hs.skipBlank_cons ⟨c, rfl, hc⟩
  obtain ⟨rfl, -⟩ := List.cons.inj (hk.symm.trans hk')
  exact hopens

end Operand

/-! ## Conditions -/

namespace CompareOp

open Reader (Fails)

/-- A sign is not another one that starts otherwise. -/
theorem symbol_fails {op op' : CompareOp} (h : op.symbol.head? ≠ op'.symbol.head?) (m : List Char) :
    Fails (Reader.token op'.symbol op') (op.symbol ++ m) := by
  obtain ⟨c, hc⟩ : ∃ c, op.symbol.head? = some c := by cases op <;> exact ⟨_, rfl⟩
  obtain ⟨c', hc'⟩ : ∃ c', op'.symbol.head? = some c' := by cases op' <;> exact ⟨_, rfl⟩
  obtain ⟨t, ht⟩ := List.head?_eq_some_iff.mp hc
  obtain ⟨t', ht'⟩ := List.head?_eq_some_iff.mp hc'
  rw [hc, hc'] at h
  rw [ht, ht']
  exact .token t' op' h

/-- The sign of a comparison is read, unless an equals sign follows it. -/
theorem reader_append (op : CompareOp) {m : List Char} (hm : m.head? ≠ some '=') :
    reader (op.symbol ++ m) = .ok (op, m) := by
  -- The two signs of one character start like signs of two characters, which are tried first.
  cases op with
  | eq | ne | le | ge => rfl
  | lt =>
    have hle : Fails (Reader.token le.symbol le) (lt.symbol ++ m) :=
      .token_cons '<' (.token [] _ hm)
    rw [reader, Reader.firstOf_of_fails (symbol_fails (by decide) m),
      Reader.firstOf_of_fails (symbol_fails (by decide) m), Reader.firstOf_of_fails hle,
      Reader.firstOf_of_fails (symbol_fails (by decide) m)]
    exact Reader.firstOf_of_ok (Reader.token_append _ _ m)
  | gt =>
    have hge : Fails (Reader.token ge.symbol ge) (gt.symbol ++ m) :=
      .token_cons '>' (.token [] _ hm)
    rw [reader, Reader.firstOf_of_fails (symbol_fails (by decide) m),
      Reader.firstOf_of_fails (symbol_fails (by decide) m),
      Reader.firstOf_of_fails (symbol_fails (by decide) m), Reader.firstOf_of_fails hge,
      Reader.firstOf_of_fails (symbol_fails (by decide) m)]
    exact Reader.token_append _ _ m

/-- The sign of a comparison is seen. -/
theorem symbol_visible (op : CompareOp) : Token.Visible op.symbol := by
  cases op <;> exact ⟨_, rfl, rfl⟩

end CompareOp

namespace PageExpr

open Reader (skipBlank Reaches Fails Stops)

/-- The characters with which a rank of conditions may go on. -/
def Rank.goesOn : Rank → Char → Bool
  | .unary, c => Operand.Rank.arith.goesOn c
  | .conjunction, c => Operand.Rank.arith.goesOn c || c == '&'
  | .disjunction, c => Operand.Rank.arith.goesOn c || c == '&' || c == '|'

/-- The characters that must not follow where a rank is read up to where it goes on. -/
def Rank.joins : Rank → Char → Bool
  | .unary => Rank.unary.goesOn
  | .conjunction => Rank.unary.goesOn
  | .disjunction => Rank.conjunction.goesOn

/-- Whether a text is read as a condition of a rank, up to where the rank goes on. -/
def Reads : Rank → ℕ → List Char → PageExpr → List Char → Prop
  | .unary, d, s, e, r => unaryOfDepth d s = .ok (e, skipBlank r)
  | .conjunction, d, s, e, r =>
    Reaches (Reader.token ['&', '&'] .and) (unaryOfDepth d) s e (skipBlank r)
  | .disjunction, d, s, e, r =>
    Reaches (Reader.token ['|', '|'] .or) (conjunction (unaryOfDepth d)) s e (skipBlank r)

variable {rank : Rank} {ts : List Token} {e : PageExpr} {o : Operand} {s m r : List Char} {d : ℕ}

/-- The outcome of a condition is seen. -/
theorem literal_visible (value : Bool) : (Token.literal value).Visible := by
  cases value with
  | true => exact ⟨'t', rfl, rfl⟩
  | false => exact ⟨'f', rfl, rfl⟩

/-- All tokens of a condition are seen. -/
theorem Derives.visible (h : Derives rank ts e) : ∀ t ∈ ts, t.Visible := by
  induction h with
  | @not ts e _ ih =>
    intro t ht
    rcases List.mem_cons.mp ht with rfl | ht
    · exact ⟨'!', rfl, rfl⟩
    · exact ih t ht
  | literal value =>
    intro t ht
    rw [List.mem_singleton.mp ht]
    exact literal_visible value
  | compare op hl hr =>
    intro t ht
    simp only [List.mem_cons, List.mem_append] at ht
    rcases ht with ht | rfl | ht
    · exact hl.visible t ht
    · exact op.symbol_visible
    · exact hr.visible t ht
  | group _ ih =>
    intro t ht
    simp only [List.mem_cons, List.mem_append, List.not_mem_nil, or_false] at ht
    rcases ht with rfl | ht | rfl
    · exact Token.opening_visible
    · exact ih t ht
    · exact Token.closing_visible
  | ofUnary _ ih => exact ih
  | ofConjunction _ ih => exact ih
  | and _ _ ihl ihr =>
    intro t ht
    simp only [List.mem_cons, List.mem_append] at ht
    rcases ht with ht | rfl | ht
    · exact ihl t ht
    · exact ⟨'&', rfl, rfl⟩
    · exact ihr t ht
  | or _ _ ihl ihr =>
    intro t ht
    simp only [List.mem_cons, List.mem_append] at ht
    rcases ht with ht | rfl | ht
    · exact ihl t ht
    · exact ⟨'|', rfl, rfl⟩
    · exact ihr t ht

/-- A condition has a token. -/
theorem Derives.exists_cons (h : Derives rank ts e) : ∃ t us, ts = t :: us := by
  induction h with
  | not | group => exact ⟨_, _, rfl⟩
  | literal value => exact ⟨_, _, rfl⟩
  | compare op hl hr =>
    obtain ⟨c, t, us, rfl, -⟩ := hl.exists_opens
    exact ⟨_, _, rfl⟩
  | ofUnary _ ih => exact ih
  | ofConjunction _ ih => exact ih
  | and _ _ ih _ | or _ _ ih _ =>
    obtain ⟨t, us, rfl⟩ := ih
    exact ⟨t, _, rfl⟩

/-- What may be read as an operand at the start of a condition does not end in front of a closing
parenthesis. -/
theorem Derives.head_ne_of_operand (h : Derives rank ts e) (hs : Spells ts s m)
    (hd : s.length ≤ d) (hread : Operand.readerOfDepth (d + 1) s = .ok (o, r)) :
    (skipBlank r).head? ≠ some ')' := by
  induction h generalizing s m r o d with
  | not => exact absurd (Operand.opens_of_spells (c := '!') rfl hs hread) (by decide)
  | literal value =>
    cases value with
    | true => exact absurd (Operand.opens_of_spells (c := 't') rfl hs hread) (by decide)
    | false => exact absurd (Operand.opens_of_spells (c := 'f') rfl hs hread) (by decide)
  | @compare ts us l r' op hl hr' =>
    obtain ⟨k, hts, hus⟩ := hs.exists_split
    have hlength := hts.length_add_length_le hl.visible
    obtain ⟨k', hk, -⟩ := hus.skipBlank_cons op.symbol_visible
    have hstops : Stops Operand.Rank.arith.goesOn k := by
      cases op <;> exact .of_cons hk rfl
    rw [hl.readerOfDepth_eq hts (by omega) hstops] at hread
    obtain ⟨-, rfl⟩ := Prod.mk.inj (Except.ok.inj hread)
    rw [Spells.skipBlank_skipBlank, hk]
    cases op <;> simp [CompareOp.symbol]
  | @group ts e _ ih =>
    obtain ⟨k, k', k'', hopening, hts, -, -⟩ := hs.exists_group
    have hshorter : k.length < s.length := by
      have hlength := Reader.length_skipBlank s
      simp only [hopening, List.length_cons] at hlength
      omega
    obtain ⟨d, rfl⟩ : ∃ d', d = d' + 1 := Nat.exists_eq_add_one.mpr (by omega)
    have hfails : Fails (Operand.readerOfDepth (d + 1 + 1)) s :=
      Operand.arith_fails_of_opening hopening fun o rest => ih hts (by omega)
    exact absurd hread hfails.ne_ok
  | ofUnary _ ih => exact ih hs hd hread
  | ofConjunction _ ih => exact ih hs hd hread
  | and _ _ ih _ =>
    obtain ⟨k, hts, -⟩ := hs.exists_split
    exact ih hts hd hread
  | or _ _ ih _ =>
    obtain ⟨k, hts, -⟩ := hs.exists_split
    exact ih hts hd hread

/-- A comparison is not read where no operand is. -/
theorem comparison_fails (h : Fails Operand.reader s) : Fails comparison s :=
  (h.both_left _).mapped _

/-- A condition between parentheses is no comparison. -/
theorem comparison_fails_of_group (h : Derives .disjunction ts e) (hs : Spells ts s m) :
    Fails comparison ('(' :: s) := by
  have hoperand : Fails (Operand.arith (Operand.readerOfDepth (s.length + 1))) ('(' :: s) :=
    Operand.arith_fails_of_opening (Spells.skipBlank_eq_self rfl s) fun _ _ =>
      h.head_ne_of_operand hs le_rfl
  have hreader : Operand.reader ('(' :: s)
      = Operand.arith (Operand.readerOfDepth (s.length + 1)) ('(' :: s) := by
    rw [Operand.reader, Operand.readerOfDepth, List.length_cons]
  obtain ⟨found, hfault⟩ := hoperand
  exact comparison_fails ⟨found, hreader.trans hfault⟩

/-- A condition that starts like none of the words is a comparison or stands between
parentheses. -/
theorem unaryOfDepth_of_head (hs : ∀ c ∈ (skipBlank s).head?, c ≠ '!' ∧ c ≠ 't' ∧ c ≠ 'f') :
    unaryOfDepth (d + 1) s
      = Reader.padded (Reader.firstOf [comparison] (parenthesised (unaryOfDepth d))) s := by
  have hnot : Fails (negation (unaryOfDepth d)) (skipBlank s) :=
    ((Fails.token [] _ fun hc => (hs _ hc).1 rfl).both_left _).mapped _
  have htrue : Fails (Reader.token "true".toList (PageExpr.literal true)) (skipBlank s) :=
    .token (c := 't') _ _ fun hc => (hs _ hc).2.1 rfl
  have hfalse : Fails (Reader.token "false".toList (PageExpr.literal false)) (skipBlank s) :=
    .token (c := 'f') _ _ fun hc => (hs _ hc).2.2 rfl
  rw [unaryOfDepth, Reader.padded, Reader.padded, Reader.firstOf_of_fails hnot,
    Reader.firstOf_of_fails htrue, Reader.firstOf_of_fails hfalse]

/-- A comparison is read to its end. -/
theorem comparison_eq {us : List Token} {l r' : Operand} {op : CompareOp}
    (hl : Operand.Derives .arith ts l) (hr' : Operand.Derives .arith us r')
    (hs : Spells (ts ++ op.symbol :: us) s r) (hr : Stops Rank.unary.goesOn r) :
    comparison s = .ok (.compare l op r', skipBlank r) := by
  obtain ⟨m, hts, hm⟩ := hs.exists_split
  obtain ⟨k, hk, hus⟩ := hm.skipBlank_cons op.symbol_visible
  have hstops : Stops Operand.Rank.arith.goesOn m := by
    cases op <;> exact .of_cons hk rfl
  have hleft : Operand.reader s = .ok (l, skipBlank m) := hl.reader_eq hts hstops
  -- The right side starts like an operand, so the sign is not part of a longer one.
  have hhead : k.head? ≠ some '=' := by
    intro hequals
    obtain ⟨k', rfl⟩ := List.head?_eq_some_iff.mp hequals
    obtain ⟨c, k'', hc, hopens⟩ := hr'.exists_head hus
    obtain ⟨rfl, -⟩ := List.cons.inj ((Spells.skipBlank_eq_self rfl k').symm.trans hc)
    exact absurd hopens (by decide)
  have hsign : CompareOp.reader (skipBlank (skipBlank m)) = .ok (op, k) := by
    rw [Spells.skipBlank_skipBlank, hk]
    exact op.reader_append hhead
  have hright : Operand.reader (skipBlank k) = .ok (r', skipBlank r) :=
    hr'.reader_eq (hr'.skipBlank_text hus) hr
  exact Reader.mapped_of_ok _
    (Reader.both_of_ok hleft (Reader.both_of_ok (Reader.padded_of_ok hsign) hright))

/-- A conjunction is read to its end. -/
theorem Reads.conjunction_eq (h : Reads .conjunction d s e r)
    (hr : Stops Rank.conjunction.goesOn r) :
    conjunction (unaryOfDepth d) s = .ok (e, skipBlank r) :=
  Reaches.stop h (.token _ _ (hr.head_ne rfl))

/-- A disjunction is read to its end. -/
theorem Reads.disjunction_eq (h : Reads .disjunction d s e r)
    (hr : Stops Rank.disjunction.goesOn r) :
    disjunction (unaryOfDepth d) s = .ok (e, skipBlank r) :=
  Reaches.stop h (.token _ _ (hr.head_ne rfl))

/-- An outcome of a condition is read. -/
theorem reads_literal (value : Bool) (hs : Spells [Token.literal value] s r) :
    Reads .unary (d + 1) s (.literal value) r := by
  obtain ⟨m, hliteral, hm⟩ := hs.skipBlank_cons (literal_visible value)
  have hnot : Fails (negation (unaryOfDepth d)) (Token.literal value ++ m) := by
    refine ((Fails.token [] _ ?_).both_left _).mapped _
    cases value <;> simp [Token.literal]
  change Reader.padded _ s = .ok (_, skipBlank r)
  rw [← hm.skipBlank_nil]
  refine Reader.padded_of_ok ?_
  rw [hliteral, Reader.firstOf_of_fails hnot]
  cases value with
  | true => exact Reader.firstOf_of_ok (Reader.token_append _ _ m)
  | false =>
    have htrue : Fails (Reader.token "true".toList (PageExpr.literal true))
        (Token.literal false ++ m) := .token (c := 't') _ _ (by simp [Token.literal])
    rw [Reader.firstOf_of_fails htrue]
    exact Reader.firstOf_of_ok (Reader.token_append _ _ m)

/-- A comparison is read as a condition. -/
theorem reads_compare {us : List Token} {l r' : Operand} {op : CompareOp}
    (hl : Operand.Derives .arith ts l) (hr' : Operand.Derives .arith us r')
    (hs : Spells (ts ++ op.symbol :: us) s r) (hr : Stops Rank.unary.goesOn r) :
    Reads .unary (d + 1) s (.compare l op r') r := by
  obtain ⟨m, hts, -⟩ := hs.exists_split
  obtain ⟨c, k, hk, hc⟩ := hl.exists_head hts
  have hhead : ∀ c ∈ (skipBlank s).head?, c ≠ '!' ∧ c ≠ 't' ∧ c ≠ 'f' := by
    rw [hk]
    rintro _ ⟨⟩
    refine ⟨?_, ?_, ?_⟩ <;> rintro rfl <;> exact absurd hc (by decide)
  have htext : Spells (ts ++ op.symbol :: us) (skipBlank s) r := by
    obtain ⟨c', t, us', rfl, hc'⟩ := hl.exists_opens
    exact Spells.skipBlank_text ⟨c', rfl, Operand.isBlank_of_opens hc'⟩ hs
  change unaryOfDepth (d + 1) s = .ok (_, skipBlank r)
  rw [unaryOfDepth_of_head hhead, ← Spells.skipBlank_skipBlank r]
  exact Reader.padded_of_ok (Reader.firstOf_of_ok (comparison_eq hl hr' htext hr))

/-- What is read as a disjunction is read as a condition between parentheses. -/
theorem reads_group {m k k' : List Char} (h : Derives .disjunction ts e) (hts : Spells ts m k)
    (hopening : skipBlank s = '(' :: m) (hclosing : skipBlank k = ')' :: k')
    (hk' : skipBlank k' = skipBlank r) (hinner : Reads .disjunction d m e k) :
    Reads .unary (d + 1) s e r := by
  have hhead : ∀ c ∈ (skipBlank s).head?, c ≠ '!' ∧ c ≠ 't' ∧ c ≠ 'f' := by
    rw [hopening]
    rintro _ ⟨⟩
    decide
  have hopened : Reader.token ['('] () (skipBlank s) = .ok ((), m) := by
    rw [hopening]
    exact Reader.token_append ['('] () m
  have hclosed : Reader.token [')'] () (skipBlank (skipBlank k)) = .ok ((), k') := by
    rw [Spells.skipBlank_skipBlank, hclosing]
    exact Reader.token_append [')'] () k'
  have hcomparison : Fails comparison (skipBlank s) := by
    rw [hopening]
    exact comparison_fails_of_group h hts
  change unaryOfDepth (d + 1) s = .ok (_, skipBlank r)
  rw [unaryOfDepth_of_head hhead, ← hk', ← Spells.skipBlank_skipBlank k']
  refine Reader.padded_of_ok ?_
  rw [Reader.firstOf_of_fails hcomparison]
  exact Reader.mapped_of_ok _ (Reader.both_of_ok hopened
    (Reader.both_of_ok (hinner.disjunction_eq (.of_cons hclosing rfl))
      (Reader.padded_of_ok hclosed)))

/-- What a single condition goes on with, a conjunction goes on with. -/
theorem conjunction_goesOn_of_unary {c : Char} (h : Rank.unary.goesOn c = true) :
    Rank.conjunction.goesOn c = true := Bool.or_eq_true_iff.mpr (.inl h)

/-- What conditions derive is read, at a depth that the tokens do not exceed. -/
theorem Derives.reads (h : Derives rank ts e) (hs : Spells ts s r) (hd : ts.length ≤ d)
    (hr : Stops rank.joins r) : Reads rank d s e r := by
  induction h generalizing s r d with
  | @not ts e _ ih =>
    obtain ⟨m, hnot, hm⟩ := hs.skipBlank_cons ⟨'!', rfl, rfl⟩
    simp only [List.length_cons] at hd
    obtain ⟨d, rfl⟩ : ∃ d', d = d' + 1 := Nat.exists_eq_add_one.mpr (by omega)
    have hsign : Reader.token ['!'] () (skipBlank s) = .ok ((), m) := by
      rw [hnot]
      exact Reader.token_append ['!'] () m
    have hinner : unaryOfDepth d m = .ok (e, skipBlank r) := ih hm (by omega) hr
    change Reader.padded _ s = .ok (_, skipBlank r)
    rw [← Spells.skipBlank_skipBlank r]
    exact Reader.padded_of_ok
      (Reader.firstOf_of_ok (Reader.mapped_of_ok _ (Reader.both_of_ok hsign hinner)))
  | literal value =>
    obtain ⟨d, rfl⟩ : ∃ d', d = d' + 1 := Nat.exists_eq_add_one.mpr hd
    exact reads_literal value hs
  | @compare ts us l r' op hl hr' =>
    simp only [List.length_append, List.length_cons] at hd
    obtain ⟨d, rfl⟩ : ∃ d', d = d' + 1 := Nat.exists_eq_add_one.mpr (by omega)
    exact reads_compare hl hr' hs hr
  | @group ts e h ih =>
    obtain ⟨m, k, k', hopening, hts, hclosing, hk'⟩ := hs.exists_group
    simp only [List.length_cons, List.length_append] at hd
    obtain ⟨d, rfl⟩ : ∃ d', d = d' + 1 := Nat.exists_eq_add_one.mpr (by omega)
    exact reads_group h hts hopening hclosing hk' (ih hts (by omega) (.of_cons hclosing rfl))
  | ofUnary h ih => exact Reaches.first (ih hs hd hr)
  | ofConjunction h ih =>
    have hstops : Stops Rank.conjunction.joins r := hr.mono fun _ => conjunction_goesOn_of_unary
    exact Reaches.first ((ih hs hd hstops).conjunction_eq hr)
  | @and ts us l r' hl hr' ihl ihr =>
    obtain ⟨m, hts, hus⟩ := hs.exists_split
    simp only [List.length_append, List.length_cons] at hd
    have hstops : Stops Rank.conjunction.joins m := by
      obtain ⟨k, hk, -⟩ := hus.skipBlank_cons ⟨'&', rfl, rfl⟩
      exact .of_cons hk rfl
    obtain ⟨t, us, rfl⟩ := hr'.exists_cons
    exact (ihl hts (by omega) hstops).next_of_spells ⟨'&', rfl, rfl⟩ hr'.visible hus
      (Reader.token_append _ _) fun k hk => ihr hk (by omega) hr
  | @or ts us l r' hl hr' ihl ihr =>
    obtain ⟨m, hts, hus⟩ := hs.exists_split
    simp only [List.length_append, List.length_cons] at hd
    have hstops : Stops Rank.disjunction.joins m := by
      obtain ⟨k, hk, -⟩ := hus.skipBlank_cons ⟨'|', rfl, rfl⟩
      exact .of_cons hk rfl
    have hstops' : Stops Rank.conjunction.joins r := hr.mono fun _ => conjunction_goesOn_of_unary
    obtain ⟨t, us, rfl⟩ := hr'.exists_cons
    exact (ihl hts (by omega) hstops).next_of_spells ⟨'|', rfl, rfl⟩ hr'.visible hus
      (Reader.token_append _ _) fun k hk => (ihr hk (by omega) hstops').conjunction_eq hr

/-- What a text spells is read from it. -/
theorem parseChars_of_spelled (h : Spelled s e) : parseChars s = .ok e := by
  obtain ⟨ts, hts, hderives⟩ := h
  have hlength := hts.length_add_length_le hderives.visible
  have hend (kind : Char → Bool) : Stops kind [] := nofun
  obtain ⟨t, us, rfl⟩ := hderives.exists_cons
  have htext := hts.skipBlank_text (hderives.visible t List.mem_cons_self)
  have hread : disjunction (unaryOfDepth (s.length + 1)) (skipBlank s) = .ok (e, []) :=
    (hderives.reads htext (by omega) (hend _)).disjunction_eq (hend _)
  have hreader : reader s = .ok (e, []) := Reader.padded_of_ok hread
  rw [parseChars, hreader]

/-- Reading a string is reading its characters. -/
theorem parse_eq_ok (text : String) (e : PageExpr) :
    parse text = .ok e ↔ parseChars text.toList = .ok e := by
  unfold parse
  cases parseChars text.toList with
  | error fault => exact iff_of_false nofun nofun
  | ok e' => exact ⟨fun h => congrArg _ (Except.ok.inj h), fun h => congrArg _ (Except.ok.inj h)⟩

/-- Page expressions are read by their grammar: a text is read as an expression exactly when it
spells the expression, and no text spells two of them. -/
theorem parse_eq_ok_iff_spelled (text : String) (e : PageExpr) :
    (parse text = .ok e ↔ Spelled text.toList e) ∧
      Set.Subsingleton {e' | Spelled text.toList e'} := by
  refine ⟨(parse_eq_ok text e).trans ⟨spelled_of_parseChars, parseChars_of_spelled⟩, ?_⟩
  intro e₁ h₁ e₂ h₂
  have hread := (parseChars_of_spelled h₁).symm.trans (parseChars_of_spelled h₂)
  exact Except.ok.inj hread

end PageExpr

end EntityQuery
