import EntityQuery.Proofs.PageExpr.Acceptance

/-!
# Written page expressions are read back

The written form of a page expression puts every operation and every connective between
parentheses, so its tokens derive the expression as a factor or as a single condition
(`Operand.Writable.exists_derives`, `PageExpr.Writable.exists_derives`). The one thing that the
grammar has no tokens for is a constant out of range, a negative one above all: the expressions
without such constants are the writable ones, and these are the ones that reading can give
(`PageExpr.Derives.writable`). `PageExpr.parse_toText_iff` puts both together.
-/

namespace EntityQuery

/-- Whether all constants are signed words that are not negative. -/
def Operand.Writable : Operand → Prop
  | .page => True
  | .constant value => 0 ≤ value ∧ value ≤ Signed.max
  | .binary _ left right => left.Writable ∧ right.Writable

/-- Whether all constants are signed words that are not negative. -/
def PageExpr.Writable : PageExpr → Prop
  | .literal _ => True
  | .compare left _ right => left.Writable ∧ right.Writable
  | .and left right => left.Writable ∧ right.Writable
  | .or left right => left.Writable ∧ right.Writable
  | .not inner => inner.Writable

/-! ## Tokens of the written form -/

namespace Spells

variable {ts us : List Token} {s r : List Char}

/-- A blank may be added in front. -/
theorem space (h : Spells ts s r) : Spells ts (' ' :: s) r :=
  h.blanks_append (b := [' ']) fun _ hc => by rw [List.mem_singleton.mp hc]; rfl

/-- A token may be added in front. -/
theorem cons (t : Token) (h : Spells ts s r) : Spells (t :: ts) (t ++ s) r :=
  (single t s).append h

/-- Parentheses may be added around. -/
theorem group (h : Spells ts s (')' :: r)) :
    Spells (Token.opening :: (ts ++ [Token.closing])) ('(' :: s) r :=
  cons Token.opening (h.append (single Token.closing r))

/-- Two sides are joined by a sign with a blank on either side of it. -/
theorem joined (t : Token) {m : List Char} (h : Spells ts s (' ' :: (t ++ ' ' :: m)))
    (h' : Spells us m r) : Spells (ts ++ t :: us) s r :=
  h.append (h'.space.cons t).space

end Spells

/-- The digits of a number have the number for their value. -/
theorem Decimal.digitsValue_decimalDigits (n : ℕ) : digitsValue (decimalDigits n) = n :=
  digitsValue_toDigits n

/-! ## What is written is derived -/

/-- A constant is written as its digits. -/
theorem Operand.derives_constant {value : ℤ} (h : (Operand.constant value).Writable) :
    Derives .factor [renderConstant value] (.constant value) := by
  obtain ⟨hnonneg, hmax⟩ := h
  have hvalue : (Decimal.digitsValue (decimalDigits value.toNat) : ℤ) = value := by
    rw [Decimal.digitsValue_decimalDigits, Int.toNat_of_nonneg hnonneg]
  have hdigits : ∀ c ∈ decimalDigits value.toNat, c.isDigit = true :=
    fun _ => Nat.isDigit_of_mem_toDigits (by decide) (by decide)
  have hne : decimalDigits value.toNat ≠ [] := Nat.toDigits_ne_nil
  have hderives := Derives.integer hne hdigits (by rwa [hvalue])
  rw [hvalue] at hderives
  rwa [renderConstant, if_neg (Int.not_lt.mpr hnonneg)]

/-- An operation between parentheses is a factor, when its sides are. -/
theorem Operand.derives_binary {ts us : List Token} {l r : Operand} (op : ArithOp)
    (hl : Derives .factor ts l) (hr : Derives .factor us r) :
    Derives .arith (ts ++ op.symbol :: us) (.binary op l r) := by
  cases op with
  | add => exact .sum (.inl rfl) (.ofTerm (.ofFactor hl)) (.ofFactor hr)
  | sub => exact .sum (.inr rfl) (.ofTerm (.ofFactor hl)) (.ofFactor hr)
  | mul => exact .ofTerm (.product (.inl rfl) (.ofFactor hl) hr)
  | div => exact .ofTerm (.product (.inr (.inl rfl)) (.ofFactor hl) hr)
  | rem => exact .ofTerm (.product (.inr (.inr rfl)) (.ofFactor hl) hr)

/-- A writable operand is written as a factor, in front of any text. -/
theorem Operand.Writable.exists_derives {o : Operand} (h : o.Writable) :
    ∃ ts, Derives .factor ts o ∧ ∀ r, Spells ts (o.render ++ r) r := by
  induction o with
  | page => exact ⟨_, .page, .single _⟩
  | constant value => exact ⟨_, derives_constant h, .single _⟩
  | binary op left right ihl ihr =>
    obtain ⟨ts, hl, hts⟩ := ihl h.1
    obtain ⟨us, hr, hus⟩ := ihr h.2
    refine ⟨_, .group (derives_binary op hl hr), fun r => ?_⟩
    have hspells := ((hts (' ' :: (op.symbol ++ ' ' :: (right.render ++ ')' :: r)))).joined
      op.symbol (hus (')' :: r))).group
    simpa only [render, List.cons_append, List.append_assoc, List.nil_append] using hspells

/-- A writable expression is written as a single condition, in front of any text. -/
theorem PageExpr.Writable.exists_derives {e : PageExpr} (h : e.Writable) :
    ∃ ts, Derives .unary ts e ∧ ∀ r, Spells ts (e.render ++ r) r := by
  induction e with
  | literal value => exact ⟨_, .literal value, .single _⟩
  | compare left op right =>
    obtain ⟨ts, hl, hts⟩ := h.1.exists_derives
    obtain ⟨us, hr, hus⟩ := h.2.exists_derives
    refine ⟨_, .compare op (.ofTerm (.ofFactor hl)) (.ofTerm (.ofFactor hr)), fun r => ?_⟩
    have hspells := (hts (' ' :: (op.symbol ++ ' ' :: (right.render ++ r)))).joined op.symbol
      (hus r)
    simpa only [render, List.cons_append, List.append_assoc] using hspells
  | and left right ihl ihr =>
    obtain ⟨ts, hl, hts⟩ := ihl h.1
    obtain ⟨us, hr, hus⟩ := ihr h.2
    refine ⟨_, .group (.ofConjunction (.and (.ofUnary hl) hr)), fun r => ?_⟩
    have hspells := ((hts (' ' :: (['&', '&'] ++ ' ' :: (right.render ++ ')' :: r)))).joined
      ['&', '&'] (hus (')' :: r))).group
    simpa only [render, List.cons_append, List.append_assoc, List.nil_append] using hspells
  | or left right ihl ihr =>
    obtain ⟨ts, hl, hts⟩ := ihl h.1
    obtain ⟨us, hr, hus⟩ := ihr h.2
    refine ⟨_, .group (.or (.ofConjunction (.ofUnary hl)) (.ofUnary hr)), fun r => ?_⟩
    have hspells := ((hts (' ' :: (['|', '|'] ++ ' ' :: (right.render ++ ')' :: r)))).joined
      ['|', '|'] (hus (')' :: r))).group
    simpa only [render, List.cons_append, List.append_assoc, List.nil_append] using hspells
  | not inner ih =>
    obtain ⟨ts, hinner, hts⟩ := ih h
    refine ⟨_, .not (.group (.ofConjunction (.ofUnary hinner))), fun r => ?_⟩
    have hspells := (hts (')' :: r)).group.cons ['!']
    simpa only [render, List.cons_append, List.append_assoc, List.nil_append] using hspells

/-! ## What is derived may be written -/

/-- The grammar gives operands with constants in range. -/
theorem Operand.Derives.writable {rank : Rank} {ts : List Token} {o : Operand}
    (h : Derives rank ts o) : o.Writable := by
  induction h with
  | page => trivial
  | integer _ _ hvalue => exact ⟨Int.natCast_nonneg _, hvalue⟩
  | group _ ih => exact ih
  | ofFactor _ ih => exact ih
  | ofTerm _ ih => exact ih
  | product _ _ _ ihl ihr => exact ⟨ihl, ihr⟩
  | sum _ _ _ ihl ihr => exact ⟨ihl, ihr⟩

namespace PageExpr

/-- The grammar gives conditions with constants in range. -/
theorem Derives.writable {rank : Rank} {ts : List Token} {e : PageExpr} (h : Derives rank ts e) :
    e.Writable := by
  induction h with
  | not _ ih => exact ih
  | literal => trivial
  | compare op hl hr => exact ⟨hl.writable, hr.writable⟩
  | group _ ih => exact ih
  | ofUnary _ ih => exact ih
  | ofConjunction _ ih => exact ih
  | and _ _ ihl ihr => exact ⟨ihl, ihr⟩
  | or _ _ ihl ihr => exact ⟨ihl, ihr⟩

/-- What is read from a text may be written. -/
theorem writable_of_parse {text : String} {e : PageExpr} (h : parse text = .ok e) : e.Writable := by
  obtain ⟨ts, -, hderives⟩ := spelled_of_parseChars ((parse_eq_ok text e).mp h)
  exact hderives.writable

/-- The written form of a writable expression spells the expression. -/
theorem Writable.spelled {e : PageExpr} (h : e.Writable) : Spelled e.render e := by
  obtain ⟨ts, hderives, hts⟩ := h.exists_derives
  have hspells := hts []
  rw [List.append_nil] at hspells
  exact ⟨ts, hspells, .ofConjunction (.ofUnary hderives)⟩

/-- Reading the written form of an expression gives the expression itself, exactly when the
expression is writable; and exactly these are the expressions that are read from texts. -/
theorem parse_toText_iff (e : PageExpr) :
    (parse e.toText = .ok e ↔ e.Writable) ∧ ((∃ text, parse text = .ok e) ↔ e.Writable) := by
  have hwritten (h : e.Writable) : parse e.toText = .ok e := by
    rw [parse_eq_ok, toText_eq, String.toList_ofList]
    exact parseChars_of_spelled h.spelled
  refine ⟨⟨writable_of_parse, hwritten⟩, ?_, fun h => ⟨e.toText, hwritten h⟩⟩
  rintro ⟨text, htext⟩
  exact writable_of_parse htext

/-- Every connective and every operation stands between parentheses, and so does what is negated. -/
example :
    (and (not (literal false)) (compare .page .lt (.binary .add (.constant 2) .page))).toText
      = "(!(false) && $pageNumber < (2 + $pageNumber))" := by
  decide

end PageExpr

end EntityQuery
