import EntityQuery.PageExpr.Parser
import Mathlib.Data.List.DropRight
import Mathlib.Tactic

/-!
# The grammar of page expressions

The grammar that the reader of page expressions follows, stated without it. A text is a sequence of
tokens with blanks around them (`Spells`). What tokens derive is given by one constructor for each
production: operands by rank (`Operand.Derives`), and conditions by rank (`PageExpr.Derives`). The
operators of a rank are joined from the left, because the left side of an operator has the rank of
the operator and the right side has the next rank. `PageExpr.Spelled` puts the two levels together.
-/

namespace EntityQuery

/-- A token, by its characters. -/
abbrev Token : Type := List Char

/-- The number of a page. -/
abbrev Token.page : Token := pageVariable

/-- The outcome of a condition that is the same on every page. -/
abbrev Token.literal (value : Bool) : Token := if value then "true".toList else "false".toList

/-- An opening parenthesis. -/
abbrev Token.opening : Token := ['(']

/-- A closing parenthesis. -/
abbrev Token.closing : Token := [')']

/-- Whether a token starts with a character that is no blank. -/
def Token.Visible (t : Token) : Prop := ∃ c ∈ t.head?, Reader.isBlank c = false

/-- Whether a text starts with some tokens and ends with a rest, and has nothing but blanks around
the tokens. -/
inductive Spells : List Token → List Char → List Char → Prop
  /-- Blanks. -/
  | blanks {b : List Char} (hb : ∀ c ∈ b, Reader.isBlank c = true) (rest : List Char) :
    Spells [] (b ++ rest) rest
  /-- Blanks and a token in front of more tokens. -/
  | token {b : List Char} (hb : ∀ c ∈ b, Reader.isBlank c = true) (t : Token) {ts : List Token}
    {text rest : List Char} (h : Spells ts text rest) : Spells (t :: ts) (b ++ (t ++ text)) rest

/-- How tightly operands hold together, the tightest first. -/
inductive Operand.Rank where
  | factor
  | term
  | arith

/-- What operands tokens derive. -/
inductive Operand.Derives : Operand.Rank → List Token → Operand → Prop
  /-- The number of the page. -/
  | page : Derives .factor [Token.page] .page
  /-- A run of digits whose value is a signed word. -/
  | integer {digits : List Char} (hne : digits ≠ []) (hdigits : ∀ c ∈ digits, c.isDigit = true)
    (hvalue : (Decimal.digitsValue digits : ℤ) ≤ Signed.max) :
    Derives .factor [digits] (.constant (Decimal.digitsValue digits))
  /-- An operand between parentheses. -/
  | group {ts : List Token} {o : Operand} (h : Derives .arith ts o) :
    Derives .factor (Token.opening :: (ts ++ [Token.closing])) o
  /-- A factor is a term. -/
  | ofFactor {ts : List Token} {o : Operand} (h : Derives .factor ts o) : Derives .term ts o
  /-- A term times, by or modulo a factor. -/
  | product {ts us : List Token} {l r : Operand} {op : ArithOp}
    (hop : op = .mul ∨ op = .div ∨ op = .rem) (hl : Derives .term ts l)
    (hr : Derives .factor us r) : Derives .term (ts ++ op.symbol :: us) (.binary op l r)
  /-- A term is a sum. -/
  | ofTerm {ts : List Token} {o : Operand} (h : Derives .term ts o) : Derives .arith ts o
  /-- A sum plus or minus a term. -/
  | sum {ts us : List Token} {l r : Operand} {op : ArithOp} (hop : op = .add ∨ op = .sub)
    (hl : Derives .arith ts l) (hr : Derives .term us r) :
    Derives .arith (ts ++ op.symbol :: us) (.binary op l r)

/-- How tightly conditions hold together, the tightest first. -/
inductive PageExpr.Rank where
  | unary
  | conjunction
  | disjunction

/-- What conditions tokens derive. -/
inductive PageExpr.Derives : PageExpr.Rank → List Token → PageExpr → Prop
  /-- A negation. -/
  | not {ts : List Token} {e : PageExpr} (h : Derives .unary ts e) :
    Derives .unary (['!'] :: ts) (.not e)
  /-- What holds of every page, or of none. -/
  | literal (value : Bool) : Derives .unary [Token.literal value] (.literal value)
  /-- A comparison. -/
  | compare {ts us : List Token} {l r : Operand} (op : CompareOp)
    (hl : Operand.Derives .arith ts l) (hr : Operand.Derives .arith us r) :
    Derives .unary (ts ++ op.symbol :: us) (.compare l op r)
  /-- A condition between parentheses. -/
  | group {ts : List Token} {e : PageExpr} (h : Derives .disjunction ts e) :
    Derives .unary (Token.opening :: (ts ++ [Token.closing])) e
  /-- A condition by itself is a conjunction. -/
  | ofUnary {ts : List Token} {e : PageExpr} (h : Derives .unary ts e) : Derives .conjunction ts e
  /-- A conjunction and one more condition. -/
  | and {ts us : List Token} {l r : PageExpr} (hl : Derives .conjunction ts l)
    (hr : Derives .unary us r) : Derives .conjunction (ts ++ ['&', '&'] :: us) (.and l r)
  /-- A conjunction by itself is a disjunction. -/
  | ofConjunction {ts : List Token} {e : PageExpr} (h : Derives .conjunction ts e) :
    Derives .disjunction ts e
  /-- A disjunction and one more conjunction. -/
  | or {ts us : List Token} {l r : PageExpr} (hl : Derives .disjunction ts l)
    (hr : Derives .conjunction us r) : Derives .disjunction (ts ++ ['|', '|'] :: us) (.or l r)

/-- Whether a text spells a page expression. -/
def PageExpr.Spelled (text : List Char) (e : PageExpr) : Prop :=
  ∃ ts, Spells ts text [] ∧ Derives .disjunction ts e

/-! ## Texts and their tokens -/

namespace Spells

open Reader (isBlank skipBlank)

variable {ts us : List Token} {t : Token} {s m r : List Char}

/-- Skipping blanks leaves a text that starts with none. -/
theorem skipBlank_eq_self {c : Char} (h : isBlank c = false) (s : List Char) :
    skipBlank (c :: s) = c :: s := by
  rw [skipBlank, List.dropWhile_cons_of_neg (by simp [h])]

/-- Blanks in front of a text are skipped. -/
theorem skipBlank_append {b : List Char} (hb : ∀ c ∈ b, isBlank c = true) (s : List Char) :
    skipBlank (b ++ s) = skipBlank s := by
  rw [skipBlank, List.dropWhile_append, List.dropWhile_eq_nil_iff.mpr hb]
  rfl

/-- A text is what is skipped of it and the rest. -/
theorem exists_blanks (s : List Char) :
    ∃ b, (∀ c ∈ b, isBlank c = true) ∧ s = b ++ skipBlank s :=
  ⟨s.takeWhile isBlank, fun _ hc => List.mem_takeWhile_imp hc, List.takeWhile_append_dropWhile.symm⟩

/-- Skipping blanks twice is skipping them once. -/
theorem skipBlank_skipBlank (s : List Char) : skipBlank (skipBlank s) = skipBlank s :=
  List.dropWhile_idempotent isBlank s

/-- A text spells no token at all. -/
theorem refl (s : List Char) : Spells [] s s := blanks (b := []) (fun _ hc => nomatch hc) s

/-- Blanks may be added in front. -/
theorem blanks_append {b : List Char} (hb : ∀ c ∈ b, isBlank c = true) (h : Spells ts s r) :
    Spells ts (b ++ s) r := by
  have hmem (b' : List Char) (hb' : ∀ c ∈ b', isBlank c = true) :
      ∀ c ∈ b ++ b', isBlank c = true := by
    intro c hc
    rcases List.mem_append.mp hc with hc | hc
    · exact hb c hc
    · exact hb' c hc
  cases h with
  | blanks hb' =>
    rw [← List.append_assoc]
    exact blanks (hmem _ hb') r
  | token hb' t h =>
    rw [← List.append_assoc]
    exact token (hmem _ hb') t h

/-- A text spells what it spells behind its first blanks. -/
theorem of_skipBlank (h : Spells ts (skipBlank s) r) : Spells ts s r := by
  obtain ⟨b, hb, hs⟩ := exists_blanks s
  rw [hs]
  exact h.blanks_append hb

/-- What is spelled in front of a text and what is spelled by the text follow each other. -/
theorem append (h : Spells ts s m) (h' : Spells us m r) : Spells (ts ++ us) s r := by
  induction h with
  | blanks hb m => exact h'.blanks_append hb
  | token hb t _ ih => exact token hb t (ih h')

/-- Blanks in front of the rest may be left out of it. -/
theorem skipBlank_rest (h : Spells ts s r) : Spells ts s (skipBlank r) := by
  have hblanks : Spells [] r (skipBlank r) := of_skipBlank (refl _)
  have happend := h.append hblanks
  rwa [List.append_nil] at happend

/-- A text that starts with a token spells the token. -/
theorem single (t : Token) (r : List Char) : Spells [t] (t ++ r) r :=
  token (b := []) (fun _ hc => nomatch hc) t (refl r)

/-- What is spelled splits like the tokens do. -/
theorem exists_split (h : Spells (ts ++ us) s r) : ∃ m, Spells ts s m ∧ Spells us m r := by
  induction ts generalizing s with
  | nil => exact ⟨s, refl s, h⟩
  | cons t ts ih =>
    cases h with
    | token hb _ h =>
      obtain ⟨m, hts, hus⟩ := ih h
      exact ⟨m, token hb t hts, hus⟩

/-- Behind the first blanks, a text starts with its first token. -/
theorem skipBlank_cons (ht : t.Visible) (h : Spells (t :: ts) s r) :
    ∃ m, skipBlank s = t ++ m ∧ Spells ts m r := by
  obtain ⟨c, hhead, hc⟩ := ht
  obtain ⟨t', rfl⟩ := List.head?_eq_some_iff.mp hhead
  cases h with
  | @token b hb _ _ m _ h =>
    refine ⟨m, ?_, h⟩
    rw [skipBlank_append hb]
    exact skipBlank_eq_self hc _

/-- The blanks in front of a token may be left out. -/
theorem skipBlank_text (ht : t.Visible) (h : Spells (t :: ts) s r) :
    Spells (t :: ts) (skipBlank s) r := by
  obtain ⟨m, hs, hm⟩ := skipBlank_cons ht h
  rw [hs]
  exact (single t m).append hm

/-- Without tokens, a text and its rest differ by blanks. -/
theorem skipBlank_nil (h : Spells [] s r) : skipBlank s = skipBlank r := by
  cases h with
  | blanks hb => exact skipBlank_append hb r

/-- The rest is no longer than the text, and shorter by one character for each token at least. -/
theorem length_add_length_le (hts : ∀ t ∈ ts, t.Visible) (h : Spells ts s r) :
    ts.length + r.length ≤ s.length := by
  induction h with
  | blanks hb r => simp
  | @token b hb t ts text r _ ih =>
    have ht : 0 < t.length := by
      obtain ⟨c, hhead, -⟩ := hts t List.mem_cons_self
      exact List.length_pos_of_mem (List.mem_of_mem_head? hhead)
    have htext := ih fun u hu => hts u (List.mem_cons_of_mem t hu)
    simp only [List.length_cons, List.length_append]
    omega

end Spells

end EntityQuery
