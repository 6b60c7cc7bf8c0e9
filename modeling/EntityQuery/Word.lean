/-!
# Machine words

Costs, sizes, counters and page numbers are 64-bit unsigned words, and amounts are 64-bit signed
ones that are read in 128-bit signed ones. Primary keys and the counter of idle sweeps have half the
width. All are kept here as natural numbers and integers, and this module names the operations that
notice the width.
-/

namespace EntityQuery

namespace Word

/-- The number of words. -/
def modulus : Nat := 18446744073709551616

/-- The largest word. -/
def max : Nat := 18446744073709551615

/-- The word that a number is modulo `modulus`. -/
def wrap (n : Nat) : Nat := n % modulus

/-- Addition that stops at the largest word. -/
def satAdd (a b : Nat) : Nat := min (a + b) max

/-- Multiplication that stops at the largest word. -/
def satMul (a b : Nat) : Nat := min (a * b) max

/-- The sum of words, stopping at the largest one. -/
def satSum (words : List Nat) : Nat := words.foldl satAdd 0

/-- The sum of words, starting over after the largest one. -/
def sum (words : List Nat) : Nat := wrap (words.foldl (· + ·) 0)

/-- The two's complement word of a signed number. -/
def ofSigned (v : Int) : Nat := (v % (modulus : Int)).toNat

/-- What is a word already stays what it is. -/
theorem wrap_of_lt {n : Nat} (h : n < modulus) : wrap n = n := Nat.mod_eq_of_lt h

/-- What is added up that way is a word. -/
theorem satAdd_le_max (a b : Nat) : satAdd a b ≤ max := Nat.min_le_right _ _

/-- Adding to a word gives no smaller one. -/
theorem le_satAdd_left {a : Nat} (b : Nat) (h : a ≤ max) : a ≤ satAdd a b := by
  unfold satAdd; omega

end Word

namespace HalfWord

/-- The number of words of half the width. -/
def modulus : Nat := 4294967296

/-- The largest word of half the width. -/
def max : Nat := 4294967295

/-- The word of half the width that a number is modulo `modulus`. -/
def wrap (n : Nat) : Nat := n % modulus

/-- Addition that stops at the largest word of half the width. -/
def satAdd (a b : Nat) : Nat := min (a + b) max

/-- Zero is a word of half the width. -/
@[simp] theorem wrap_zero : wrap 0 = 0 := rfl

/-- Wrapping before an addition makes no difference to the wrapped sum. -/
theorem wrap_wrap_add (m n : Nat) : wrap (wrap m + n) = wrap (m + n) := Nat.mod_add_mod m modulus n

end HalfWord

namespace Signed

/-- The smallest signed word. -/
def min : Int := -9223372036854775808

/-- The largest signed word. -/
def max : Int := 9223372036854775807

/-- Whether a number is a signed word. -/
def InRange (v : Int) : Prop := min ≤ v ∧ v ≤ max

instance (v : Int) : Decidable (InRange v) := inferInstanceAs (Decidable (_ ∧ _))

/-- The number itself when it is a signed word. -/
def narrow (v : Int) : Option Int := if InRange v then some v else none

/-- Exactly the signed words are kept, and as they are. -/
theorem narrow_eq_some_iff {v w : Int} : narrow v = some w ↔ InRange v ∧ w = v := by
  unfold narrow
  split <;> simp_all [eq_comm]

end Signed

namespace Wide

/-- The smallest signed word of the double width. -/
def min : Int := -170141183460469231731687303715884105728

/-- The largest signed word of the double width. -/
def max : Int := 170141183460469231731687303715884105727

/-- Whether a number is a signed word of the double width. -/
def InRange (v : Int) : Prop := min ≤ v ∧ v ≤ max

instance (v : Int) : Decidable (InRange v) := inferInstanceAs (Decidable (_ ∧ _))

end Wide

end EntityQuery
