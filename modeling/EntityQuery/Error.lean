import EntityQuery.Digest
import EntityQuery.PageExpr.Parser
import EntityQuery.Price
import EntityQuery.Text.Quoted

/-!
# Errors

Everything that can go wrong in answering a query, by cause. Causes fall into three kinds: the
request or the options are at fault, a promise between parts of the pipeline was broken, or the
storage of entities failed.
-/

namespace EntityQuery

/-- Why a query or one of its parts has no answer. -/
inductive Error where
  /-- A bound of an amount range is no decimal. -/
  | decimal (cause : Decimal.Error)
  /-- The condition of a gap is no page expression. -/
  | pageExpr (cause : PageExpr.Error)
  /-- The lower bound of an amount range is above the upper one. -/
  | invertedRange (lower upper : Int) (places : Nat)
  /-- A price filter reads a value that prices do not have. -/
  | priceMode (mode : ValueMode)
  /-- A price filter and its price index differ in precision. -/
  | pricePlaces (used stored : Nat)
  /-- A page number or a page size is zero. -/
  | page (number size : Nat)
  /-- Two stages of an ordering have the same scope. -/
  | duplicateOrdering (scope : String)
  /-- The cache is enabled and has no room. -/
  | noCacheSize
  /-- The cache is to be swept without a pause. -/
  | noSweepPeriod
  /-- A comparator was asked before it was initialized. -/
  | comparatorUnready (entityType : String)
  /-- A comparator was initialized for two different sets. -/
  | comparatorReused (entityType : String)
  /-- A cache record was asked for a payload that it never got. -/
  | payloadMissing (key : Digest)
  /-- The storage failed. -/
  | fetch (report : String)
  deriving Repr

/-- The kinds of errors. -/
inductive Error.Kind where
  | configuration
  | premise
  | fetch
  deriving DecidableEq, Repr

namespace Error

/-- The kind of an error. -/
def kind : Error → Kind
  | comparatorUnready _ | comparatorReused _ | payloadMissing _ => .premise
  | fetch _ => .fetch
  | _ => .configuration

/-- The cause of an error in words. -/
def cause : Error → String
  | decimal e => e.message
  | pageExpr e => e.message
  | invertedRange lower upper places =>
    s!"amount range is inverted: from {lower} > to {upper} (at {places} places)"
  | priceMode mode => "price filter does not support value mode " ++ mode.name
  | pricePlaces used stored =>
    s!"price predicate uses {used} decimal places but the index stores {stored}"
  | page number size =>
    s!"page number and page size must be positive, got page {number} of size {size}"
  | duplicateOrdering scope => s!"duplicate ordering constraint on `{scope}`"
  | noCacheSize => "cache is enabled but `cacheSizeInBytes` is zero"
  | noSweepPeriod => "`reevaluateEveryMillis` must be positive"
  | comparatorUnready entityType => s!"comparator over `{entityType}` used before initialization"
  | comparatorReused entityType =>
    s!"comparator over `{entityType}` already initialized for another entity set"
  | payloadMissing key =>
    "payload of cache record " ++ key.label ++ " accessed before it was recorded"
  | fetch report => report

/-- The name of a kind. -/
def Kind.name : Kind → String
  | configuration => "Configuration"
  | premise => "PremiseViolation"
  | fetch => "Fetch"

/-- What stands in front of the cause. -/
def Kind.heading : Kind → String
  | configuration => "configuration error: "
  | premise => "internal error (premise violated): "
  | fetch => "entity fetch failed: "

/-- The wording of an error. -/
def message (e : Error) : String := e.kind.heading ++ e.cause

end Error

end EntityQuery
