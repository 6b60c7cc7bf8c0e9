import EntityQuery.Error
import EntityQuery.Json.Parser
import EntityQuery.Json.Record

/-!
# Options

The options of the cache and of the engine, their defaults, and how they are read from a document.
Fields that a document leaves out keep their defaults.
-/

namespace EntityQuery

/-- Options of the cache. -/
structure CacheOptions where
  /-- Whether anything is cached at all. -/
  enabled : Bool := true
  /-- The bytes that all cached payloads together may take. -/
  cacheSize : Nat := 104857600
  /-- The uses that a computation needs before its ratio grows. -/
  minimalUsage : Nat := 2
  /-- The least estimated cost of a computation that is tracked. -/
  minimalCost : Nat := 10000
  /-- The ratio that a tracked computation has to exceed to be cached. -/
  minimalRatio : Nat := 0
  /-- The sweeps that a record may stay unused. -/
  coolEnough : Nat := 3
  /-- The bytes that one record may take. -/
  maxRecordSize : Nat := 1048576
  /-- The number of tracked computations beyond which an early sweep is asked for. -/
  anteroomLimit : Nat := 100000
  /-- The pause between sweeps. -/
  sweepPeriod : Nat := 60000
  deriving DecidableEq, Repr, Inhabited

namespace CacheOptions

/-- The defaults with the cache switched off. -/
def disabled : CacheOptions := { enabled := false }

/-- Whether the options can be used. -/
def validate (o : CacheOptions) : Except Error Unit :=
  if o.enabled && o.cacheSize == 0 then .error .noCacheSize
  else if o.sweepPeriod == 0 then .error .noSweepPeriod
  else .ok ()

/-- The names of the fields in a document. -/
def fieldNames : List String :=
  ["enabled", "cacheSizeInBytes", "minimalUsageThreshold", "minimalComplexityThreshold",
    "minimalSpaceToPerformanceRatio", "coolEnough", "maxRecordSizeInBytes", "anteroomRecordLimit",
    "reevaluateEveryMillis"]

/-- The options that a JSON value describes. -/
def ofJson? (json : Json) : Option CacheOptions := do
  let o : CacheOptions := {}
  let word := Json.natBelow? Word.modulus
  let half := Json.natBelow? HalfWord.modulus
  match ← json.fields? fieldNames with
  | [enabled, size, usage, cost, ratio, cool, record, anteroom, period] =>
    some
      { enabled := ← Json.fieldOr enabled Json.bool? o.enabled
        cacheSize := ← Json.fieldOr size word o.cacheSize
        minimalUsage := ← Json.fieldOr usage half o.minimalUsage
        minimalCost := ← Json.fieldOr cost word o.minimalCost
        minimalRatio := ← Json.fieldOr ratio word o.minimalRatio
        coolEnough := ← Json.fieldOr cool half o.coolEnough
        maxRecordSize := ← Json.fieldOr record word o.maxRecordSize
        anteroomLimit := ← Json.fieldOr anteroom word o.anteroomLimit
        sweepPeriod := ← Json.fieldOr period word o.sweepPeriod }
  | _ => none

/-- The options as a JSON value, with every field. -/
def toJson (o : CacheOptions) : Json :=
  .object <| fieldNames.zip <| .bool o.enabled ::
    [o.cacheSize, o.minimalUsage, o.minimalCost, o.minimalRatio, o.coolEnough, o.maxRecordSize,
      o.anteroomLimit, o.sweepPeriod].map fun n : Nat => .integer n

/-- The options that a JSON document describes, and whether they can be used; `none` when the
document describes no options. -/
def ofText? (text : String) : Option (Except Error CacheOptions) := do
  let o ← ofJson? (← Json.parse text)
  some (o.validate.map fun _ => o)

end CacheOptions

/-- How queries are planned. -/
inductive PlanningPolicy where
  /-- Entities are fetched first when that is cheaper, and the cache is consulted. -/
  | default
  /-- Entities are never fetched first, and all that can be cached is computed at once. -/
  | cacheEnforcing
  /-- Entities are always fetched first, and the cache is never consulted. -/
  | prefetchFavouring
  deriving DecidableEq, Repr, Inhabited

namespace PlanningPolicy

/-- The name of a policy in a document. -/
def name : PlanningPolicy → String
  | default => "default"
  | cacheEnforcing => "cacheEnforcing"
  | prefetchFavouring => "prefetchFavouring"

/-- The policy of a name. -/
def ofName? (name : String) : Option PlanningPolicy :=
  [default, cacheEnforcing, prefetchFavouring].find? (·.name == name)

/-- The policy that a JSON value names: its name, or an object with the name as its only member and
nothing for its value. -/
def ofJson? : Json → Option PlanningPolicy
  | .string name => ofName? name
  | .object [(name, .null)] => ofName? name
  | _ => none

end PlanningPolicy

/-- The cost of fetching one field of an entity. -/
def defaultCostPerField : Nat := 148

/-- Options of the engine. -/
structure EngineOptions where
  cache : CacheOptions := {}
  policy : PlanningPolicy := .default
  costPerField : Nat := defaultCostPerField
  deriving DecidableEq, Repr, Inhabited

namespace EngineOptions

/-- The names of the fields in a document. -/
def fieldNames : List String := ["cache", "planningPolicy", "prefetchCostPerField"]

/-- The options that a JSON value describes. -/
def ofJson? (json : Json) : Option EngineOptions := do
  let o : EngineOptions := {}
  match ← json.fields? fieldNames with
  | [cache, policy, cost] =>
    some
      { cache := ← Json.fieldOr cache CacheOptions.ofJson? o.cache
        policy := ← Json.fieldOr policy PlanningPolicy.ofJson? o.policy
        costPerField := ← Json.fieldOr cost (Json.natBelow? Word.modulus) o.costPerField }
  | _ => none

/-- The options that a JSON document describes. -/
def ofText? (text : String) : Option EngineOptions := do ofJson? (← Json.parse text)

end EngineOptions

end EntityQuery
