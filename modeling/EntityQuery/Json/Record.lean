import EntityQuery.Json.Basic

/-!
# Records in JSON

A record with named fields is given as an object or as an array. In an object, every name has to be
a text, unknown names are ignored with all that is in their values, and a known name must not be
repeated; in an array, values stand in the order in which the fields are declared, and fields at the
end may be left out.
-/

namespace EntityQuery.Json

/-- The values given for the declared fields, in their order. -/
def fields? (names : List String) : Json → Option (List (Option Json))
  | .array items =>
    if items.length ≤ names.length then
      some (items.map some ++ List.replicate (names.length - items.length) none)
    else none
  | .object members =>
    names.mapM fun name =>
      match members.filter (·.1 == name) with
      | [] => some none
      | [(_, value)] => some (some value)
      | _ => none
  | _ => none

/-- The value of a field, or `default` where it is not given. -/
def fieldOr {α : Type} (given : Option Json) (decode : Json → Option α) (default : α) : Option α :=
  match given with
  | some value => decode value
  | none => some default

end EntityQuery.Json
