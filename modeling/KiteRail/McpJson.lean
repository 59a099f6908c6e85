import KiteRail.GoError
import KiteRail.JsonText

/-! Decoding one JSON object. Member names are compared after unescaping, and a
name that occurs twice in one object, at any depth, is an error. -/
namespace KiteRail.Mcp
open Bytes

mutual

/-- Walk a syntax tree in the order of its text; the first repeated name ends it. -/
def decodeValue : Json.Raw → Except Message Json
  | .null => .ok .null
  | .bool b => .ok (.bool b)
  | .num text => .ok (.num text)
  | .str items => .ok (.str (Json.unquote items))
  | .arr elements => do return .arr (← decodeElements elements)
  | .obj members => do return .obj (← decodeMembers [] members)

def decodeElements : List Json.Raw → Except Message (List Json)
  | [] => .ok []
  | v :: rest => do
    let v ← decodeValue v
    return v :: (← decodeElements rest)

def decodeMembers (object : List (Bytes × Json)) :
    List (List Json.StrItem × Json.Raw) → Except Message (List (Bytes × Json))
  | [] => .ok object
  | (name, v) :: rest =>
    let key := Json.unquote name
    if object.any fun m => m.1 == key then
      .error [.text (lit "duplicate JSON member "), .quoted key]
    else do
      let v ← decodeValue v
      decodeMembers (object ++ [(key, v)]) rest

end

/-- The members of the one object that the body holds. -/
def decodeObject (body : Bytes) : Except Message (List (Bytes × Json)) :=
  match Utf8.valid body, Json.parse body with
  | true, some raw => do
    match ← decodeValue raw with
    | .obj members => return members
    | _ => throw (msg "body must be a single JSON object; batching is not supported")
  | _, _ => throw (msg "body must contain one valid UTF-8 JSON value")

example :
    (decodeObject (lit "\x7b\"a\": \x7b\"b\": 1, \"\\u0062\": 2\x7d\x7d")).toOption.isNone := by
  decide +kernel

end KiteRail.Mcp
