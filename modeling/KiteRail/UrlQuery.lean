import KiteRail.JsonText

namespace KiteRail.UrlQuery
open Bytes

/-- `url.QueryUnescape`. -/
def unescape : Bytes → Option Bytes
  | [] => some []
  | 37 :: a :: b :: rest => do
    let high ← Json.hexValue a
    let low ← Json.hexValue b
    let text ← unescape rest
    return (16 * high + low).toUInt8 :: text
  | 37 :: _ => none
  | b :: rest => (unescape rest).map ((if b = 43 then 32 else b) :: ·)

/-- One part of a query: nothing to read, an error, or a pair. -/
def parsePart (part : Bytes) : Option (Option (Bytes × Bytes)) :=
  if part.contains 59 then none
  else if part = [] then some none
  else do
    let key ← unescape (part.takeWhile (· != 61))
    let value ← unescape ((part.dropWhile (· != 61)).drop 1)
    return some (key, value)

def maxParams : ℕ := 10000

/-- The pairs in their order, and whether there was no error. -/
def parseQuery (query : Bytes) : List (Bytes × Bytes) × Bool :=
  let parts := (query.splitOn 38).map parsePart
  if maxParams < parts.length then ([], false)
  else (parts.filterMap Option.join, parts.all Option.isSome)

/-- `Values.Get`: the first value of the key. -/
def get (values : List (Bytes × Bytes)) (key : Bytes) : Bytes := (values.lookup key).getD []

example : parseQuery (lit "state=a%2Fb+c&x;y=1&code=%zz&&n") =
    ([(lit "state", lit "a/b c"), (lit "n", [])], false) := by decide

end KiteRail.UrlQuery
