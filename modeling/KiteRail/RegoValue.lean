import KiteRail.JsonText

/-! Values of the Rego language and the built-in functions that policies use. A
reference to a member that is not there is undefined, which is `none` here; numbers
are compared as numbers, and values of other types are ordered around them. -/
namespace KiteRail.Rego
open Bytes

/-- Keys of objects are values; sets are given by their elements in some order. -/
inductive Value
  | null
  | bool (b : Bool)
  | num (text : Bytes)
  | str (s : Bytes)
  | arr (elements : List Value)
  | obj (members : List (Value × Value))
  | set (elements : List Value)

namespace Value

def str? : Value → Option Bytes
  | str s => some s
  | _ => none

def field (v : Value) (key : Bytes) : Option Value :=
  match v with
  | obj members => (members.find? fun m => m.1.str? == some key).map Prod.snd
  | _ => none

def text (v : Value) (key : Bytes) : Option Bytes := (v.field key).bind str?

def record (members : List (Bytes × Bytes)) : Value :=
  obj (members.map fun m => (str m.1, str m.2))

mutual

/-- The value of a JSON text. -/
def ofJson : Json → Value
  | .null => null
  | .bool b => bool b
  | .num text => num text
  | .str s => str s
  | .arr elements => arr (ofElements elements)
  | .obj members => obj (ofMembers members)

def ofElements : List Json → List Value
  | [] => []
  | v :: rest => ofJson v :: ofElements rest

def ofMembers : List (Bytes × Json) → List (Value × Value)
  | [] => []
  | (key, v) :: rest => (str key, ofJson v) :: ofMembers rest

end

lemma text_of_field {v w : Value} {key : Bytes} (h : v.field key = some w) :
    v.text key = w.str? := by
  rw [text, h, Option.bind_some]

lemma find_ofMembers (members : List (Bytes × Json)) (key : Bytes) :
    ((ofMembers members).find? fun m => m.1.str? == some key).map Prod.snd =
      (members.find? fun m => m.1 == key).map fun m => ofJson m.2 := by
  induction members with
  | nil => rfl
  | cons m rest ih =>
    obtain ⟨k, v⟩ := m
    simp only [ofMembers, List.find?_cons, str?]
    by_cases hk : k = key
    · simp [hk]
    · have hne : (some k == some key) = false := by simpa using hk
      have hne' : (k == key) = false := by simpa using hk
      rw [hne, hne']
      exact ih

lemma field_ofJson (j : Json) (key : Bytes) : (ofJson j).field key = (j.get? key).map ofJson := by
  cases j with
  | obj members =>
    rw [ofJson, field, Json.get?, find_ofMembers, Option.map_map]
    rfl
  | _ => rfl

/-- The decimal number that the text of a JSON number denotes. -/
def number (text : Bytes) : ℚ :=
  let unsigned := if text.head? = some 45 then text.drop 1 else text
  let mantissa := unsigned.takeWhile fun b => b != 101 && b != 69
  let exponent := (unsigned.dropWhile fun b => b != 101 && b != 69).drop 1
  let whole := mantissa.takeWhile fun b => b != 46
  let fraction := (mantissa.dropWhile fun b => b != 46).drop 1
  let power : ℤ := match exponent with
    | 45 :: digits => -digitsValue digits
    | 43 :: digits => digitsValue digits
    | digits => digitsValue digits
  let magnitude : ℚ := digitsValue (whole ++ fraction) * 10 ^ (power - fraction.length)
  if text.head? = some 45 then -magnitude else magnitude

example : number (lit "-12.50e2") = -1250 ∧ number (lit "1E+3") = 1000 := by
  constructor <;> rw [number] <;> decide +kernel

def isNumber : Value → Bool
  | num _ => true
  | _ => false

def isString : Value → Bool
  | str _ => true
  | _ => false

/-- `v <= limit` for a number `limit`: null and booleans come before the numbers, all
other types after them. -/
def atMost (limit : ℚ) : Value → Bool
  | null => true
  | bool _ => true
  | num text => number text ≤ limit
  | _ => false

/-- `v in {names}` for a set of strings. -/
def among (names : List Bytes) (v : Value) : Bool := v.str?.any names.contains

end Value

/-! Regular expressions that are sequences of classes of ASCII characters. -/

def matchesHere : List (UInt8 → Bool) → Bytes → Bool
  | [], _ => true
  | _ :: _, [] => false
  | c :: cs, b :: bs => c b && matchesHere cs bs

/-- `regex.match`: somewhere in the string. -/
def regexMatch (pattern : List (UInt8 → Bool)) (s : Bytes) : Bool :=
  s.tails.any (matchesHere pattern)

/-- `sort` of an array of strings. -/
def sort (xs : List Bytes) : List Bytes := xs.insertionSort (· ≤ ·)

lemma mem_sort {xs : List Bytes} {x : Bytes} : x ∈ sort xs ↔ x ∈ xs :=
  (List.perm_insertionSort _ xs).mem_iff

lemma sort_eq_of_perm {xs ys : List Bytes} (h : xs.Perm ys) : sort xs = sort ys := by
  refine List.Perm.eq_of_pairwise' (r := (· ≤ ·)) (List.pairwise_insertionSort _ xs)
    (List.pairwise_insertionSort _ ys) ?_
  exact (List.perm_insertionSort _ xs).trans (h.trans (List.perm_insertionSort _ ys).symm)

/-- The first string of a sorted array is the least. -/
lemma head_sort_iff {xs : List Bytes} {x : Bytes} :
    (sort xs).head? = some x ↔ x ∈ xs ∧ ∀ y ∈ xs, x ≤ y := by
  have hsorted : (sort xs).Pairwise (· ≤ ·) := List.pairwise_insertionSort _ xs
  have hmem : ∀ y, y ∈ sort xs ↔ y ∈ xs := fun y => mem_sort
  cases hs : sort xs with
  | nil =>
    have hempty : ∀ y, y ∉ xs := fun y hy => by
      rw [← hmem, hs] at hy
      exact absurd hy List.not_mem_nil
    simp [hempty]
  | cons z rest =>
    rw [hs] at hsorted hmem
    obtain ⟨hleast, -⟩ := List.pairwise_cons.mp hsorted
    have hle : ∀ y ∈ xs, z ≤ y := fun y hy => by
      rcases List.mem_cons.mp ((hmem y).mpr hy) with rfl | hy
      · exact List.le_refl y
      · exact hleast y hy
    have hz : z ∈ xs := (hmem z).mp List.mem_cons_self
    rw [List.head?_cons, Option.some.injEq]
    constructor
    · rintro rfl
      exact ⟨hz, hle⟩
    · rintro ⟨hx, hxle⟩
      exact List.le_antisymm (hle x hx) (hxle z hz)

/-- A name that is not the JSON text of anything but a string. -/
def plainName (key : Bytes) : Bool :=
  key.all (fun b => 97 ≤ b && b ≤ 122) &&
    !([lit "true", lit "false", lit "null"].contains key) && !key.isEmpty

/-- `json.marshal` and `json.unmarshal`, on values whose strings are Unicode text. What is read
back of an encoded object has the same strings under the same names; sets come back as arrays, and
keys that are not strings as their JSON text. -/
structure JsonBuiltins where
  marshal : Value → Bytes
  unmarshal : Bytes → Option Value
  unmarshal_marshal : ∀ v, ∃ w, unmarshal (marshal v) = some w ∧
    ∀ key, plainName key = true → w.text key = v.text key

/-! An encoding of the strings of an object: every byte of a string is marked, so that
strings end where no mark stands. -/

def mark (s : Bytes) : Bytes := s.flatMap (fun b => [1, b]) ++ [0]

def unmark : Bytes → Option (Bytes × Bytes)
  | 0 :: rest => some ([], rest)
  | 1 :: b :: rest => (unmark rest).map fun r => (b :: r.1, r.2)
  | _ => none

lemma unmark_mark (s rest : Bytes) : unmark (mark s ++ rest) = some (s, rest) := by
  induction s with
  | nil => rfl
  | cons b s ih =>
    have hcons : mark (b :: s) ++ rest = 1 :: b :: (mark s ++ rest) := by simp [mark]
    rw [hcons, unmark, ih, Option.map_some]

/-- The members with string keys, values that are no strings as `none`. -/
def stringMembers : Value → List (Bytes × Option Bytes)
  | .obj members => members.filterMap fun m => m.1.str?.map fun key => (key, m.2.str?)
  | _ => []

def ofStringMembers (members : List (Bytes × Option Bytes)) : Value :=
  .obj (members.map fun m => (.str m.1, (m.2.map Value.str).getD .null))

def markMember (m : Bytes × Option Bytes) : Bytes :=
  1 :: mark m.1 ++ (match m.2 with | some s => 1 :: mark s | none => [0])

def unmarkMembers : ℕ → Bytes → Option (List (Bytes × Option Bytes))
  | _, [] => some []
  | n + 1, 1 :: rest => do
    let (key, rest) ← unmark rest
    match rest with
    | 0 :: rest => return (key, none) :: (← unmarkMembers n rest)
    | 1 :: rest =>
      let (s, rest) ← unmark rest
      return (key, some s) :: (← unmarkMembers n rest)
    | _ => none
  | _, _ => none

lemma unmarkMembers_flatMap (members : List (Bytes × Option Bytes)) (n : ℕ)
    (h : members.length ≤ n) : unmarkMembers n (members.flatMap markMember) = some members := by
  induction members generalizing n with
  | nil => cases n <;> rfl
  | cons m rest ih =>
    obtain ⟨key, s⟩ := m
    cases n with
    | zero => exact absurd h (by simp)
    | succ n =>
      have hrest := ih n (by simpa using h)
      cases s with
      | none =>
        have hcons : ((key, none) :: rest).flatMap markMember =
            1 :: (mark key ++ 0 :: rest.flatMap markMember) := by simp [markMember]
        rw [hcons, unmarkMembers, unmark_mark]
        simp [hrest]
      | some s =>
        have hcons : ((key, some s) :: rest).flatMap markMember =
            1 :: (mark key ++ 1 :: (mark s ++ rest.flatMap markMember)) := by simp [markMember]
        rw [hcons, unmarkMembers, unmark_mark]
        simp [unmark_mark, hrest]

lemma length_le_flatMap (members : List (Bytes × Option Bytes)) :
    members.length ≤ (members.flatMap markMember).length := by
  induction members with
  | nil => simp
  | cons m rest ih =>
    simp only [List.flatMap_cons, List.length_append, List.length_cons, markMember]
    omega

lemma text_obj_cons (k x : Value) (rest : List (Value × Value)) (key : Bytes) :
    (Value.obj ((k, x) :: rest)).text key =
      if k.str? = some key then x.str? else (Value.obj rest).text key := by
  rw [Value.text, Value.field, List.find?_cons]
  by_cases hk : k.str? = some key
  · simp [hk]
  · have hne : (k.str? == some key) = false := by simpa using hk
    simp only [hne, if_neg hk]
    rfl

lemma text_stringMembers (v : Value) (key : Bytes) :
    (ofStringMembers (stringMembers v)).text key = v.text key := by
  cases v with
  | obj members =>
    induction members with
    | nil => rfl
    | cons m rest ih =>
      obtain ⟨k, x⟩ := m
      rw [text_obj_cons, ← ih]
      cases k with
      | str k =>
        have hcons : ofStringMembers (stringMembers (.obj ((.str k, x) :: rest))) =
            .obj ((.str k, (x.str?.map Value.str).getD .null) ::
              (stringMembers (.obj rest)).map fun m => (.str m.1, (m.2.map .str).getD .null)) := rfl
        have hx : ((x.str?.map Value.str).getD .null).str? = x.str? := by cases x <;> rfl
        rw [hcons, text_obj_cons, hx]
        rfl
      | _ => rfl
  | _ => rfl

/-- Only strings under strings are encoded. -/
def JsonBuiltins.strings : JsonBuiltins where
  marshal v := (stringMembers v).flatMap markMember
  unmarshal bs := (unmarkMembers bs.length bs).map ofStringMembers
  unmarshal_marshal v := by
    refine ⟨ofStringMembers (stringMembers v), ?_, fun key _ => text_stringMembers v key⟩
    rw [unmarkMembers_flatMap _ _ (length_le_flatMap _), Option.map_some]

end KiteRail.Rego
