import KiteRail.Utf8

/-! JSON: values, the syntax of their text, and the strings that string literals
stand for. Parsing keeps every literal as written; the text of a number is its
value here. Containers may be nested ten thousand deep. -/
namespace KiteRail

inductive Json
  | null
  | bool (b : Bool)
  | num (text : Bytes)
  | str (s : Bytes)
  | arr (elements : List Json)
  | obj (members : List (Bytes × Json))

namespace Json

def get? (key : Bytes) : Json → Option Json
  | obj members => (members.find? fun m => m.1 == key).map Prod.snd
  | _ => none

def str? : Json → Option Bytes
  | str s => some s
  | _ => none

/-- One item of a string literal: a byte, a two-character escape, or a code unit. -/
inductive StrItem
  | char (b : UInt8)
  | escape (b : UInt8)
  | unicode (u : ℕ)

/-- A syntax tree of JSON text. -/
inductive Raw
  | null
  | bool (b : Bool)
  | num (text : Bytes)
  | str (items : List StrItem)
  | arr (elements : List Raw)
  | obj (members : List (List StrItem × Raw))

def isSpace (b : UInt8) : Bool := b == 32 || b == 9 || b == 10 || b == 13

def skipSpace (bs : Bytes) : Bytes := bs.dropWhile isSpace

def isDigit (b : UInt8) : Bool := 48 ≤ b && b ≤ 57

def hexValue (b : UInt8) : Option ℕ :=
  if 48 ≤ b && b ≤ 57 then some (b.toNat - 48)
  else if 97 ≤ b && b ≤ 102 then some (b.toNat - 87)
  else if 65 ≤ b && b ≤ 70 then some (b.toNat - 55)
  else none

def hex4 (a b c d : UInt8) : Option ℕ := do
  let a ← hexValue a
  let b ← hexValue b
  let c ← hexValue c
  let d ← hexValue d
  return 4096 * a + 256 * b + 16 * c + d

def escaped (b : UInt8) : Option UInt8 :=
  if b == 34 || b == 92 || b == 47 then some b
  else if b == 98 then some 8
  else if b == 102 then some 12
  else if b == 110 then some 10
  else if b == 114 then some 13
  else if b == 116 then some 9
  else none

/-- The items of a string literal after its opening quote, and what follows it. -/
def stringItems : Bytes → Option (List StrItem × Bytes)
  | [] => none
  | b :: rest =>
    if b == 34 then some ([], rest)
    else if b == 92 then
      match rest with
      | [] => none
      | e :: rest =>
        if e == 117 then
          match rest with
          | h₁ :: h₂ :: h₃ :: h₄ :: rest => do
            let u ← hex4 h₁ h₂ h₃ h₄
            let (items, after) ← stringItems rest
            return (.unicode u :: items, after)
          | _ => none
        else do
          let c ← escaped e
          let (items, after) ← stringItems rest
          return (.escape c :: items, after)
    else if b < 32 then none
    else do
      let (items, after) ← stringItems rest
      return (.char b :: items, after)

def digits (bs : Bytes) : Option (Bytes × Bytes) :=
  if (bs.takeWhile isDigit).isEmpty then none else some (bs.span isDigit)

def integerPart : Bytes → Option (Bytes × Bytes)
  | 48 :: rest => some ([48], rest)
  | bs => digits bs

def fractionPart : Bytes → Option (Bytes × Bytes)
  | 46 :: rest => (digits rest).map fun (d, after) => (46 :: d, after)
  | bs => some ([], bs)

def exponentPart : Bytes → Option (Bytes × Bytes)
  | e :: rest =>
    if e == 101 || e == 69 then
      match rest with
      | s :: rest' =>
        if s == 43 || s == 45 then (digits rest').map fun (d, after) => (e :: s :: d, after)
        else (digits rest).map fun (d, after) => (e :: d, after)
      | [] => none
    else some ([], e :: rest)
  | [] => some ([], [])

def number (bs : Bytes) : Option (Bytes × Bytes) := do
  let (sign, bs) : Bytes × Bytes := match bs with
    | 45 :: rest => ([45], rest)
    | _ => ([], bs)
  let (i, bs) ← integerPart bs
  let (f, bs) ← fractionPart bs
  let (e, bs) ← exponentPart bs
  return (sign ++ i ++ f ++ e, bs)

def keyword (word bs : Bytes) : Option Bytes :=
  if bs.take word.length = word then some (bs.drop word.length) else none

mutual

/-- A value after optional space, with the number of containers it may still open. -/
def value : ℕ → ℕ → Bytes → Option (Raw × Bytes)
  | 0, _, _ => none
  | fuel + 1, depth, bs =>
    match skipSpace bs with
    | [] => none
    | b :: rest =>
      if b == 123 then
        match depth with
        | 0 => none
        | depth + 1 =>
          match skipSpace rest with
          | 125 :: after => some (.obj [], after)
          | _ => (members fuel depth rest).map fun (ms, after) => (.obj ms, after)
      else if b == 91 then
        match depth with
        | 0 => none
        | depth + 1 =>
          match skipSpace rest with
          | 93 :: after => some (.arr [], after)
          | _ => (elements fuel depth rest).map fun (es, after) => (.arr es, after)
      else if b == 34 then (stringItems rest).map fun (items, after) => (.str items, after)
      else if b == 116 then (keyword [114, 117, 101] rest).map fun after => (.bool true, after)
      else if b == 102 then (keyword [97, 108, 115, 101] rest).map fun after => (.bool false, after)
      else if b == 110 then (keyword [117, 108, 108] rest).map fun after => (.null, after)
      else (number (b :: rest)).map fun (text, after) => (.num text, after)

def elements : ℕ → ℕ → Bytes → Option (List Raw × Bytes)
  | 0, _, _ => none
  | fuel + 1, depth, bs => do
    let (v, after) ← value fuel depth bs
    match skipSpace after with
    | 44 :: rest =>
      let (vs, after) ← elements fuel depth rest
      return (v :: vs, after)
    | 93 :: rest => return ([v], rest)
    | _ => none

def members : ℕ → ℕ → Bytes → Option (List (List StrItem × Raw) × Bytes)
  | 0, _, _ => none
  | fuel + 1, depth, bs => do
    match skipSpace bs with
    | 34 :: rest =>
      let (name, after) ← stringItems rest
      match skipSpace after with
      | 58 :: rest =>
        let (v, after) ← value fuel depth rest
        match skipSpace after with
        | 44 :: rest =>
          let (ms, after) ← members fuel depth rest
          return ((name, v) :: ms, after)
        | 125 :: rest => return ([(name, v)], rest)
        | _ => none
      | _ => none
    | _ => none

end

def maxNestingDepth : ℕ := 10000

/-- Exactly one value, with space around it. -/
def parse (bs : Bytes) : Option Raw :=
  match value (2 * bs.length + 2) maxNestingDepth bs with
  | some (v, rest) => if skipSpace rest = [] then some v else none
  | none => none

/-- The text a string literal stands for; a surrogate without its partner becomes a
replacement character. -/
def unquote : List StrItem → Bytes
  | [] => []
  | .char b :: rest => b :: unquote rest
  | .escape b :: rest => b :: unquote rest
  | .unicode u :: .unicode v :: rest =>
    if 0xD800 ≤ u ∧ u < 0xDC00 ∧ 0xDC00 ≤ v ∧ v < 0xE000 then
      Utf8.encodeRune (0x10000 + (u - 0xD800) * 1024 + (v - 0xDC00)) ++ unquote rest
    else Utf8.encodeRune u ++ unquote (.unicode v :: rest)
  | .unicode u :: rest => Utf8.encodeRune u ++ unquote rest

end Json
end KiteRail
