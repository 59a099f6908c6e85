import KiteRail.GoStrconv
import KiteRail.HttpHeader
import KiteRail.JsonText

/-! Decoding JSON into structs, as `json.Unmarshal` does it: names are matched ignoring case, a
later member overwrites or extends what an earlier one left, `null` leaves a string or a struct
as it is, and a value of another type is an error that does not end the decoding. -/
namespace KiteRail.Json
variable {σ τ : Type}

/-- What decoding one value does to a variable: its new value, and whether all types fitted. -/
abbrev Decoder (τ : Type) := τ → Raw → τ × Bool

def text (items : List StrItem) : Bytes := Utf8.sanitize (unquote items)

def decodeString : Decoder Bytes
  | old, .null => (old, true)
  | _, .str items => (text items, true)
  | old, _ => (old, false)

def decodeBool : Decoder Bool
  | old, .null => (old, true)
  | _, .bool b => (b, true)
  | old, _ => (old, false)

def decodeInt64 : Decoder ℤ
  | old, .null => (old, true)
  | old, .num text =>
    match GoStrconv.parseInt text with
    | some n => (n, true)
    | none => (old, false)
  | old, _ => (old, false)

def field (get : σ → τ) (set : σ → τ → σ) (d : Decoder τ) : Decoder σ := fun s v =>
  (set s (d (get s) v).1, (d (get s) v).2)

/-- One member of an object. The names of `fields` differ in more than case. -/
def decodeMember (fields : List (Bytes × Decoder σ)) (s : σ × Bool) (m : List StrItem × Raw) :
    σ × Bool :=
  match fields.find? fun f => Header.equalFold (text m.1) f.1 with
  | some f => ((f.2 s.1 m.2).1, s.2 && (f.2 s.1 m.2).2)
  | none => s

def decodeStruct (fields : List (Bytes × Decoder σ)) : Decoder σ
  | old, .null => (old, true)
  | old, .obj members => members.foldl (decodeMember fields) (old, true)
  | old, _ => (old, false)

/-- A slice of structs of which only the first is read. Its elements are decoded over those of
the slice it replaces. -/
def decodeFirst (zero : σ) (d : Decoder σ) : Decoder (Option σ)
  | _, .null => (none, true)
  | _, .arr [] => (none, true)
  | old, .arr (v :: vs) =>
    (some (d (old.getD zero) v).1, (d (old.getD zero) v).2 && vs.all fun v => (d zero v).2)
  | old, _ => (old, false)

/-- A slice of `json.RawMessage` that is not read. -/
def skipSlice : Decoder σ
  | old, .null => (old, true)
  | old, .arr _ => (old, true)
  | old, _ => (old, false)

/-- The struct that a value decodes to, from the zero one. -/
def decoded (zero : σ) (d : Decoder σ) (v : Raw) : Option σ :=
  if (d zero v).2 then some (d zero v).1 else none

/-- `json.Unmarshal`. -/
def unmarshal (zero : σ) (d : Decoder σ) (bs : Bytes) : Option σ :=
  (parse bs).bind (decoded zero d)

/-- `Decoder.Decode`, which leaves what follows the first value. -/
def decodeNext (zero : σ) (d : Decoder σ) (bs : Bytes) : Option σ :=
  (value (2 * bs.length + 2) maxNestingDepth bs).bind fun p => decoded zero d p.1

end KiteRail.Json
