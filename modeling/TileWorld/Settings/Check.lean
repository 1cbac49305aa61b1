import TileWorld.Number.Numeral
import TileWorld.Settings.Basic

/-! Checked reading of loosely typed documents. A reading yields a value, or every issue found, in
the order of the fields. -/
namespace TileWorld

/-- A loosely typed value. Trees and shapes stand in it ready made. -/
inductive Document where
  | null
  | bool (b : Bool)
  | int (n : Int)
  | float (x : Float)
  | text (s : String)
  | list (items : List Document)
  | record (fields : List (String × Document))
  | shape (s : Shape Float)
  | sampler (s : Sampler Float)
  | brush (b : Brush Float)
deriving Inhabited

/-- What is wrong with a value. -/
inductive Complaint where
  | missing
  | unexpected
  | tooLong
  | notBuilt
  | notRecord
  | notList
  | notRow
  | notSpan
  | notText
  | notTruth
  | unreadTruth
  | notInteger
  | unreadInteger
  | oversized
  | fractional
  | notFinite
  | notNumber
  | unreadNumber
  | aboveMost
  | notBelow
  | belowLeast
  | notAbove
deriving DecidableEq, Repr

/-- The word for a complaint in reports. -/
def Complaint.code : Complaint → String
  | missing => "missing"
  | unexpected => "extra_forbidden"
  | tooLong => "too_long"
  | notBuilt => "is_instance_of"
  | notRecord => "model_type"
  | notList => "list_type"
  | notRow => "tuple_type"
  | notSpan => "named_tuple_type"
  | notText => "string_type"
  | notTruth => "bool_type"
  | unreadTruth => "bool_parsing"
  | notInteger => "int_type"
  | unreadInteger => "int_parsing"
  | oversized => "int_parsing_size"
  | fractional => "int_from_float"
  | notFinite => "finite_number"
  | notNumber => "float_type"
  | unreadNumber => "float_parsing"
  | aboveMost => "less_than_equal"
  | notBelow => "less_than"
  | belowLeast => "greater_than_equal"
  | notAbove => "greater_than"

/-- A complaint and the path to the value it is about. -/
structure Issue where
  path : List String
  complaint : Complaint
deriving DecidableEq, Repr

namespace Issue

/-- The path with points between its parts. -/
def place (i : Issue) : String := ".".intercalate i.path

def text (i : Issue) : String := i.place ++ ": " ++ i.complaint.code

end Issue

abbrev Check (β : Type) := Except (List Issue) β

namespace Check
variable {β γ : Type}

def fail (c : Complaint) : Check β := .error [⟨[], c⟩]

/-- Place the issues of a part under its name. -/
def under (name : String) : Check β → Check β
  | .ok v => .ok v
  | .error issues => .error (issues.map fun i => ⟨name :: i.path, i.complaint⟩)

/-- Two readings at once: the issues of both are kept. -/
def both : Check (β → γ) → Check β → Check γ
  | .ok f, .ok v => .ok (f v)
  | .ok _, .error e => .error e
  | .error e, .ok _ => .error e
  | .error e, .error e' => .error (e ++ e')

/-- Readings of a list, at indices from `start` on. -/
def indexed (read : β → Check γ) : Nat → List β → Check (List γ)
  | _, [] => .ok []
  | start, v :: rest =>
    both (.map List.cons (under (toString start) (read v))) (indexed read (start + 1) rest)

end Check

namespace Document

/-- Bounds of a number: at most, below, at least, above; tested in that order. -/
structure Bounds (β : Type) where
  most : Option β := none
  below : Option β := none
  least : Option β := none
  above : Option β := none

def Bounds.check {β : Type} (le lt : β → β → Bool) (b : Bounds β) (v : β) : Check β :=
  let refuses (test : β → Bool) (bound : Option β) : Bool := bound.any fun c => !test c
  if refuses (le v) b.most then Check.fail .aboveMost
  else if refuses (lt v) b.below then Check.fail .notBelow
  else if refuses (le · v) b.least then Check.fail .belowLeast
  else if refuses (lt · v) b.above then Check.fail .notAbove
  else .ok v

/-- The field of a record; the last one of a name counts. -/
def field? (fields : List (String × Document)) (name : String) : Option Document :=
  (fields.reverse.find? (·.1 == name)).map (·.2)

/-- A field that must be present. -/
def required {β : Type} (fields : List (String × Document)) (name : String)
    (read : Document → Check β) : Check β :=
  Check.under name (match field? fields name with
    | some d => read d
    | none => Check.fail .missing)

/-- A field with a default. -/
def optional {β : Type} (fields : List (String × Document)) (name : String) (default : β)
    (read : Document → Check β) : Check β :=
  match field? fields name with
  | some d => Check.under name (read d)
  | none => .ok default

def record? : Document → Check (List (String × Document))
  | .record fields => .ok fields
  | _ => Check.fail .notRecord

def text? : Document → Check String
  | .text s => .ok s
  | _ => Check.fail .notText

def double? (bounds : Bounds Float) (d : Document) : Check Float := do
  let x ← match d with
    | .bool b => .ok (if b then 1.0 else 0.0)
    | .int n => match Scalar.ofInt? n with
      | .ok x => .ok x
      | .error _ => Check.fail .notNumber
    | .float x => .ok x
    | .text s => match Numeral.decimal? s with
      | some x => .ok x
      | none => Check.fail .unreadNumber
    | _ => Check.fail .notNumber
  bounds.check Scalar.le Scalar.lt x

/-- An integer numeral, with or without a fraction of zeros. -/
def integerText? (s : String) : Check Int :=
  let body := Glyph.strip s.toList
  if Numeral.maxDigits < body.length then Check.fail .oversized else
  let whole := body.takeWhile (· ≠ '.')
  let fraction := (body.dropWhile (· ≠ '.')).drop 1
  match Numeral.integerBody? whole with
  | some n => if fraction.all (· == '0') then .ok n else Check.fail .unreadInteger
  | none => Check.fail .unreadInteger

/-- A double without fraction, within 64 bits. -/
def integerDouble? (x : Float) : Check Int :=
  if x.isNaN || x.isInf then Check.fail .notFinite else
  let d := Dyadic.ofFloat x
  if !d.isInteger then Check.fail .fractional
  else if d.truncate.natAbs < 0x8000000000000000 then .ok d.truncate
  else Check.fail .oversized

def integer? (bounds : Bounds Int) (d : Document) : Check Int := do
  let n ← match d with
    | .bool b => .ok (if b then 1 else 0)
    | .int n => .ok n
    | .float x => integerDouble? x
    | .text s => integerText? s
    | _ => Check.fail .notInteger
  bounds.check (fun a b => decide (a ≤ b)) (fun a b => decide (a < b)) n

def falseWords : List String := ["0", "off", "f", "false", "n", "no"]

def trueWords : List String := ["1", "on", "t", "true", "y", "yes"]

def bool? : Document → Check Bool
  | .bool b => .ok b
  | .int n => if n = 0 then .ok false else if n = 1 then .ok true else Check.fail .unreadTruth
  | .float x => if x == 0.0 then .ok false else if x == 1.0 then .ok true else Check.fail .notTruth
  | .text s =>
    let word := String.ofList (s.toList.map Char.toLower)
    if falseWords.contains word then .ok false
    else if trueWords.contains word then .ok true
    else Check.fail .unreadTruth
  | _ => Check.fail .notTruth

def list? {β : Type} (read : Document → Check β) : Document → Check (List β)
  | .list items => Check.indexed read 0 items
  | _ => Check.fail .notList

/-- The part of a row at an index. -/
def part {β : Type} (items : List Document) (k : Nat) (read : Document → Check β) : Check β :=
  Check.under (toString k) (match items[k]? with
    | some d => read d
    | none => Check.fail .missing)

def shape? : Document → Check (Shape Float)
  | .shape s => .ok s
  | _ => Check.fail .notBuilt

def sampler? : Document → Check (Sampler Float)
  | .sampler s => .ok s
  | _ => Check.fail .notBuilt

def brush? : Document → Check (Brush Float)
  | .brush b => .ok b
  | _ => Check.fail .notBuilt

end Document
end TileWorld
