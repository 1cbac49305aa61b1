import TileWorld.CommandLine.Config

/-! Command line arguments. Options may be shortened as long as one option alone begins that way,
and take their value after an equals sign or from the next argument. -/
namespace TileWorld.CommandLine

inductive Switch where
  | help
  | width
  | height
  | seed
  | outputDir
  | noTerrain
  | logLevel
  | logFormat
deriving DecidableEq, Repr

namespace Switch

def spellings : Switch → List String
  | help => ["-h", "--help"]
  | width => ["--width"]
  | height => ["--height"]
  | seed => ["--seed"]
  | outputDir => ["--output-dir"]
  | noTerrain => ["--no-terrain"]
  | logLevel => ["--log-level"]
  | logFormat => ["--log-format"]

def all : List Switch :=
  [help, width, height, seed, outputDir, noTerrain, logLevel, logFormat]

/-- Every spelling, in order, with its switch. -/
def table : List (String × Switch) := all.flatMap fun s => s.spellings.map (·, s)

def find? (spelling : String) : Option Switch :=
  (table.find? (·.1 == spelling)).map (·.2)

def takesValue : Switch → Bool
  | help | noTerrain => false
  | _ => true

def title (s : Switch) : String := "/".intercalate s.spellings

end Switch

/-- Why arguments are not accepted. -/
inductive Refusal where
  /-- Help was asked for. -/
  | help
  | ambiguous (given : String) (spellings : List String)
  | missingValue (s : Switch)
  | needlessValue (s : Switch) (value : String)
  | notInteger (s : Switch) (value : String)
  | notChoice (s : Switch) (value : String) (choices : List String)
  | unrecognized (given : List String)
deriving DecidableEq, Repr

namespace Refusal

def about (s : Switch) (problem : String) : String := "argument " ++ s.title ++ ": " ++ problem

/-- The report of a refusal; a call for help has none. -/
def message? : Refusal → Option String
  | help => none
  | ambiguous given spellings =>
    some ("ambiguous option: " ++ given ++ " could match " ++ ", ".intercalate spellings)
  | missingValue s => some (about s "expected one argument")
  | needlessValue s value => some (about s ("ignored explicit argument " ++ Quoted.text value))
  | notInteger s value => some (about s ("invalid int value: " ++ Quoted.text value))
  | notChoice s value choices =>
    some (about s ("invalid choice: " ++ Quoted.text value ++ " (choose from " ++
      ", ".intercalate (choices.map Quoted.text) ++ ")"))
  | unrecognized given => some ("unrecognized arguments: " ++ " ".intercalate given)

end Refusal

/-- A value that stands in the same argument as its switch. -/
inductive Attached where
  | nothing
  /-- After an equals sign. -/
  | equals (value : List Char)
  /-- Straight after a short switch. -/
  | tail (value : List Char)
deriving DecidableEq, Repr

/-- What an argument is. -/
inductive Word where
  | value (s : String)
  | switch (s : Switch) (attached : Attached)
  | unknown (s : String)
deriving DecidableEq, Repr

/-- Text up to the first equals sign, and what follows that sign. -/
def splitEquals (s : List Char) : List Char × Attached :=
  match s.dropWhile (· ≠ '=') with
  | [] => (s, .nothing)
  | _ :: rest => (s.takeWhile (· ≠ '='), .equals rest)

/-- Whether text looks like a negative number, with or without a fraction. A line end may follow. -/
def isNegativeNumber (s : List Char) : Bool :=
  let s := if s.getLast? = some '\n' then s.dropLast else s
  let isDigit (c : Char) : Bool := (Glyph.digit? c).isSome
  match s with
  | '-' :: body =>
    let fraction := (body.dropWhile isDigit).drop 1
    (!body.isEmpty && body.all isDigit) ||
      ((body.dropWhile isDigit).head? == some '.' && !fraction.isEmpty && fraction.all isDigit)
  | _ => false

/-- The switches that an argument may stand for by its first letters, with their spellings. -/
def candidates (s : List Char) : List (String × Word) :=
  match s with
  | '-' :: '-' :: _ =>
    let (name, attached) := splitEquals s
    (Switch.table.filter fun (spelling, _) => name.isPrefixOf spelling.toList).map
      fun (spelling, w) => (spelling, .switch w attached)
  | '-' :: c :: rest =>
    (Switch.table.filter fun (spelling, _) => spelling.toList = ['-', c]).map
      fun (spelling, w) => (spelling, .switch w (.tail rest))
  | _ => []

/-- What an argument that stands before any bare double dash is. -/
def Word.ofText? (s : String) : Except Refusal Word :=
  let cs := s.toList
  let (name, attached) := splitEquals cs
  if cs.head? ≠ some '-' then .ok (.value s)
  else if let some w := Switch.find? s then .ok (.switch w .nothing)
  else if cs.length = 1 then .ok (.value s)
  else if let (some w, .equals _) := (Switch.find? (String.ofList name), attached) then
    .ok (.switch w attached)
  else match candidates cs with
    | [(_, word)] => .ok word
    | [] => .ok (if isNegativeNumber cs || cs.contains ' ' then .value s else .unknown s)
    | several => .error (.ambiguous s (several.map Prod.fst))

/-- All arguments. After a bare double dash, which is nobody's value, they are values. -/
def words? : List String → Except Refusal (List Word)
  | [] => .ok []
  | "--" :: rest => .ok (.unknown "--" :: rest.map .value)
  | s :: rest => do
    let word ← Word.ofText? s
    let others ← words? rest
    pure (word :: others)

/-- What the arguments ask for. -/
structure Arguments where
  width : Int
  height : Int
  seed : Int
  outputDir : String
  noTerrain : Bool
  logLevel : String
  logFormat : String
deriving DecidableEq, Repr

namespace Arguments

def ofConfig (c : Config) : Arguments :=
  ⟨c.defaultWorld.width, c.defaultWorld.height, c.defaultWorld.seed, c.outputDir, false, c.logLevel,
    c.logFormat⟩

def logFormats : List String := ["json", "console"]

def integer? (s : Switch) (value : String) : Except Refusal Int :=
  match Numeral.integerOfAnyScript? value with
  | some n => .ok n
  | none => .error (.notInteger s value)

/-- Give a switch its value. -/
def set? (a : Arguments) (s : Switch) (value : String) : Except Refusal Arguments :=
  match s with
  | .width => do pure { a with width := ← integer? s value }
  | .height => do pure { a with height := ← integer? s value }
  | .seed => do pure { a with seed := ← integer? s value }
  | .outputDir => .ok { a with outputDir := value }
  | .logLevel => .ok { a with logLevel := value }
  | .logFormat =>
    if logFormats.contains value then .ok { a with logFormat := value }
    else .error (.notChoice s value logFormats)
  | .help | .noTerrain => .ok a

/-- Turn a switch on. -/
def turnOn? (a : Arguments) : Switch → Except Refusal Arguments
  | .help => .error .help
  | .noTerrain => .ok { a with noTerrain := true }
  | _ => .ok a

/-- The refusal of what follows a short switch that takes no value: more short switches may, but no
dash and no value. -/
def afterShort (s : Switch) : List Char → Refusal
  | '-' :: rest => .needlessValue s (String.ofList ('-' :: rest))
  | 'h' :: '=' :: rest => .needlessValue s (String.ofList rest)
  | 'h' :: rest => afterShort s rest
  | _ => .help

/-- Go through the arguments in order. Also yields those that nothing takes. -/
def consume? : List Word → Arguments → Except Refusal (Arguments × List String)
  | [], a => .ok (a, [])
  | .value s :: rest, a | .unknown s :: rest, a => do
    let (a, extra) ← consume? rest a
    pure (a, s :: extra)
  | .switch s (.equals value) :: rest, a =>
    if s.takesValue then do consume? rest (← a.set? s (String.ofList value))
    else .error (.needlessValue s (String.ofList value))
  | .switch s (.tail value) :: _, _ => .error (afterShort s value)
  | .switch s .nothing :: rest, a =>
    if s.takesValue then match rest with
      | .value v :: rest => do consume? rest (← a.set? s v)
      | _ => .error (.missingValue s)
    else do consume? rest (← a.turnOn? s)

/-- The arguments of a command line. -/
def read? (c : Config) (given : List String) : Except Refusal Arguments := do
  let (a, extra) ← consume? (← words? given) (ofConfig c)
  if extra.isEmpty then pure a else throw (.unrecognized extra)

end Arguments
end TileWorld.CommandLine
