import TileWorld.Text.Quoted

/-! Data written as JSON on one line. -/
namespace TileWorld.JsonText

/-- The quote, the backslash and control characters are escaped; all others stand as they are. -/
def escape (c : Char) : List Char :=
  if c = Quoted.doubleQuote ∨ c = Quoted.backslash then [Quoted.backslash, c]
  else if c.toNat < 32 then Quoted.backslash :: 'u' :: Quoted.hex 4 c.toNat
  else [c]

def string (s : String) : String :=
  String.ofList (Quoted.doubleQuote :: s.toList.flatMap escape ++ [Quoted.doubleQuote])

def integer (n : Int) : String := toString n

/-- A list of written items. -/
def list (items : List String) : String := "[" ++ ",".intercalate items ++ "]"

/-- Names with written values. -/
def record (fields : List (String × String)) : String :=
  "\x7b" ++ ",".intercalate (fields.map fun f => string f.1 ++ ":" ++ f.2) ++ "\x7d"

end TileWorld.JsonText
