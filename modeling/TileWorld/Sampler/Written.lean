import TileWorld.Sampler.Basic

/-! Samplers as written in reports: the kind of node and its parts, by name. -/
namespace TileWorld

/-- One of a set of choices: the set, the choice in capitals and its own word. -/
def writtenChoice (set word : String) : String :=
  "<" ++ set ++ "." ++ word.toUpper ++ ": '" ++ word ++ "'>"

def Direction.written (d : Direction) : String := writtenChoice "Direction" d.name

def NoiseKind.written (k : NoiseKind) : String := writtenChoice "NoiseKind" k.name

variable {α : Type} [Scalar α]

def Span.written (s : Span α) : String :=
  "Span(start=" ++ Scalar.text s.start ++ ", end=" ++ Scalar.text s.stop ++ ")"

namespace Sampler

mutual

def written : Sampler α → String
  | across => "XSampler()"
  | down => "YSampler()"
  | unspecified => "Sampler()"
  | const v => "ConstSampler(value=" ++ Scalar.text v ++ ")"
  | layered layers => "LayeredSampler([" ++ ", ".intercalate (writtenLayers layers) ++ "])"
  | zoom range inner =>
    "ZoomSampler(range=" ++ range.written ++ ", sampler=" ++ inner.written ++ ")"
  | fade d far near =>
    "FadeSampler(direction=" ++ d.written ++ ", from_=" ++ far.written ++ ", to=" ++ near.written ++
      ")"
  | split d range inner outer =>
    "SplitSampler(direction=" ++ d.written ++ ", range=" ++ range.written ++ ", inner=" ++
      inner.written ++ ", outer=" ++ outer.written ++ ")"
  | graph d height less more =>
    "GraphSampler(direction=" ++ d.written ++ ", height=" ++ height.written ++ ", less=" ++
      less.written ++ ", more=" ++ more.written ++ ")"
  | noise x y offset kind =>
    "NoiseSampler(scale_x=" ++ Scalar.text x ++ ", scale_y=" ++ Scalar.text y ++ ", offset=" ++
      Scalar.text offset ++ ", kind=" ++ kind.written ++ ")"

def writtenLayers : List (α × Sampler α) → List String
  | [] => []
  | (weight, s) :: rest =>
    ("(" ++ Scalar.text weight ++ ", " ++ s.written ++ ")") :: writtenLayers rest

end

end Sampler
end TileWorld
