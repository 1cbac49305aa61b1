import TileWorld.Image.Palette

/-! Pictures as PNG files: eight bits for each of three components, in stored blocks that are not
compressed. -/
namespace TileWorld.Png

/-- Four bytes, highest first. -/
def word (n : UInt32) : ByteArray :=
  ⟨#[(n >>> 24).toUInt8, (n >>> 16).toUInt8, (n >>> 8).toUInt8, n.toUInt8]⟩

/-- Divide one bit out of a remainder. -/
def checkBit (c : UInt32) : UInt32 :=
  if c &&& 1 = 1 then (c >>> 1) ^^^ 0xedb88320 else c >>> 1

def checkByte (c : UInt32) (b : UInt8) : UInt32 :=
  (List.range 8).foldl (fun c _ => checkBit c) (c ^^^ b.toUInt32)

/-- The cyclic redundancy check of a chunk. -/
def check (bytes : ByteArray) : UInt32 := bytes.foldl checkByte 0xffffffff ^^^ 0xffffffff

/-- The sum of bytes and the sum of its values on the way, modulo the largest prime of 16 bits. -/
def sums (bytes : ByteArray) : UInt32 :=
  let (a, b) := bytes.foldl (fun (a, b) v =>
    let a := (a + v.toNat) % 65521
    (a, (b + a) % 65521)) (1, 0)
  (b * 65536 + a).toUInt32

/-- Length, name, data and check. -/
def chunk (name : String) (data : ByteArray) : ByteArray :=
  let body := name.toUTF8 ++ data
  word data.size.toUInt32 ++ body ++ word (check body)

/-- Largest stored block. -/
def blockSize : Nat := 65535

/-- One block: whether it is the last, its length and the length's complement, low byte first. -/
def block (last : Bool) (data : ByteArray) : ByteArray :=
  let n := data.size.toUInt16
  let m := ~~~ n
  ⟨#[if last then 1 else 0, n.toUInt8, (n >>> 8).toUInt8, m.toUInt8, (m >>> 8).toUInt8]⟩ ++ data

/-- Data in `count` blocks, from a position on. -/
def blocks (data : ByteArray) : (count : Nat) → Nat → ByteArray
  | 0, _ => ByteArray.empty
  | n + 1, start =>
    block (n == 0) (data.extract start (start + blockSize)) ++ blocks data n (start + blockSize)

/-- Data as a stream that is only stored. -/
def stored (data : ByteArray) : ByteArray :=
  ⟨#[0x78, 0x01]⟩ ++ blocks data (data.size / blockSize + 1) 0 ++ word (sums data)

/-- Rows, each after a byte that says it is not filtered. -/
def scanlines (rows : List (List Colour)) : ByteArray :=
  rows.foldl (fun out row =>
    row.foldl (fun out c => ((out.push c.red).push c.green).push c.blue) (out.push 0))
    ByteArray.empty

def signature : ByteArray := ⟨#[0x89, 0x50, 0x4e, 0x47, 0x0d, 0x0a, 0x1a, 0x0a]⟩

/-- A picture as a file. -/
def encode (rows : List (List Colour)) : ByteArray :=
  let width := (rows.head?.getD []).length
  let header := word width.toUInt32 ++ word rows.length.toUInt32 ++ ⟨#[8, 2, 0, 0, 0]⟩
  signature ++ chunk "IHDR" header ++ chunk "IDAT" (stored (scanlines rows)) ++
    chunk "IEND" ByteArray.empty

end TileWorld.Png
