import BuildReuse.Text.Utf8

/-! Text as a shell holds it. A shell hands on whatever bytes it is given; a byte that is part of no
character is held as one of the last 256 code points, which do not count as characters here. -/

namespace BuildReuse.Host

def firstStray : Nat := 0x10FF00

def character? (bytes : Bytes) : Option Char :=
  match Utf8.decode? bytes with
  | some [c] => if c.toNat < firstStray then some c else none
  | _ => none

def holdNext (b : UInt8) (rest : Bytes) : Char × Bytes :=
  let whole := [1, 2, 3, 4].findSome? fun n =>
    (character? ((b :: rest).take n)).map fun c => (c, (b :: rest).drop n)
  whole.getD (Char.ofNat (firstStray + b.toNat), rest)

def holdWithin : Nat → Bytes → List Char
  | 0, _ => []
  | _, [] => []
  | bound + 1, b :: rest =>
    let (c, rest) := holdNext b rest
    c :: holdWithin bound rest

def held (bytes : Bytes) : List Char := holdWithin bytes.length bytes

def heldChar (c : Char) : Bytes :=
  if c.toNat < firstStray then Utf8.encode [c] else [UInt8.ofNat (c.toNat - firstStray)]

def heldBytes (text : List Char) : Bytes := text.flatMap heldChar

end BuildReuse.Host
