/-! UTF-8. Bytes are read one at a time by a small machine that knows which
bytes may come next; its output has one entry for each character and one empty
entry for each longest run of bytes that starts a character and fails to end it.
Strict decoding refuses such a run, lenient decoding puts U+FFFD in its place. -/

namespace BuildReuse

abbrev Bytes := List UInt8

namespace Utf8

inductive State where
  | ready
  | within (bits missing : Nat) (least greatest : UInt8)
  deriving DecidableEq, Repr

/-- The effect of a byte that begins a character. Overlong forms, surrogates and
values past U+10FFFF are kept out by narrowing the second byte. -/
def start (b : UInt8) : List (Option Char) × State :=
  if b < 0x80 then ([some (Char.ofNat b.toNat)], .ready)
  else if b < 0xC2 then ([none], .ready)
  else if b < 0xE0 then ([], .within (b.toNat - 0xC0) 1 0x80 0xBF)
  else if b < 0xF0 then
    ([], .within (b.toNat - 0xE0) 2 (if b = 0xE0 then 0xA0 else 0x80) (if b = 0xED then 0x9F else 0xBF))
  else if b < 0xF5 then
    ([], .within (b.toNat - 0xF0) 3 (if b = 0xF0 then 0x90 else 0x80) (if b = 0xF4 then 0x8F else 0xBF))
  else ([none], .ready)

def step : State → UInt8 → List (Option Char) × State
  | .ready, b => start b
  | .within bits missing least greatest, b =>
    if least ≤ b && b ≤ greatest then
      let bits := bits * 64 + (b.toNat - 0x80)
      if missing ≤ 1 then ([some (Char.ofNat bits)], .ready)
      else ([], .within bits (missing - 1) 0x80 0xBF)
    else
      let (out, state) := start b
      (none :: out, state)

def scan : State → Bytes → List (Option Char)
  | .ready, [] => []
  | .within .., [] => [none]
  | state, b :: rest =>
    let (out, state) := step state b
    out ++ scan state rest

def decode? (bytes : Bytes) : Option (List Char) := (scan .ready bytes).mapM id

def decodeLenient (bytes : Bytes) : List Char :=
  (scan .ready bytes).map fun c => c.getD '\uFFFD'

def encode (text : List Char) : Bytes := text.flatMap String.utf8EncodeChar

def size (text : List Char) : Nat := text.foldr (fun c n => c.utf8Size + n) 0

end Utf8

def bytesOf (text : String) : Bytes := Utf8.encode text.toList

def textOf? (bytes : Bytes) : Option String := (Utf8.decode? bytes).map String.ofList

end BuildReuse
