import BuildReuse.Host.Script

/-! The arithmetic of scripts: whole numbers and variables under the four
operations, remainder and change of sign. A division by zero gives zero, and text
that is no expression counts as zero. -/

namespace BuildReuse.Host.Arithmetic

inductive Level where
  | sum | product | factor
  deriving DecidableEq, Repr

def skip (text : List Char) : List Char := text.dropWhile fun c => c == ' ' || c == '\n' || c == '\t'

def digitsValue (digits : List Char) : Int := digits.foldl (fun n d => n * 10 + (d.toNat - '0'.toNat)) 0

def read (value : String → Int) : Nat → Level → List Char → Int × List Char
  | 0, _, text => (0, text)
  | bound + 1, .sum, text =>
    let (a, rest) := read value bound .product text
    more bound .sum a rest
  | bound + 1, .product, text =>
    let (a, rest) := read value bound .factor text
    more bound .product a rest
  | bound + 1, .factor, text =>
    match skip text with
    | '-' :: rest => let (a, r) := read value bound .factor rest; (-a, r)
    | '(' :: rest => let (a, r) := read value bound .sum rest; (a, (skip r).drop 1)
    | '$' :: rest => named rest
    | c :: rest =>
      if c.isDigit then
        let (digits, r) := (c :: rest).span Char.isDigit
        (digitsValue digits, r)
      else named (c :: rest)
    | [] => (0, [])
where
  named (text : List Char) : Int × List Char :=
    let (name, rest) := text.span Token.isNameChar
    (value (String.ofList name), if name.isEmpty then rest.drop 1 else rest)
  more : Nat → Level → Int → List Char → Int × List Char
    | 0, _, a, text => (a, text)
    | bound + 1, level, a, text =>
      match level, skip text with
      | .sum, '+' :: rest =>
        let (b, r) := read value bound .product rest
        more bound level (a + b) r
      | .sum, '-' :: rest =>
        let (b, r) := read value bound .product rest
        more bound level (a - b) r
      | .product, '*' :: rest =>
        let (b, r) := read value bound .factor rest
        more bound level (a * b) r
      | .product, '/' :: rest =>
        let (b, r) := read value bound .factor rest
        more bound level (a.tdiv b) r
      | .product, '%' :: rest =>
        let (b, r) := read value bound .factor rest
        more bound level (a.tmod b) r
      | _, rest => (a, rest)

def evaluate (value : String → Int) (text : List Char) : Int :=
  (read value (4 * text.length + 4) .sum text).1

end BuildReuse.Host.Arithmetic
