import BuildReuse.Text.Utf8

/-! Reading JSON in one pass, by the type that is wanted. A failure is told
apart by its cause: the text ended too early, or a character stands where it may
not. The first character that decides wins; a value of another type than the
wanted one is read as far as its own grammar goes before it is refused. -/

namespace BuildReuse.Json

inductive Failure where
  | truncated
  | malformed
  deriving DecidableEq, Repr

def Failure.message : Failure → String
  | truncated => "the JSON text ends too early"
  | malformed => "the JSON text is malformed"

abbrev Reader (α : Type) := List Char → Except Failure (α × List Char)

def isSpace (c : Char) : Bool := c == ' ' || c == '\t' || c == '\n' || c == '\r'

def skipSpace (input : List Char) : List Char := input.dropWhile isSpace

def readWord : List Char → List Char → Except Failure (List Char)
  | [], input => .ok input
  | _ :: _, [] => .error .truncated
  | c :: word, d :: input => if c = d then readWord word input else .error .malformed

def hexDigit? (c : Char) : Option Nat :=
  if '0' ≤ c && c ≤ '9' then some (c.toNat - 48)
  else if 'a' ≤ c && c ≤ 'f' then some (c.toNat - 87)
  else if 'A' ≤ c && c ≤ 'F' then some (c.toNat - 55)
  else none

def hexFour? (a b c d : Char) : Option Nat := do
  some (((← hexDigit? a) * 16 + (← hexDigit? b)) * 256 + (← hexDigit? c) * 16 + (← hexDigit? d))

def shortOfFour (input : List Char) : Bool := Utf8.size (input.take 4) < 4

def isLeading (n : Nat) : Bool := 0xD800 ≤ n && n ≤ 0xDBFF
def isTrailing (n : Nat) : Bool := 0xDC00 ≤ n && n ≤ 0xDFFF

def paired (leading trailing : Nat) : Char :=
  Char.ofNat ((leading - 0xD800) * 0x400 + (trailing - 0xDC00) + 0x10000)

def shortEscape? : Char → Option Char
  | '"' => some '"'
  | '\\' => some '\\'
  | '/' => some '/'
  | 'b' => some '\x08'
  | 'f' => some '\x0c'
  | 'n' => some '\n'
  | 'r' => some '\r'
  | 't' => some '\t'
  | _ => none

def prepend (c : Char) (read : Except Failure (List Char × List Char)) :
    Except Failure (List Char × List Char) :=
  read.map fun (cs, rest) => (c :: cs, rest)

def readQuoted : List Char → Except Failure (List Char × List Char)
  | [] => .error .truncated
  | '"' :: rest => .ok ([], rest)
  | ['\\'] => .error .truncated
  | '\\' :: 'u' :: a :: b :: c :: d :: rest =>
    match hexFour? a b c d with
    | none => .error .malformed
    | some n =>
      if isTrailing n then .error .malformed
      else if isLeading n then
        match rest with
        | [] | ['\\'] => .error .truncated
        | '\\' :: 'u' :: e :: f :: g :: h :: rest =>
          match hexFour? e f g h with
          | none => .error .malformed
          | some m => if isTrailing m then prepend (paired n m) (readQuoted rest) else .error .malformed
        | '\\' :: 'u' :: rest => .error (if shortOfFour rest then .truncated else .malformed)
        | _ => .error .malformed
      else prepend (Char.ofNat n) (readQuoted rest)
  | '\\' :: 'u' :: rest => .error (if shortOfFour rest then .truncated else .malformed)
  | '\\' :: c :: rest =>
    match shortEscape? c with
    | some e => prepend e (readQuoted rest)
    | none => .error .malformed
  | c :: rest => if c.toNat < 0x20 then .error .malformed else prepend c (readQuoted rest)

def skipQuoted : List Char → Except Failure (List Char)
  | [] => .error .truncated
  | '"' :: rest => .ok rest
  | ['\\'] => .error .truncated
  | '\\' :: 'u' :: a :: b :: c :: d :: rest =>
    if (hexFour? a b c d).isSome then skipQuoted rest else .error .malformed
  | '\\' :: 'u' :: rest => .error (if shortOfFour rest then .truncated else .malformed)
  | '\\' :: c :: rest => if (shortEscape? c).isSome then skipQuoted rest else .error .malformed
  | c :: rest => if c.toNat < 0x20 then .error .malformed else skipQuoted rest

inductive Numeral where
  | natural (n : Nat)
  | other
  deriving DecidableEq, Repr

def digits (input : List Char) : List Char × List Char := input.span Char.isDigit

def valueOf (digits : List Char) : Nat := digits.foldl (fun n c => n * 10 + (c.toNat - 48)) 0

def readExponent (input : List Char) : Except Failure (Numeral × List Char) :=
  let unsigned := match input with
    | '+' :: rest | '-' :: rest => rest
    | _ => input
  match digits unsigned with
  | ([], []) => .error .truncated
  | ([], _) => .error .malformed
  | (_, rest) => .ok (.other, rest)

def readFraction (n : Nat) : List Char → Except Failure (Numeral × List Char)
  | '.' :: rest =>
    match digits rest with
    | ([], []) => .error .truncated
    | ([], _) => .error .malformed
    | (_, 'e' :: rest) | (_, 'E' :: rest) => readExponent rest
    | (_, rest) => .ok (.other, rest)
  | 'e' :: rest | 'E' :: rest => readExponent rest
  | rest => .ok (.natural n, rest)

def readUnsigned (input : List Char) : Except Failure (Numeral × List Char) :=
  match digits input with
  | ([], []) => .error .truncated
  | ([], _) => .error .malformed
  | ('0' :: _ :: _, _) => .error .malformed
  | (ds, rest) => readFraction (valueOf ds) rest

def readNumeral : List Char → Except Failure (Numeral × List Char)
  | '-' :: rest => (readUnsigned rest).map fun (_, rest) => (.other, rest)
  | input => readUnsigned input

def refusal : List Char → Failure
  | [] => .truncated
  | 'n' :: rest => ofRead (readWord ['u', 'l', 'l'] rest)
  | 't' :: rest => ofRead (readWord ['r', 'u', 'e'] rest)
  | 'f' :: rest => ofRead (readWord ['a', 'l', 's', 'e'] rest)
  | '"' :: rest => ofRead (readQuoted rest)
  | c :: rest =>
    if c = '-' || c.isDigit then ofRead (readNumeral (c :: rest)) else .malformed
where
  ofRead {α : Type} : Except Failure α → Failure
    | .error e => e
    | .ok _ => .malformed

def readText : Reader String := fun text =>
  match skipSpace text with
  | '"' :: rest => (readQuoted rest).map fun (cs, rest) => (String.ofList cs, rest)
  | input => .error (refusal input)

def readBool : Reader Bool := fun input =>
  match skipSpace input with
  | 't' :: rest => (readWord ['r', 'u', 'e'] rest).map fun rest => (true, rest)
  | 'f' :: rest => (readWord ['a', 'l', 's', 'e'] rest).map fun rest => (false, rest)
  | input => .error (refusal input)

def readNat (bound : Nat) : Reader Nat := fun input =>
  match skipSpace input with
  | [] => .error .truncated
  | c :: rest =>
    if c = '-' || c.isDigit then do
      match ← readNumeral (c :: rest) with
      | (.natural n, rest) => if n < bound then .ok (n, rest) else .error .malformed
      | _ => .error .malformed
    else .error (refusal (c :: rest))

def readMore {α : Type} (item : Reader α) : Nat → List Char → Except Failure (List α × List Char)
  | 0, _ => .error .malformed
  | bound + 1, input =>
    match skipSpace input with
    | [] => .error .truncated
    | ']' :: rest => .ok ([], rest)
    | ',' :: rest =>
      match skipSpace rest with
      | [] => .error .truncated
      | ']' :: _ => .error .malformed
      | input => do
        let (x, rest) ← item input
        let (xs, rest) ← readMore item bound rest
        .ok (x :: xs, rest)
    | _ => .error .malformed

def readList {α : Type} (item : Reader α) : Reader (List α) := fun input =>
  match skipSpace input with
  | '[' :: rest =>
    match skipSpace rest with
    | [] => .error .truncated
    | ']' :: rest => .ok ([], rest)
    | input => do
      let (x, rest) ← item input
      let (xs, rest) ← readMore item (rest.length + 1) rest
      .ok (x :: xs, rest)
  | input => .error (refusal input)

inductive Frame where
  | list
  | object
  deriving DecidableEq, Repr

def Frame.closer : Frame → Char
  | list => ']'
  | object => '\x7d'

def readColon (input : List Char) : Except Failure (List Char) :=
  match skipSpace input with
  | [] => .error .truncated
  | ':' :: rest => .ok rest
  | _ => .error .malformed

def skipName : Frame → List Char → Except Failure (List Char)
  | .list, input => .ok input
  | .object, input =>
    match skipSpace input with
    | [] => .error .truncated
    | '"' :: rest => do readColon (← skipQuoted rest)
    | _ => .error .malformed

def skipScalar : List Char → Except Failure (List Char)
  | [] => .error .truncated
  | 'n' :: rest => readWord ['u', 'l', 'l'] rest
  | 't' :: rest => readWord ['r', 'u', 'e'] rest
  | 'f' :: rest => readWord ['a', 'l', 's', 'e'] rest
  | '"' :: rest => skipQuoted rest
  | c :: rest =>
    if c = '-' || c.isDigit then
      match readNumeral (c :: rest) with
      | .ok (_, rest) => .ok rest
      | .error _ => .error .malformed
    else .error .malformed

def enterFrame (onward : Bool → List Frame → List Char → Except Failure (List Char)) (frame : Frame)
    (frames : List Frame) (rest : List Char) : Except Failure (List Char) :=
  match skipSpace rest with
  | [] => .error .truncated
  | c :: behind =>
    if c = frame.closer then onward true frames behind
    else do onward false (frame :: frames) (← skipName frame rest)

/-- Passes over a value, or over what follows one if `behind`, inside the given
frames, the innermost first. Each step takes a character, so the length of the
text bounds their number. -/
def skipWithin : Nat → Bool → List Frame → List Char → Except Failure (List Char)
  | 0, _, _, _ => .error .malformed
  | _ + 1, true, [], input => .ok input
  | bound + 1, true, frame :: frames, input =>
    match skipSpace input with
    | [] => .error .truncated
    | c :: rest =>
      if c = ',' then do
        skipWithin bound false (frame :: frames) (← skipName frame rest)
      else if c = frame.closer then skipWithin bound true frames rest
      else .error .malformed
  | bound + 1, false, frames, input =>
    match skipSpace input with
    | '[' :: rest => enterFrame (skipWithin bound) .list frames rest
    | '\x7b' :: rest => enterFrame (skipWithin bound) .object frames rest
    | input => do skipWithin bound true frames (← skipScalar input)

def skipValue (input : List Char) : Except Failure (List Char) :=
  skipWithin (2 * input.length + 2) false [] input

def readDocument {α : Type} (reader : Reader α) (input : List Char) : Except Failure α := do
  let (value, rest) ← reader input
  if (skipSpace rest).isEmpty then .ok value else .error .malformed

end BuildReuse.Json
