/-! Documents of the interchange format JSON and their two written forms: one
without any space, and one with a line for each item, indented by two spaces for
each level. Members of an object keep their order. -/

namespace BuildReuse

inductive Json where
  | null
  | bool (value : Bool)
  | number (value : Nat)
  | text (value : String)
  | list (items : List Json)
  | object (members : List (String × Json))
  deriving Repr

namespace Json

def lowerHex (n : Nat) : Char := Nat.digitChar n

def escape (c : Char) : List Char :=
  match c with
  | '"' => ['\\', '"']
  | '\\' => ['\\', '\\']
  | '\x08' => ['\\', 'b']
  | '\x0c' => ['\\', 'f']
  | '\n' => ['\\', 'n']
  | '\r' => ['\\', 'r']
  | '\t' => ['\\', 't']
  | c =>
    if c.toNat < 0x20 then
      ['\\', 'u', '0', '0', lowerHex (c.toNat / 16), lowerHex (c.toNat % 16)]
    else [c]

def quoted (text : String) : List Char := '"' :: text.toList.flatMap escape ++ ['"']

inductive Layout where
  | compact
  | lines
  deriving DecidableEq, Repr

def Layout.before : Layout → Nat → List Char
  | compact, _ => []
  | lines, depth => '\n' :: List.replicate (2 * depth) ' '

def Layout.colon : Layout → List Char
  | compact => [':']
  | lines => [':', ' ']

mutual

def print (layout : Layout) (depth : Nat) : Json → List Char
  | .null => ['n', 'u', 'l', 'l']
  | .bool true => ['t', 'r', 'u', 'e']
  | .bool false => ['f', 'a', 'l', 's', 'e']
  | .number n => Nat.toDigits 10 n
  | .text s => quoted s
  | .list [] => ['[', ']']
  | .list (item :: items) =>
    '[' :: layout.before (depth + 1) ++ print layout (depth + 1) item ++
      printItems layout (depth + 1) items ++ layout.before depth ++ [']']
  | .object [] => ['\x7b', '\x7d']
  | .object ((name, value) :: members) =>
    '\x7b' :: layout.before (depth + 1) ++ quoted name ++ layout.colon ++
      print layout (depth + 1) value ++ printMembers layout (depth + 1) members ++
      layout.before depth ++ ['\x7d']

def printItems (layout : Layout) (depth : Nat) : List Json → List Char
  | [] => []
  | item :: items =>
    ',' :: layout.before depth ++ print layout depth item ++ printItems layout depth items

def printMembers (layout : Layout) (depth : Nat) : List (String × Json) → List Char
  | [] => []
  | (name, value) :: members =>
    ',' :: layout.before depth ++ quoted name ++ layout.colon ++ print layout depth value ++
      printMembers layout depth members

end

def render (layout : Layout) (j : Json) : String := String.ofList (j.print layout 0)

def ofTexts (texts : List String) : Json := .list (texts.map .text)

def ofOption {α : Type} (f : α → Json) : Option α → Json
  | none => .null
  | some a => f a

end Json
end BuildReuse
