/-! Lines of a text. A line feed ends a line, together with one carriage return
right before it; what follows the last line feed is a line only if it is not
empty, and keeps all its carriage returns. -/

namespace BuildReuse.Text

def dropReturn (line : List Char) : List Char :=
  if line.getLast? = some '\r' then line.dropLast else line

def linesOfPieces : List (List Char) → List (List Char)
  | [] => []
  | [last] => if last.isEmpty then [] else [last]
  | piece :: next :: rest => dropReturn piece :: linesOfPieces (next :: rest)

def lines (text : List Char) : List (List Char) :=
  linesOfPieces (text.splitOnP (· == '\n'))

def joinLines (ls : List (List Char)) : List Char := ['\n'].intercalate ls

end BuildReuse.Text
