import BuildReuse.Text.Blank

/-! The language of shell scripts: words with their quoting and expansions,
redirections, and commands made from words. A text is cut into tokens and the
tokens are grouped into commands. -/

namespace BuildReuse.Host

inductive Part where
  | literal (quoted : Bool) (text : List Char)
  | variable (quoted : Bool) (name : String)
  | command (quoted : Bool) (script : List Char)
  | arithmetic (quoted : Bool) (expression : List Char)
  deriving DecidableEq, Repr

abbrev Word := List Part

inductive Redirection where
  | input (source : Word)
  | document (text : Word)
  | output (stream : Nat) (append : Bool) (target : Word)
  | duplicate (stream : Nat) (of : Word)
  deriving DecidableEq, Repr

inductive Token where
  | word (line : Nat) (parts : Word)
  | redirection (r : Redirection)
  | sign (text : String)
  deriving DecidableEq, Repr

namespace Token

def isNameStart (c : Char) : Bool := c.isAlpha || c == '_'
def isNameChar (c : Char) : Bool := c.isAlphanum || c == '_'

def isMeta (c : Char) : Bool :=
  c == ' ' || c == '\t' || c == '\n' || c == ';' || c == '&' || c == '|' || c == '<' ||
  c == '>' || c == '(' || c == ')'

def balanced : Nat → List Char → List Char × List Char
  | _, [] => ([], [])
  | 0, ')' :: rest => ([], rest)
  | depth + 1, ')' :: rest => let (t, r) := balanced depth rest; (')' :: t, r)
  | depth, '(' :: rest => let (t, r) := balanced (depth + 1) rest; ('(' :: t, r)
  | depth, c :: rest => let (t, r) := balanced depth rest; (c :: t, r)

def isSpecial (c : Char) : Bool :=
  c.isDigit || c == '@' || c == '*' || c == '#' || c == '?' || c == '$'

def expansion (quoted : Bool) : List Char → Part × List Char
  | '(' :: '(' :: rest =>
    let (t, r) := balanced 1 rest
    (.arithmetic quoted t.dropLast, r)
  | '(' :: rest => let (t, r) := balanced 0 rest; (.command quoted t, r)
  | '\x7b' :: rest =>
    let (name, r) := rest.span (· != '\x7d')
    (.variable quoted (String.ofList name), r.drop 1)
  | c :: rest =>
    if isNameStart c then
      let (name, r) := (c :: rest).span isNameChar
      (.variable quoted (String.ofList name), r)
    else if isSpecial c then (.variable quoted (String.singleton c), rest)
    else (.literal quoted ['$'], c :: rest)
  | [] => (.literal quoted ['$'], [])

inductive Quoting where
  | bare
  | double
  | document
  deriving DecidableEq, Repr

def parts : Nat → Quoting → List Char → Word × List Char
  | 0, _, text => ([], text)
  | _, _, [] => ([], [])
  | bound + 1, mode, c :: rest =>
    let quoted := mode != .bare
    let after (p : Part) (rest : List Char) : Word × List Char :=
      let (ps, r) := parts bound mode rest
      (p :: ps, r)
    match c, mode with
    | '"', .double => ([], rest)
    | '"', .bare =>
      let (inner, r) := parts bound .double rest
      let (ps, r) := parts bound .bare r
      (.literal true [] :: inner ++ ps, r)
    | '\'', .bare =>
      let (t, r) := rest.span (· != '\'')
      after (.literal true t) (r.drop 1)
    | '$', _ => let (p, r) := expansion quoted rest; after p r
    | '`', _ =>
      let (t, r) := rest.span (· != '`')
      after (.command quoted t) (r.drop 1)
    | '\\', _ =>
      match rest with
      | '\n' :: rest => parts bound mode rest
      | d :: r =>
        if mode == .bare || d == '$' || d == '`' || d == '\\' || (d == '"' && mode == .double) then
          after (.literal true [d]) r
        else after (.literal true ['\\']) rest
      | [] => after (.literal true ['\\']) []
    | c, _ => if mode == .bare && isMeta c then ([], c :: rest) else after (.literal quoted [c]) rest

def plainText (w : Word) : List Char :=
  w.flatMap fun
    | .literal _ t => t
    | _ => []

def isQuoted (w : Word) : Bool :=
  w.any fun
    | .literal q _ => q
    | _ => false

def documentLines (stop : List Char) : List (List Char) → List (List Char) × List (List Char) × Nat
  | [] => ([], [], 0)
  | l :: rest =>
    if l == stop then ([], rest, 1)
    else
      let (body, r, n) := documentLines stop rest
      (l :: body, r, n + 1)

def document (stop : Word) (rest : List Char) : Redirection × List Char :=
  let (line, following) := rest.span (· != '\n')
  let (body, remaining, taken) :=
    documentLines (plainText stop) ((following.drop 1).splitOnP (· == '\n'))
  let text := body.flatMap (· ++ ['\n'])
  let word := if isQuoted stop then [.literal true text] else (parts (text.length + 1) .document text).1
  (.document word, line ++ List.replicate (taken + 1) '\n' ++ ['\n'].intercalate remaining)

def skipBlanks (text : List Char) : List Char := text.dropWhile fun c => c == ' ' || c == '\t'

def redirection? (stream : Option Nat) (text : List Char) : Option (Redirection × List Char) :=
  let target (rest : List Char) := parts (rest.length + 1) .bare (skipBlanks rest)
  match text with
  | '<' :: '<' :: rest => let (stop, r) := target rest; some (document stop r)
  | '<' :: rest => let (w, r) := target rest; some (.input w, r)
  | '>' :: '>' :: rest => let (w, r) := target rest; some (.output (stream.getD 1) true w, r)
  | '>' :: '&' :: rest => let (w, r) := target rest; some (.duplicate (stream.getD 1) w, r)
  | '>' :: '|' :: rest | '>' :: rest =>
    let (w, r) := target rest
    some (.output (stream.getD 1) false w, r)
  | _ => none

def next (line : Nat) (text : List Char) : Token × List Char :=
  let (digits, behind) := text.span Char.isDigit
  let stream := if digits.isEmpty then none else (String.ofList digits).toNat?
  match redirection? stream (if digits.isEmpty then text else behind) with
  | some (r, rest) => (.redirection r, rest)
  | none =>
    match text with
    | '&' :: '&' :: rest => (.sign "&&", rest)
    | '|' :: '|' :: rest => (.sign "||", rest)
    | c :: rest =>
      if isMeta c then (.sign (String.singleton c), rest)
      else
        let (ps, rest) := parts (text.length + 1) .bare text
        (.word line ps, rest)
    | [] => (.sign "\n", [])

def scan : Nat → Nat → List Char → List Token
  | 0, _, _ => []
  | bound + 1, line, text =>
    match skipBlanks text with
    | [] => []
    | '#' :: rest => scan bound line (rest.dropWhile (· != '\n'))
    | '\\' :: '\n' :: rest => scan bound (line + 1) rest
    | text =>
      let (token, rest) := next line text
      let lines := text.count '\n' - rest.count '\n'
      token :: scan bound (line + lines) rest

def bareWord? : Token → Option String
  | .word _ ps =>
    if ps.all (fun | .literal false _ => true | _ => false) then some (String.ofList (plainText ps))
    else none
  | _ => none

end Token

inductive Command where
  | simple (line : Nat) (assignments : List (String × Word)) (words : List Word)
      (redirections : List Redirection)
  | none
  | sequence (first second : Command)
  | both (first second : Command)
  | either (first second : Command)
  | pipe (first second : Command)
  | negation (command : Command)
  | branch (condition yes no : Command)
  | loop (wanted : Bool) (condition body : Command)
  | each (name : String) (words : List Word) (body : Command)
  | subshell (body : Command)

namespace Command

abbrev Parsed := Option (Command × List Token)

def skipNewlines : List Token → List Token
  | .sign "\n" :: rest => skipNewlines rest
  | ts => ts

def isSeparator : Token → Bool
  | .sign s => s == "\n" || s == ";" || s == "&"
  | _ => false

def assignment? (w : Word) : Option (String × Word) :=
  let lead := (w.takeWhile fun | .literal false _ => true | _ => false)
  let text := Token.plainText lead
  let (name, rest) := text.span Token.isNameChar
  match name, rest with
  | c :: _, '=' :: value =>
    if Token.isNameStart c then
      some (String.ofList name, .literal false value :: w.drop lead.length)
    else Option.none
  | _, _ => Option.none

def simpleOf (line : Nat) (assignments : List (String × Word)) (words : List Word)
    (redirections : List Redirection) : List Token → Command × List Token
  | .redirection r :: rest => simpleOf line assignments words (redirections ++ [r]) rest
  | .word l w :: rest =>
    match if words.isEmpty then assignment? w else Option.none with
    | some a => simpleOf line (assignments ++ [a]) words redirections rest
    | Option.none =>
      simpleOf (if words.isEmpty then l else line) assignments (words ++ [w]) redirections rest
  | ts => (.simple line assignments words redirections, ts)

def wordsOf : List Token → List Word × List Token
  | .word _ w :: rest => let (ws, r) := wordsOf rest; (w :: ws, r)
  | ts => ([], ts)

def closers : List String := ["then", "else", "elif", "fi", "do", "done", "\x7d"]

inductive Level where
  | list | chain | pipeline | command | branch
  deriving DecidableEq, Repr

def expect (word : String) (ts : List Token) : Option (List Token) :=
  match skipNewlines ts with
  | t :: rest => if t.bareWord? == some word then some rest else Option.none
  | [] => Option.none

def parse : Nat → Level → List Token → Parsed
  | 0, _, _ => Option.none
  | bound + 1, .list, ts =>
    match ts with
    | [] => some (.none, [])
    | t :: rest =>
      if isSeparator t then parse bound .list rest
      else if t == .sign ")" || (t.bareWord?.any closers.contains) then some (.none, ts)
      else do
        let (first, ts) ← parse bound .chain ts
        let (second, ts) ← parse bound .list ts
        some (.sequence first second, ts)
  | bound + 1, .chain, ts => do
    let (first, ts) ← parse bound .pipeline ts
    chainMore bound first ts
  | bound + 1, .pipeline, ts => do
    match ts with
    | t :: rest =>
      if t.bareWord? == some "!" then
        let (c, ts) ← parse bound .pipeline rest
        some (.negation c, ts)
      else
        let (first, ts) ← parse bound .command ts
        match ts with
        | .sign "|" :: rest =>
          let (second, ts) ← parse bound .pipeline (skipNewlines rest)
          some (.pipe first second, ts)
        | ts => some (first, ts)
    | [] => Option.none
  | bound + 1, .branch, ts => do
    let (condition, ts) ← parse bound .list ts
    let (yes, ts) ← parse bound .list (← expect "then" ts)
    match skipNewlines ts with
    | t :: rest =>
      match t.bareWord? with
      | some "fi" => some (.branch condition yes .none, rest)
      | some "else" =>
        let (no, ts) ← parse bound .list rest
        some (.branch condition yes no, ← expect "fi" ts)
      | some "elif" =>
        let (no, ts) ← parse bound .branch rest
        some (.branch condition yes no, ts)
      | _ => Option.none
    | [] => Option.none
  | bound + 1, .command, ts => do
    match ts with
    | .sign "(" :: rest =>
      let (body, ts) ← parse bound .list rest
      match ts with
      | .sign ")" :: rest => some (.subshell body, rest)
      | _ => Option.none
    | .sign _ :: _ | [] => Option.none
    | t :: rest =>
      match t.bareWord? with
      | some "if" => parse bound .branch rest
      | some "while" => loopOf bound true rest
      | some "until" => loopOf bound false rest
      | some "\x7b" =>
        let (body, ts) ← parse bound .list rest
        some (body, ← expect "\x7d" ts)
      | some "for" =>
        match rest with
        | name :: rest =>
          let (words, ts) := wordsOf (← expect "in" rest)
          let (body, ts) ← parse bound .list (← expect "do" (ts.dropWhile isSeparator))
          some (.each (name.bareWord?.getD "") words body, ← expect "done" ts)
        | [] => Option.none
      | _ => some (simpleOf 0 [] [] [] ts)
where
  chainMore : Nat → Command → List Token → Parsed
    | 0, first, ts => some (first, ts)
    | bound + 1, first, ts => do
      match ts with
      | .sign "&&" :: rest =>
        let (second, ts) ← parse bound .pipeline (skipNewlines rest)
        chainMore bound (.both first second) ts
      | .sign "||" :: rest =>
        let (second, ts) ← parse bound .pipeline (skipNewlines rest)
        chainMore bound (.either first second) ts
      | ts => some (first, ts)
  loopOf (bound : Nat) (wanted : Bool) (ts : List Token) : Parsed := do
    let (condition, ts) ← parse bound .list ts
    let (body, ts) ← parse bound .list (← expect "do" ts)
    some (.loop wanted condition body, ← expect "done" ts)

def ofText? (text : List Char) : Option Command :=
  let tokens := Token.scan (2 * text.length + 2) 1 text
  match parse (4 * tokens.length + 8) .list tokens with
  | some (c, []) => some c
  | _ => Option.none

end Command
end BuildReuse.Host
