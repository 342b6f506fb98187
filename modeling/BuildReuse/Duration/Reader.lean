import BuildReuse.Duration.Basic
import BuildReuse.Text.Blank

/-! Reading a span of time: numbers with units, summed. A number may have a
fraction, which must come out in whole nanoseconds. All amounts are held in 64
bits on the way. -/

namespace BuildReuse.Duration

inductive Fault where
  | empty
  | numberExpected (offset : Nat)
  | badCharacter (offset : Nat)
  | unitMissing (number : Nat)
  | unknownUnit (unit : String)
  | tooLarge
  deriving DecidableEq, Repr

def Fault.message : Fault → String
  | empty => "value was empty"
  | numberExpected offset => s!"expected number at {offset}"
  | badCharacter offset => s!"invalid character at {offset}"
  | unitMissing number => s!"time unit needed, for example {number}sec or {number}ms"
  | unknownUnit unit =>
    s!"unknown time unit \"{unit}\", supported units: ns, us/µs, ms, sec, min, hours, days, weeks, "
      ++ "months, years (and few variations)"
  | tooLarge =>
    "number is too large or cannot be represented without a lack of precision "
      ++ "(values below 1ns are not supported)"

inductive TimeUnit where
  | nanosecond | microsecond | millisecond | second | minute | hour | day | week | month | year
  deriving DecidableEq, Repr

def TimeUnit.names : List (TimeUnit × List String) :=
  [(.nanosecond, ["nanos", "nsec", "ns"]),
   (.microsecond, ["usec", "us", "µs"]),
   (.millisecond, ["millis", "msec", "ms"]),
   (.second, ["seconds", "second", "secs", "sec", "s"]),
   (.minute, ["minutes", "minute", "min", "mins", "m"]),
   (.hour, ["hours", "hour", "hr", "hrs", "h"]),
   (.day, ["days", "day", "d"]),
   (.week, ["weeks", "week", "wk", "wks", "w"]),
   (.month, ["months", "month", "M"]),
   (.year, ["years", "year", "yr", "yrs", "y"])]

def TimeUnit.ofName? (name : String) : Option TimeUnit :=
  (TimeUnit.names.find? fun entry => entry.2.contains name).map Prod.fst

inductive Scale where
  | seconds (each : Nat)
  | nanos (each : Nat)
  deriving DecidableEq, Repr

def TimeUnit.scale : TimeUnit → Scale
  | nanosecond => .nanos 1
  | microsecond => .nanos 1000
  | millisecond => .nanos 1000000
  | second => .seconds 1
  | minute => .seconds 60
  | hour => .seconds 3600
  | day => .seconds 86400
  | week => .seconds 604800
  | month => .seconds 2630016
  | year => .seconds 31557600

def TimeUnit.fractionScale? : TimeUnit → Option Scale
  | nanosecond => none
  | second => some (.nanos 1000000000)
  | minute => some (.nanos 60000000000)
  | unit => some unit.scale

def word (n : Nat) : Except Fault Nat := if n < 0x10000000000000000 then .ok n else .error .tooLarge

def addCount (total : Duration) (seconds nanos : Nat) : Except Fault Duration := do
  let nanos ← word (total.nanos + nanos)
  match ofParts? (total.seconds + seconds) nanos with
  | some d => .ok d
  | none => .error .tooLarge

def addScaled (total : Duration) (scale : Scale) (amount : Nat → Except Fault Nat) :
    Except Fault Duration := do
  match scale with
  | .seconds each => addCount total (← amount each) 0
  | .nanos each => addCount total 0 (← amount each)

def addSpan (total : Duration) (n : Nat) (fraction : Option (Nat × Nat)) (unit : List Char) :
    Except Fault Duration := do
  match TimeUnit.ofName? (String.ofList unit) with
  | none =>
    if unit.isEmpty then .error (.unitMissing n) else .error (.unknownUnit (String.ofList unit))
  | some unit =>
    let total ← addScaled total unit.scale fun each => word (n * each)
    match fraction with
    | none => .ok total
    | some (p, q) =>
      match unit.fractionScale? with
      | none => .error .tooLarge
      | some scale =>
        addScaled total scale fun each => do
          let whole ← word (p * each)
          if whole % q = 0 then .ok (whole / q) else .error .tooLarge

inductive Mode where
  | gap (since : Nat)
  | number (n : Nat)
  | fraction (n p q mark : Nat)
  | unit (n : Nat) (fraction : Option (Nat × Nat)) (name : List Char)
  deriving DecidableEq, Repr

def isLetter (c : Char) : Bool := c.isAlpha || c == '\u00B5'

def digitOf (c : Char) : Nat := c.toNat - 48

def step (total : Duration) (mode : Mode) (offset : Nat) (c : Char) :
    Except Fault (Duration × Mode) := do
  match mode with
  | .gap since =>
    if c.isDigit then .ok (total, .number (digitOf c))
    else if Text.isBlank c then .ok (total, .gap since)
    else .error (.numberExpected since)
  | .number n =>
    if c.isDigit then .ok (total, .number (← word (n * 10 + digitOf c)))
    else if Text.isBlank c then .ok (total, .number n)
    else if isLetter c then .ok (total, .unit n none [c])
    else if c == '.' then .ok (total, .fraction n 0 1 offset)
    else .error (.badCharacter offset)
  | .fraction n p q mark =>
    if c.isDigit then
      let q ← word (q * 10)
      .ok (total, .fraction n (← word (p * 10 + digitOf c)) q (offset + 1))
    else if Text.isBlank c then .ok (total, .fraction n p q (offset + c.utf8Size))
    else if isLetter c && q != 1 then .ok (total, .unit n (some (p, q)) [c])
    else .error (.badCharacter mark)
  | .unit n fraction name =>
    if c.isDigit then .ok (← addSpan total n fraction name, .number (digitOf c))
    else if Text.isBlank c then
      .ok (← addSpan total n fraction name, .gap (offset + c.utf8Size))
    else if isLetter c then .ok (total, .unit n fraction (name ++ [c]))
    else .error (.badCharacter offset)

def finish (total : Duration) : Mode → Except Fault Duration
  | .gap _ => .ok total
  | .number n => .error (.unitMissing n)
  | .fraction n _ q mark => .error (if q = 1 then .badCharacter mark else .unitMissing n)
  | .unit n fraction name => addSpan total n fraction name

def run (total : Duration) (mode : Mode) (offset : Nat) : List Char → Except Fault Duration
  | [] => finish total mode
  | c :: rest => do
    let (total, mode) ← step total mode offset c
    run total mode (offset + c.utf8Size) rest

def read (text : List Char) : Except Fault Duration :=
  if text = ['0'] then .ok zero
  else if Text.blank text then .error .empty
  else run zero (.gap 0) 0 text

end BuildReuse.Duration
