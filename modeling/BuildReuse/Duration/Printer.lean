import BuildReuse.Duration.Basic

/-! The written form of a span of time: its years, months, days, hours, minutes,
seconds, milli-, micro- and nanoseconds, those that are not zero, each with its
unit. A year has 365.25 days, a month is the twelfth part of it in seconds, and
only the three calendar units have a plural. -/

namespace BuildReuse.Duration

def yearSeconds : Nat := 31557600
def monthSeconds : Nat := 2630016
def daySeconds : Nat := 86400

def item (n : Nat) (unit : List Char) : List (List Char) :=
  if n = 0 then [] else [Nat.toDigits 10 n ++ unit]

def itemPlural (n : Nat) (unit : List Char) : List (List Char) :=
  item n (if n > 1 then unit ++ ['s'] else unit)

def items (d : Duration) : List (List Char) :=
  let years := d.seconds / yearSeconds
  let inYear := d.seconds % yearSeconds
  let months := inYear / monthSeconds
  let inMonth := inYear % monthSeconds
  let days := inMonth / daySeconds
  let inDay := inMonth % daySeconds
  itemPlural years "year".toList ++ itemPlural months "month".toList ++
  itemPlural days "day".toList ++ item (inDay / 3600) ['h'] ++
  item (inDay % 3600 / 60) ['m'] ++ item (inDay % 60) ['s'] ++
  item (d.nanos / 1000000) ['m', 's'] ++ item (d.nanos / 1000 % 1000) ['u', 's'] ++
  item (d.nanos % 1000) ['n', 's']

def print (d : Duration) : List Char :=
  if d.items.isEmpty then ['0', 's'] else [' '].intercalate d.items

def text (d : Duration) : String := String.ofList d.print

/-- The form shown to people: whole milliseconds below a second, else cut to
hundredths of a second. The count of milliseconds is kept modulo 2^64. -/
def brief (d : Duration) : List Char :=
  if d.seconds = 0 then Nat.toDigits 10 (d.nanos / 1000000) ++ ['m', 's']
  else (ofMillis (d.totalMillis % 0x10000000000000000 / 10 * 10)).print

end BuildReuse.Duration
