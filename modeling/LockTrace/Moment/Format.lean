import LockTrace.Moment
import LockTrace.Text.Numeral

/-!
# Formats of dates and times

A format is a text in which a percent sign and what follows it stand for a part of a date or
a time. A mark between the sign and the letter of a number says how the number is filled up
to its width. A percent sign with anything else behind it makes the text no format.
-/

namespace LockTrace

/-! ### Numbers -/

/-- A part of a date or a time that is a number. -/
inductive Moment.Field where
  | year
  | century
  | yearOfCentury
  | weekYear
  | weekYearOfCentury
  | quarter
  | month
  | day
  | weekFromSunday
  | weekFromMonday
  | weekOfYear
  | daysFromSunday
  | dayOfWeek
  | dayOfYear
  | hour
  | hour12
  | minute
  | second
  | nanosecond
  | timestamp
deriving DecidableEq, Repr

namespace Moment.Field

/-- The number at a moment. -/
def value (m : Moment) : Field → Nat
  | year => m.year
  | century => m.year / 100
  | yearOfCentury => m.year % 100
  | weekYear => m.weekYear
  | weekYearOfCentury => m.weekYear % 100
  | quarter => m.month / 3 + 1
  | month => m.month + 1
  | day => m.dayOfMonth
  | weekFromSunday => m.weeksStarted m.daysFromSunday
  | weekFromMonday => m.weeksStarted m.daysFromMonday
  | weekOfYear => m.weekOfYear
  | daysFromSunday => m.daysFromSunday
  | dayOfWeek => m.daysFromMonday + 1
  | dayOfYear => m.dayOfYear + 1
  | hour => m.hour
  | hour12 => m.hour12
  | minute => m.minute
  | second => m.second
  | nanosecond => m.nanoseconds
  | timestamp => m.seconds

/-- The least number of characters to which the number is filled up. -/
def width : Field → Nat
  | year => 4
  | weekYear => 4
  | dayOfYear => 3
  | nanosecond => 9
  | quarter => 1
  | daysFromSunday => 1
  | dayOfWeek => 1
  | timestamp => 9
  | _ => 2

/-- Whether the number is a year, which shows a plus sign when it has more than four digits. -/
def isYear : Field → Bool
  | year => true
  | weekYear => true
  | _ => false

end Moment.Field

/-- What a number is filled up with. -/
inductive Fill where
  | none
  | zeros
  | blanks
deriving DecidableEq, Repr

namespace Fill

/-- The mark for a filling. -/
def ofMark? : Char → Option Fill
  | '-' => some none
  | '0' => some zeros
  | '_' => some blanks
  | _ => Option.none

/-- Digits filled up to a width. -/
def apply (width : Nat) (digits : List Char) : Fill → List Char
  | none => digits
  | zeros => List.replicate (width - digits.length) '0' ++ digits
  | blanks => List.replicate (width - digits.length) ' ' ++ digits

end Fill

/-- The text of a number at a moment. A plus sign is no part of the width. -/
def Moment.Field.text (m : Moment) (field : Field) (fill : Fill) : List Char :=
  let value := field.value m
  let sign := if field.isYear && 9999 < value then ['+'] else []
  sign ++ fill.apply field.width (Numeral.decimal value).toList

/-! ### Names -/

/-- A part of a date or a time that is a name. -/
inductive Moment.Name where
  | weekday
  | shortWeekday
  | month
  | shortMonth
  /-- The half of the day, in capital letters or not. -/
  | half (capital : Bool)
deriving DecidableEq, Repr

namespace Moment.Name

/-- The names of the days of a week, from Sunday on. -/
def weekdays : List String :=
  ["Sunday", "Monday", "Tuesday", "Wednesday", "Thursday", "Friday", "Saturday"]

def months : List String :=
  ["January", "February", "March", "April", "May", "June", "July", "August", "September",
    "October", "November", "December"]

def halves (capital : Bool) : List String := if capital then ["AM", "PM"] else ["am", "pm"]

/-- The number of letters in a short name. -/
def shortSize : Nat := 3

/-- The name at a moment. -/
def text (m : Moment) : Name → List Char
  | weekday => (weekdays.getD m.daysFromSunday "").toList
  | shortWeekday => (weekdays.getD m.daysFromSunday "").toList.take shortSize
  | month => (months.getD m.month "").toList
  | shortMonth => (months.getD m.month "").toList.take shortSize
  | half capital => ((halves capital).getD (m.hour / 12) "").toList

end Moment.Name

/-! ### Pieces -/

/-- A piece of a format. -/
inductive FormatPiece where
  /-- A text as it is. Moments are told in Coordinated Universal Time, so this can be the time
      zone. -/
  | text (cs : List Char)
  | number (field : Moment.Field) (fill : Fill)
  | name (n : Moment.Name)
  /-- The first digits of the fraction of the second, after a point if it is asked for. -/
  | fraction (point : Bool) (digits : Nat)
  /-- A point and the fraction of the second in as many groups of three digits as it takes.
      Nothing if there is no fraction. -/
  | exactFraction
  /-- A time zone as it can be read but not written. -/
  | readOnlyZone
deriving DecidableEq, Repr

namespace FormatPiece

/-- The first digits of the fraction of the second. -/
def fractionDigits (m : Moment) (count : Nat) : List Char :=
  (Moment.Field.text m .nanosecond .zeros).take count

/-- The text of a piece at a moment, if it can be written. -/
def text? (m : Moment) : FormatPiece → Option (List Char)
  | text cs => some cs
  | number field fill => some (field.text m fill)
  | name n => some (n.text m)
  | fraction point digits => some ((if point then ['.'] else []) ++ fractionDigits m digits)
  | exactFraction =>
    if m.nanoseconds = 0 then some []
    else
      let digits :=
        if m.nanoseconds % 1000000 = 0 then 3 else if m.nanoseconds % 1000 = 0 then 6 else 9
      some ('.' :: fractionDigits m digits)
  | readOnlyZone => none

/-- A single character. -/
def char (c : Char) : FormatPiece := text [c]

def zeros (field : Moment.Field) : FormatPiece := number field .zeros

def blanks (field : Moment.Field) : FormatPiece := number field .blanks

/-- Pieces with a character between them. -/
def separated (c : Char) (pieces : List FormatPiece) : List FormatPiece :=
  pieces.intersperse (char c)

/-! ### What a percent sign stands for -/

/-- The number for which a letter stands, and how it is filled up without a mark. -/
def numberOfLetter? : Char → Option (Moment.Field × Fill)
  | 'Y' => some (.year, .zeros)
  | 'C' => some (.century, .zeros)
  | 'y' => some (.yearOfCentury, .zeros)
  | 'G' => some (.weekYear, .zeros)
  | 'g' => some (.weekYearOfCentury, .zeros)
  | 'q' => some (.quarter, .none)
  | 'm' => some (.month, .zeros)
  | 'd' => some (.day, .zeros)
  | 'e' => some (.day, .blanks)
  | 'U' => some (.weekFromSunday, .zeros)
  | 'W' => some (.weekFromMonday, .zeros)
  | 'V' => some (.weekOfYear, .zeros)
  | 'w' => some (.daysFromSunday, .none)
  | 'u' => some (.dayOfWeek, .none)
  | 'j' => some (.dayOfYear, .zeros)
  | 'H' => some (.hour, .zeros)
  | 'k' => some (.hour, .blanks)
  | 'I' => some (.hour12, .zeros)
  | 'l' => some (.hour12, .blanks)
  | 'M' => some (.minute, .zeros)
  | 'S' => some (.second, .zeros)
  | 'f' => some (.nanosecond, .zeros)
  | 's' => some (.timestamp, .none)
  | _ => none

/-- Month, day and year. -/
def slashDate : List FormatPiece :=
  separated '/' [zeros .month, zeros .day, zeros .yearOfCentury]

def isoDate : List FormatPiece := separated '-' [zeros .year, zeros .month, zeros .day]

def hourMinute : List FormatPiece := separated ':' [zeros .hour, zeros .minute]

def time : List FormatPiece := separated ':' [zeros .hour, zeros .minute, zeros .second]

/-- The distance from Coordinated Universal Time, as its own time zone has it. -/
def zone : FormatPiece := text "+00:00".toList

/-- The pieces for which a letter stands that is no number's. -/
def piecesOfLetter? : Char → Option (List FormatPiece)
  | 'A' => some [name .weekday]
  | 'a' => some [name .shortWeekday]
  | 'B' => some [name .month]
  | 'b' => some [name .shortMonth]
  | 'h' => some [name .shortMonth]
  | 'P' => some [name (.half false)]
  | 'p' => some [name (.half true)]
  | 'Z' => some [zone]
  | 'z' => some [text "+0000".toList]
  | 'D' => some slashDate
  | 'x' => some slashDate
  | 'F' => some isoDate
  | 'v' => some (separated '-' [blanks .day, name .shortMonth, zeros .year])
  | 'R' => some hourMinute
  | 'T' => some time
  | 'X' => some time
  | 'r' =>
    some (separated ':' [zeros .hour12, zeros .minute, zeros .second] ++
      [char ' ', name (.half true)])
  | 'c' =>
    some (separated ' ' [name .shortWeekday, name .shortMonth, blanks .day] ++
      [char ' '] ++ time ++ [char ' ', zeros .year])
  | '+' => some (isoDate ++ [char 'T'] ++ time ++ [exactFraction, zone])
  | 'n' => some [char '\n']
  | 't' => some [char '\t']
  | '%' => some [char '%']
  | _ => none

/-- The pieces for which more than a letter stands. -/
def longSpecifiers : List (String × FormatPiece) :=
  [(".f", exactFraction), (".3f", fraction true 3), (".6f", fraction true 6),
    (".9f", fraction true 9), ("3f", fraction false 3), ("6f", fraction false 6),
    ("9f", fraction false 9), (":z", zone), ("::z", text "+00:00:00".toList),
    (":::z", text "+00".toList), ("#z", readOnlyZone)]

/-- Read what stands behind a percent sign without any mark. -/
def readPlain : List Char → Option (List FormatPiece × List Char)
  | [] => none
  | c :: rest =>
    match numberOfLetter? c with
    | some (field, fill) => some ([number field fill], rest)
    | none => (piecesOfLetter? c).map fun pieces => (pieces, rest)

/-- Read the letter of a number behind a mark. -/
def readMarked (fill : Fill) : List Char → Option (List FormatPiece × List Char)
  | [] => none
  | c :: rest => (numberOfLetter? c).map fun (field, _) => ([number field fill], rest)

/-- Read what stands behind a percent sign. -/
def readSpecifier (cs : List Char) : Option (List FormatPiece × List Char) :=
  let long := longSpecifiers.findSome? fun (specifier, piece) =>
    (specifier.toList.isPrefixOf? cs).map fun rest => ([piece], rest)
  match long, cs with
  | some found, _ => some found
  | none, [] => none
  | none, c :: rest =>
    match Fill.ofMark? c with
    | some fill => readMarked fill rest
    | none => readPlain cs

end FormatPiece

/-! ### Formats -/

namespace Moment

/-- The text of a format at a moment, if it is one, with at most the given number of pieces. -/
def formatPieces (m : Moment) : Nat → List Char → Option (List Char)
  | _, [] => some []
  | 0, _ => none
  | n + 1, '%' :: cs => do
    let (pieces, rest) ← FormatPiece.readSpecifier cs
    let texts ← pieces.mapM (FormatPiece.text? m)
    let after ← formatPieces m n rest
    some (texts.flatten ++ after)
  | n + 1, c :: cs => (formatPieces m n cs).map (c :: ·)

/-- The text of a format at a moment. A text that is no format has none, and neither has one
    with a piece that cannot be written. A piece takes a character, which bounds their
    number. -/
def format? (m : Moment) (format : List Char) : Option (List Char) :=
  formatPieces m format.length format

end Moment

end LockTrace
