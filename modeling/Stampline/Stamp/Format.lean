import Stampline.Stamp.Instant

/-!
# Formats

A format says how an instant is written. It is text in which fields stand for parts of the instant.
A field begins with a percent sign, and which fields there are is a table: `specifiers` holds the
spelling of each and what it stands for. No spelling begins another, so that a text is read in at
most one way, and a text with a percent sign that begins no field is not a format.

Times are in UTC. There is one field, the offset in a form that only reading uses, that a format may
have and that cannot be written.
-/

namespace Stampline

/-- What fills up a number that is shorter than its field. -/
inductive Padding where
  | none | zero | space
deriving DecidableEq, Repr

/-- The parts of an instant that are numbers. -/
inductive NumberField where
  | year | century | yearOfCentury
  | isoYear | isoYearOfCentury | isoWeek
  | quarter | month | day | dayOfYear
  | weekFromSunday | weekFromMonday | weekday | isoWeekday
  | hour | hourOnFace | minute | second | nanosecond | timestamp
deriving DecidableEq, Repr

namespace NumberField

/-- The number that a field stands for. -/
def value (t : Instant) : NumberField → Int
  | year => t.year
  | century => t.year / 100
  | yearOfCentury => t.year % 100
  | isoYear => t.isoWeek.1
  | isoYearOfCentury => t.isoWeek.1 % 100
  | isoWeek => t.isoWeek.2
  | quarter => t.quarter
  | month => t.date.month
  | day => t.date.day
  | dayOfYear => t.dayOfYear + 1
  | weekFromSunday => t.weekFromSunday
  | weekFromMonday => t.weekFromMonday
  | weekday => t.weekday
  | isoWeekday => t.weekdayFromMonday + 1
  | hour => t.hour
  | hourOnFace => t.hourOnFace
  | minute => t.minute
  | second => t.second
  | nanosecond => t.nanoOfSecond
  | timestamp => t.seconds

/-- The width that a number is filled up to. -/
def width : NumberField → Nat
  | quarter | weekday | isoWeekday => 1
  | year | isoYear => 4
  | dayOfYear => 3
  | nanosecond | timestamp => 9
  | _ => 2

/-- Whether a number is written with its sign. Years are if they do not have four digits. -/
def isSigned (value : Int) : NumberField → Bool
  | year | isoYear => decide (value < 0) || decide (9999 < value)
  | _ => decide (value < 0)

end NumberField

/-- Text filled up at its front to a width. -/
def padded (width : Nat) (filler : Char) (text : String) : String :=
  String.ofList (List.replicate (width - text.length) filler) ++ text

/-- A number in a field. A sign comes before zeros and behind spaces. -/
def numberText (width : Nat) (signed : Bool) (padding : Padding) (value : Int) : String :=
  let sign := if signed then (if value < 0 then "-" else "+") else ""
  let digits := toString value.natAbs
  match padding with
  | .none => sign ++ digits
  | .zero => sign ++ padded (width - sign.length) '0' digits
  | .space => padded width ' ' (sign ++ digits)

/-- The value of a field as it is written. The sign of a year is in addition to its width. -/
def NumberField.text (field : NumberField) (padding : Padding) (t : Instant) : String :=
  let value := field.value t
  let signed := field.isSigned value
  let width := match field with
    | year | isoYear => if signed then field.width + 1 else field.width
    | _ => field.width
  numberText width signed padding value

/-- The names of the days of the week, from Sunday. -/
def weekdayNames : List String :=
  ["Sunday", "Monday", "Tuesday", "Wednesday", "Thursday", "Friday", "Saturday"]

/-- The names of the months. -/
def monthNames : List String :=
  ["January", "February", "March", "April", "May", "June", "July", "August", "September",
    "October", "November", "December"]

/-- The first three letters of a name. -/
def shortName (name : String) : String := String.ofList (name.toList.take 3)

/-- How many digits a fraction of a second has. -/
inductive Precision where
  | millis | micros | nanos
deriving DecidableEq, Repr

/-- The digits of a fraction of a second. -/
def Precision.digits (nanos : Nat) : Precision → String
  | .millis => padded 3 '0' (toString (nanos / 1000000))
  | .micros => padded 6 '0' (toString (nanos / 1000))
  | .nanos => padded 9 '0' (toString nanos)

/-- A fraction of a second behind a point, in the fewest digits that give it exactly, in groups of
three. There is no point if there is no fraction. -/
def fractionText (nanos : Nat) : String :=
  if nanos = 0 then ""
  else if nanos % 1000000 = 0 then "." ++ Precision.millis.digits nanos
  else if nanos % 1000 = 0 then "." ++ Precision.micros.digits nanos
  else "." ++ Precision.nanos.digits nanos

/-- The parts of an instant that are not numbers. -/
inductive WordField where
  | weekdayName | shortWeekdayName | monthName | shortMonthName
  /-- The half of the day. -/
  | half
  /-- The half of the day in small letters. -/
  | smallHalf
  /-- The name of the time zone. -/
  | zone
  /-- The offset of the time zone: hours and minutes. -/
  | offset
  /-- The offset with colons: hours and minutes. -/
  | offsetMinutes
  /-- The offset with colons: hours, minutes and seconds. -/
  | offsetSeconds
  /-- The hours of the offset. -/
  | offsetHours
  /-- The offset with as little as reading it needs. It cannot be written. -/
  | offsetOnlyRead
  /-- The fraction of the second behind a point, if there is any. -/
  | fraction
  /-- The fraction of the second behind a point. -/
  | pointed (precision : Precision)
  /-- The digits of the fraction of the second. -/
  | bare (precision : Precision)
  /-- Date and time together. -/
  | full
deriving DecidableEq, Repr

/-- Date and time together, with the offset. -/
def fullText (t : Instant) : String :=
  let two (n : Nat) := padded 2 '0' (toString n)
  NumberField.year.text .zero t ++ "-" ++ two t.date.month ++ "-" ++ two t.date.day ++ "T" ++
    two t.hour ++ ":" ++ two t.minute ++ ":" ++ two t.second ++ fractionText t.nanoOfSecond ++
    "+00:00"

/-- The value of a field as it is written, if it can be. -/
def WordField.text? (t : Instant) : WordField → Option String
  | weekdayName => some (weekdayNames.getD t.weekday "")
  | shortWeekdayName => some (shortName (weekdayNames.getD t.weekday ""))
  | monthName => some (monthNames.getD (t.date.month - 1) "")
  | shortMonthName => some (shortName (monthNames.getD (t.date.month - 1) ""))
  | half => some (if t.isAfternoon then "PM" else "AM")
  | smallHalf => some (if t.isAfternoon then "pm" else "am")
  | zone => some "UTC"
  | offset => some "+0000"
  | offsetMinutes => some "+00:00"
  | offsetSeconds => some "+00:00:00"
  | offsetHours => some "+00"
  | offsetOnlyRead => none
  | fraction => some (fractionText t.nanoOfSecond)
  | pointed precision => some ("." ++ precision.digits t.nanoOfSecond)
  | bare precision => some (precision.digits t.nanoOfSecond)
  | full => some (fullText t)

/-- A piece of a format. -/
inductive Piece where
  /-- A character that stands for itself. -/
  | literal (c : Char)
  /-- A number. -/
  | number (field : NumberField) (padding : Padding)
  /-- A part that is not a number. -/
  | word (field : WordField)
deriving DecidableEq, Repr

/-- A piece as it is written, if it can be. -/
def Piece.render? (t : Instant) : Piece → Option String
  | literal c => some (String.singleton c)
  | number field padding => some (field.text padding t)
  | word field => field.text? t

/-- Pieces as they are written one behind the other. -/
def renderPieces? (t : Instant) : List Piece → Option String
  | [] => some ""
  | p :: ps =>
    match p.render? t, renderPieces? t ps with
    | some text, some rest => some (text ++ rest)
    | _, _ => none

/-! ## The table of fields -/

/-- How a field is spelled behind the percent sign, and the pieces that it stands for. -/
structure Specifier where
  /-- Its spelling. -/
  spelling : List Char
  /-- What it stands for. -/
  pieces : List Piece
deriving DecidableEq, Repr

/-- The letters of numbers, with what they are filled up with unless the format says otherwise. -/
def numberLetters : List (Char × NumberField × Padding) :=
  [('C', .century, .zero), ('d', .day, .zero), ('e', .day, .space), ('f', .nanosecond, .zero),
    ('g', .isoYearOfCentury, .zero), ('G', .isoYear, .zero), ('H', .hour, .zero),
    ('I', .hourOnFace, .zero), ('j', .dayOfYear, .zero), ('k', .hour, .space),
    ('l', .hourOnFace, .space), ('m', .month, .zero), ('M', .minute, .zero),
    ('q', .quarter, .none), ('s', .timestamp, .none), ('S', .second, .zero),
    ('u', .isoWeekday, .none), ('U', .weekFromSunday, .zero), ('V', .isoWeek, .zero),
    ('w', .weekday, .none), ('W', .weekFromMonday, .zero), ('y', .yearOfCentury, .zero),
    ('Y', .year, .zero)]

/-- The signs by which a format says what a number is filled up with. -/
def paddingSigns : List (Char × Padding) := [('-', .none), ('0', .zero), ('_', .space)]

/-- The fields of numbers: each letter alone, and behind each of the signs of padding. -/
def numberSpecifiers : List Specifier :=
  numberLetters.flatMap fun (letter, field, padding) =>
    ⟨[letter], [.number field padding]⟩ ::
      paddingSigns.map fun (sign, padding) => ⟨[sign, letter], [.number field padding]⟩

/-- The fields of parts that are not numbers. -/
def wordSpecifiers : List Specifier :=
  [("A", WordField.weekdayName), ("a", .shortWeekdayName), ("B", .monthName),
    ("b", .shortMonthName), ("h", .shortMonthName), ("p", .half), ("P", .smallHalf), ("Z", .zone),
    ("z", .offset), (":z", .offsetMinutes), ("::z", .offsetSeconds), (":::z", .offsetHours),
    ("#z", .offsetOnlyRead), (".f", .fraction), (".3f", .pointed .millis),
    (".6f", .pointed .micros), (".9f", .pointed .nanos), ("3f", .bare .millis),
    ("6f", .bare .micros), ("9f", .bare .nanos), ("+", .full)].map
    fun (spelling, field) => ⟨spelling.toList, [.word field]⟩

/-- The fields that stand for a character. -/
def literalSpecifiers : List Specifier :=
  [('%', '%'), ('n', '\n'), ('t', '\t')].map fun (letter, c) => ⟨[letter], [.literal c]⟩

/-- The date with the month first. -/
def datePieces : List Piece :=
  [.number .month .zero, .literal '/', .number .day .zero, .literal '/',
    .number .yearOfCentury .zero]

/-- Hour and minute. -/
def clockPieces : List Piece := [.number .hour .zero, .literal ':', .number .minute .zero]

/-- Hour, minute and second. -/
def timePieces : List Piece := clockPieces ++ [.literal ':', .number .second .zero]

/-- The fields that stand for several pieces. -/
def compoundSpecifiers : List Specifier :=
  [('c', [.word .shortWeekdayName, .literal ' ', .word .shortMonthName, .literal ' ',
      .number .day .space, .literal ' '] ++ timePieces ++ [.literal ' ', .number .year .zero]),
    ('D', datePieces),
    ('F', [.number .year .zero, .literal '-', .number .month .zero, .literal '-',
      .number .day .zero]),
    ('r', [.number .hourOnFace .zero, .literal ':', .number .minute .zero, .literal ':',
      .number .second .zero, .literal ' ', .word .half]),
    ('R', clockPieces),
    ('T', timePieces),
    ('v', [.number .day .space, .literal '-', .word .shortMonthName, .literal '-',
      .number .year .zero]),
    ('x', datePieces),
    ('X', timePieces)].map fun (letter, pieces) => ⟨[letter], pieces⟩

/-- All fields. -/
def specifiers : List Specifier :=
  numberSpecifiers ++ wordSpecifiers ++ literalSpecifiers ++ compoundSpecifiers

/-- The field that a text begins with. -/
def specifier? (cs : List Char) : Option Specifier :=
  specifiers.find? (·.spelling.isPrefixOf cs)

/-- The pieces of a text, unless one of its percent signs begins no field. -/
def pieces? : List Char → Option (List Piece)
  | [] => some []
  | c :: cs =>
    if c = '%' then
      match specifier? cs with
      | none => none
      | some s => (pieces? (cs.drop s.spelling.length)).map (s.pieces ++ ·)
    else (pieces? cs).map (.literal c :: ·)
termination_by cs => cs.length
decreasing_by
  · simp only [List.length_drop, List.length_cons]
    omega
  · simp

/-! ## Formats -/

/-- A format: a text and the pieces that it consists of. -/
structure Format where
  /-- The text. -/
  pattern : String
  /-- Its pieces. -/
  pieces : List Piece
  /-- They are those of the text. -/
  pieces?_pattern : pieces? pattern.toList = some pieces
deriving DecidableEq

namespace Format

/-- The format of a text, if it is one. -/
def ofPattern? (pattern : String) : Option Format :=
  match h : pieces? pattern.toList with
  | some pieces => some ⟨pattern, pieces, h⟩
  | none => none

/-- An instant as a format writes it, if it can be written. -/
def render? (f : Format) (t : Instant) : Option String := renderPieces? t f.pieces

theorem ofPattern?_eq_some_iff {pattern : String} {f : Format} :
    ofPattern? pattern = some f ↔ f.pattern = pattern := by
  obtain ⟨p, pieces, h⟩ := f
  constructor
  · intro hf
    simp only [ofPattern?] at hf
    split at hf
    · simp only [Option.some.injEq, Format.mk.injEq] at hf
      exact hf.1.symm
    · cases hf
  · rintro rfl
    simp only [ofPattern?]
    split
    · next pieces' h' =>
      rw [h] at h'
      cases h'
      rfl
    · next h' =>
      rw [h] at h'
      cases h'

end Format

/-- The format of stamps unless another is asked for. -/
def defaultPattern : String := "print at %a, %d %b %Y %H:%M:%S: --> "

end Stampline
