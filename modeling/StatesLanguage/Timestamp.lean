/-!
# Timestamps

A timestamp literal is a date and a time of day with an offset, in the profile of
RFC 3339: fields of fixed width in ASCII digits, the date one of the Gregorian
calendar in the years 0 to 9999, a leap second allowed in every minute, and the
offset `Z` or hours and minutes of less than a day.
-/

namespace StatesLanguage

namespace Timestamp

/-- The number that two digits spell. -/
def twoDigits? (a b : Char) : Option Nat :=
  if a.isDigit ∧ b.isDigit then some (10 * (a.toNat - '0'.toNat) + (b.toNat - '0'.toNat))
  else none

/-- Whether a year of the Gregorian calendar has a 29 February. -/
def isLeapYear (year : Nat) : Bool :=
  year % 4 == 0 && (year % 100 != 0 || year % 400 == 0)

/-- The number of days of a month, counted from one. -/
def daysIn (year month : Nat) : Nat :=
  if month = 2 then (if isLeapYear year then 29 else 28)
  else if month = 4 ∨ month = 6 ∨ month = 9 ∨ month = 11 then 30
  else 31

/-- Whether `year` has such a day. -/
def isDate (year month day : Nat) : Bool :=
  1 ≤ month && month ≤ 12 && 1 ≤ day && day ≤ daysIn year month

/-- Whether a day has such a time; the last second may be a leap second. -/
def isTime (hour minute second : Nat) : Bool :=
  hour ≤ 23 && minute ≤ 59 && second ≤ 60

/-- Whether the characters are an offset from universal time. The minus sign may
be the hyphen or the mathematical one. -/
def isOffset : List Char → Bool
  | [z] => z == 'Z' || z == 'z'
  | [sign, h₁, h₂, colon, m₁, m₂] =>
    (sign == '+' || sign == '-' || sign == '\u2212') && colon == ':' &&
      match twoDigits? h₁ h₂, twoDigits? m₁ m₂ with
      | some hours, some minutes => hours ≤ 23 && minutes ≤ 59
      | _, _ => false
  | _ => false

/-- Whether the characters behind the seconds are an offset, after decimals of the
second or not. -/
def isEnd : List Char → Bool
  | '.' :: cs => (cs.head?.any Char.isDigit) && isOffset (cs.dropWhile Char.isDigit)
  | cs => isOffset cs

/-- Whether the characters are a date, a letter `T` or a space, a time and an
offset. -/
def isTimestampChars : List Char → Bool
  | y₁ :: y₂ :: y₃ :: y₄ :: dash₁ :: mo₁ :: mo₂ :: dash₂ :: d₁ :: d₂ :: t :: h₁ :: h₂ :: colon₁ ::
      mi₁ :: mi₂ :: colon₂ :: s₁ :: s₂ :: rest =>
    dash₁ == '-' && dash₂ == '-' && (t == 'T' || t == 't' || t == ' ') && colon₁ == ':' &&
      colon₂ == ':' &&
      match twoDigits? y₁ y₂, twoDigits? y₃ y₄, twoDigits? mo₁ mo₂, twoDigits? d₁ d₂ with
      | some century, some year, some month, some day =>
        isDate (100 * century + year) month day &&
          match twoDigits? h₁ h₂, twoDigits? mi₁ mi₂, twoDigits? s₁ s₂ with
          | some hour, some minute, some second => isTime hour minute second && isEnd rest
          | _, _, _ => false
      | _, _, _, _ => false
  | _ => false

end Timestamp

/-- Whether a text is a timestamp. -/
def isTimestamp (text : String) : Bool :=
  Timestamp.isTimestampChars text.toList

end StatesLanguage
