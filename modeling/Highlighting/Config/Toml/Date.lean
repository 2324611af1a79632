import Highlighting.Text.Ascii
import Highlighting.Text.Integer

/-!
Dates as texts: a date, a time of day, or both with an optional offset from universal time. A day has
the hours 0 to 23, and a minute may have a leap second.
-/

namespace Highlighting.Toml

def fixedDigits? (count : Nat) (cs : List Char) : Option Nat :=
  if cs.length == count then Text.digits? cs else none

def daysIn (year month : Nat) : Nat :=
  if month == 2 then
    if year % 4 == 0 && (year % 100 != 0 || year % 400 == 0) then 29 else 28
  else if month == 4 || month == 6 || month == 9 || month == 11 then 30
  else 31

def isDate (cs : List Char) : Bool :=
  match Text.splitAll (· == '-') cs with
  | [year, month, day] =>
    match fixedDigits? 4 year, fixedDigits? 2 month, fixedDigits? 2 day with
    | some y, some m, some d => 1 ≤ m && m ≤ 12 && 1 ≤ d && d ≤ daysIn y m
    | _, _, _ => false
  | _ => false

def isTime (cs : List Char) : Bool :=
  let (clock, fraction?) := Text.splitFirst (· == '.') cs
  fraction?.all (fun fraction => !fraction.isEmpty && fraction.all Char.isDigit)
    && (match Text.splitAll (· == ':') clock with
        | [hour, minute, second] =>
          (fixedDigits? 2 hour).any (· ≤ 23) && (fixedDigits? 2 minute).any (· ≤ 59)
            && (fixedDigits? 2 second).any (· ≤ 60)
        | _ => false)

def isOffset : List Char → Bool
  | [] => true
  | ['Z'] => true
  | ['z'] => true
  | sign :: rest =>
    (sign == '+' || sign == '-')
      && (match Text.splitAll (· == ':') rest with
          | [hour, minute] =>
            (fixedDigits? 2 hour).any (· ≤ 23) && (fixedDigits? 2 minute).any (· ≤ 59)
          | _ => false)

def isDateTime (cs : List Char) : Bool :=
  isDate cs || isTime cs
    || (isDate (cs.take 10)
        && (match cs.drop 10 with
            | mark :: rest =>
              let isOffsetMark := fun c => c == 'Z' || c == 'z' || c == '+' || c == '-'
              (mark == 'T' || mark == 't' || mark == ' ')
                && isTime (rest.takeWhile (fun c => !isOffsetMark c))
                && isOffset (rest.dropWhile (fun c => !isOffsetMark c))
            | [] => false))

end Highlighting.Toml
