import Eunox.ByteString

/-! Go's `time.Parse` at the layout `RFC3339Nano`. The hour may be written with
one digit, the fraction may follow a comma and have any number of digits, and an
offset may be written with 24 hours or 60 minutes. An instant is counted in
nanoseconds from the start of year 1, the zero value of `time.Time`. -/
namespace Rfc3339
open ByteString

def digitValue (byte : UInt8) : ℕ := byte.toNat - 48

def number (digits : Bytes) : ℕ := digits.foldl (fun n byte => n * 10 + digitValue byte) 0

/-- `getnum`: two digits, or one where the layout allows it. -/
def getNum (fixed : Bool) (s : Bytes) : Option (ℕ × Bytes) :=
  match s with
  | [] => none
  | first :: rest =>
    if !isDigit first then none
    else
      match rest.head? with
      | some second =>
        if isDigit second then some (digitValue first * 10 + digitValue second, rest.tail)
        else if fixed then none else some (digitValue first, rest)
      | none => if fixed then none else some (digitValue first, rest)

def getYear (s : Bytes) : Option (ℕ × Bytes) :=
  if 4 ≤ s.length && (s.take 4).all isDigit then some (number (s.take 4), s.drop 4) else none

/-- `parseNanoseconds`: nine digits count, the rest are dropped. -/
def nanoseconds (digits : Bytes) : ℕ := number (digits.take 9) * 10 ^ (9 - (digits.take 9).length)

/-- The fraction of the second, when there is one. -/
def getFraction (s : Bytes) : ℕ × Bytes :=
  match s with
  | [] => (0, [])
  | mark :: rest =>
    let digits := rest.takeWhile isDigit
    if (mark = 46 || mark = 44) && !digits.isEmpty then (nanoseconds digits, rest.drop digits.length)
    else (0, s)

/-- The offset from UTC in seconds. -/
def getZone (s : Bytes) : Option (ℤ × Bytes) :=
  match s with
  | [] => none
  | sign :: rest =>
    if sign = 90 then some (0, rest)
    else do
      let (hour, rest) ← getNum true rest
      let rest ← cutPrefix [58] rest
      let (minute, rest) ← getNum true rest
      if 24 < hour || 60 < minute then none
      else if sign = 43 then some ((hour * 60 + minute) * 60, rest)
      else if sign = 45 then some (-((hour * 60 + minute) * 60), rest)
      else none

def leap (year : ℕ) : Bool := year % 4 = 0 && (year % 100 ≠ 0 || year % 400 = 0)

def monthDays (year : ℕ) : List ℕ := [31, if leap year then 29 else 28, 31, 30, 31, 30, 31, 31, 30, 31, 30, 31]

/-- Days from the start of year 1 to the start of this year. -/
def yearDays (year : ℕ) : ℤ :=
  let before : ℤ := year - 1
  365 * before + before.fdiv 4 - before.fdiv 100 + before.fdiv 400

def parse (s : Bytes) : Option ℤ := do
  let (year, s) ← getYear s
  let s ← cutPrefix [45] s
  let (month, s) ← getNum true s
  let s ← cutPrefix [45] s
  let (day, s) ← getNum true s
  let s ← cutPrefix [84] s
  let (hour, s) ← getNum false s
  let s ← cutPrefix [58] s
  let (minute, s) ← getNum true s
  let s ← cutPrefix [58] s
  let (second, s) ← getNum true s
  let (nanos, s) := getFraction s
  let (offset, s) ← getZone s
  if !s.isEmpty || month < 1 || 12 < month || day < 1 || (monthDays year).getD (month - 1) 0 < day ||
      23 < hour || 59 < minute || 59 < second then none
  else
    let days := yearDays year + ((monthDays year).take (month - 1)).sum + (day - 1)
    some ((((days * 24 + hour) * 60 + minute) * 60 + second - offset) * 1000000000 + nanos)

example : parse (lit "1970-01-01T00:00:00Z") = some (62135596800 * 1000000000) ∧
    parse (lit "2024-02-29T5:04:05,25+24:60") =
      (parse (lit "2024-02-28T04:04:05.25Z")) ∧
    parse (lit "2023-02-29T05:04:05Z") = none := by
  decide

end Rfc3339
