import DeclSurvey.Toml.Value

/-! # Numbers, dates and times in TOML

Each reader takes what it can from the start of a text and gives back the rest.

* `Scalar.integer` reads whole numbers of 64 bits, in four bases;
* `Scalar.float` reads numbers with fraction or exponent, `inf` and `nan`;
* `Scalar.moment` reads dates, times and both together;
* `Scalar.number` reads whichever of them a text starts with. -/

namespace DeclSurvey

namespace Toml

/-- Reads a value from the start of a text and gives back the rest. -/
abbrev Reader (α : Type) := Text → Option (α × Text)

namespace Scalar

/-! ### Digits -/

/-- The value of a digit in bases up to sixteen. -/
def digitValue (c : Char) : Nat :=
  if c.isDigit then c.toNat - '0'.toNat
  else if 'a' ≤ c ∧ c ≤ 'f' then c.toNat - 'a'.toNat + 10
  else if 'A' ≤ c ∧ c ≤ 'F' then c.toNat - 'A'.toNat + 10
  else 16

/-- Whether a character is a digit in a base. -/
def isDigitIn (base : Nat) (c : Char) : Bool :=
  digitValue c < base

/-- The number that digits write in a base. -/
def ofDigits (base : Nat) (digits : Text) : Nat :=
  digits.foldl (fun n c => n * base + digitValue c) 0

/-- The digits that follow a first one; an underscore may stand before each of them. -/
def moreDigits (base : Nat) : Text → Text × Text
  | [] => ([], [])
  | '_' :: c :: t =>
    if isDigitIn base c then
      let (digits, rest) := moreDigits base t
      (c :: digits, rest)
    else ([], '_' :: c :: t)
  | c :: t =>
    if isDigitIn base c then
      let (digits, rest) := moreDigits base t
      (c :: digits, rest)
    else ([], c :: t)

/-- One or more digits. -/
def digits (base : Nat) : Reader Text
  | [] => none
  | c :: t =>
    if isDigitIn base c then
      let (ds, rest) := moreDigits base t
      some (c :: ds, rest)
    else none

/-- Exactly `n` decimal digits, as a number. -/
def fixed (n : Nat) (t : Text) : Option (Nat × Text) :=
  let ds := t.take n
  if ds.length = n ∧ ds.all (isDigitIn 10) then some (ofDigits 10 ds, t.drop n) else none

/-- A number of `n` digits between two bounds. -/
def fixedBetween (n low high : Nat) (t : Text) : Option (Nat × Text) := do
  let (v, rest) ← fixed n t
  if low ≤ v ∧ v ≤ high then some (v, rest) else none

/-- One given character. -/
def symbol (c : Char) : Reader Unit
  | [] => none
  | d :: t => if d = c then some ((), t) else none

/-- A given text. -/
def word (w : Text) (t : Text) : Option (Unit × Text) :=
  (Text.afterPrefix? w t).map ((), ·)

/-- A sign, if there is one: whether it is a minus. -/
def sign : Text → Bool × Text
  | '-' :: t => (true, t)
  | '+' :: t => (false, t)
  | t => (false, t)

/-! ### Whole numbers -/

/-- The digits of a decimal number, which starts with zero only if it is zero. -/
def decimalDigits : Reader Text
  | '0' :: t => some (['0'], t)
  | t => digits 10 t

/-- The base that a lower-case letter behind a zero announces. -/
def baseOf? : Char → Option Nat
  | 'x' => some 16
  | 'o' => some 8
  | 'b' => some 2
  | _ => none

/-- A number, if it fits in 64 bits. -/
def inRange (n : Int) : Option Item :=
  if -9223372036854775808 ≤ n ∧ n ≤ 9223372036854775807 then some (.integer n) else none

/-- A decimal number with an optional sign. -/
def decimal (t : Text) : Option (Item × Text) := do
  let (negative, t) := sign t
  let (ds, rest) ← decimalDigits t
  let n : Int := ofDigits 10 ds
  let item ← inRange (if negative then -n else n)
  return (item, rest)

/-- A whole number: decimal, or with a base in front and without sign. -/
def integer (t : Text) : Option (Item × Text) :=
  match t with
  | '0' :: c :: t' =>
    match baseOf? c with
    | some base => do
      let (ds, rest) ← digits base t'
      let item ← inRange (ofDigits base ds)
      return (item, rest)
    | none => decimal t
  | _ => decimal t

/-! ### Other numbers -/

/-- Whether a decimal with these digits, of which the last has the weight `10 ^ exponent`, is too
great for a number of double precision: it rounds to infinity. -/
def overflows (ds : Text) (exponent : Int) : Bool :=
  let m := ofDigits 10 ds
  let size : Int := (Nat.toDigits 10 m).length + exponent
  let bound := Nat.pow 2 1024 - Nat.pow 2 970
  if m = 0 ∨ size < 300 then false
  else if 320 < size then true
  else if 0 ≤ exponent then bound ≤ m * Nat.pow 10 exponent.toNat
  else bound * Nat.pow 10 (-exponent).toNat ≤ m

/-- The exponent of a number: its value. -/
def exponent : Reader Int
  | c :: t =>
    if c = 'e' ∨ c = 'E' then do
      let (negative, t) := sign t
      let (ds, rest) ← digits 10 t
      let n : Int := ofDigits 10 ds
      return (if negative then -n else n, rest)
    else none
  | [] => none

/-- The digits of the fraction of a number. -/
def fraction : Reader Text
  | '.' :: t => digits 10 t
  | _ => none

/-- Infinity or no number, with an optional sign. -/
def special (t : Text) : Option (Unit × Text) :=
  let t := (sign t).2
  (word "inf".toList t).or (word "nan".toList t)

/-- A number with a fraction, an exponent or both. -/
def fractional (t : Text) : Option (Unit × Text) := do
  let (negative, t) := sign t
  let (whole, t) ← decimalDigits t
  let (ds, power, rest) ←
    match fraction t with
    | some (ds, t) =>
      match exponent t with
      | some (e, rest) => some (ds, e, rest)
      | none => some (ds, 0, t)
    | none => (exponent t).map fun (e, rest) => ([], e, rest)
  if !negative && overflows (whole ++ ds) (power - ds.length) then none else some ((), rest)

/-- A reader's value is the text that it takes. -/
def taken (reader : Reader Unit) (t : Text) : Option (Text × Text) := do
  let (_, rest) ← reader t
  return (t.take (t.length - rest.length), rest)

/-- A number with fraction or exponent, infinity or no number. -/
def float (t : Text) : Option (Item × Text) := do
  let (written, rest) ← (taken fractional t).or (taken special t)
  return (.float written, rest)

/-! ### Dates and times -/

/-- Whether a year has a leap day. -/
def isLeap (year : Nat) : Bool :=
  year % 4 == 0 && (year % 100 != 0 || year % 400 == 0)

/-- The number of days of a month. -/
def daysIn (year month : Nat) : Nat :=
  if month = 2 then (if isLeap year then 29 else 28)
  else if month = 4 ∨ month = 6 ∨ month = 9 ∨ month = 11 then 30
  else 31

/-- A date. -/
def date (t : Text) : Option (Unit × Text) := do
  let (year, t) ← fixed 4 t
  let (_, t) ← symbol '-' t
  let (month, t) ← fixedBetween 2 1 12 t
  let (_, t) ← symbol '-' t
  let (_, t) ← fixedBetween 2 1 (daysIn year month) t
  return ((), t)

/-- The fraction of a second, if there is one: all digits that follow the point. -/
def secondFraction : Text → Text
  | '.' :: c :: t => if c.isDigit then t.dropWhile (·.isDigit) else '.' :: c :: t
  | t => t

/-- A time of the day. -/
def time (t : Text) : Option (Unit × Text) := do
  let (_, t) ← fixedBetween 2 0 23 t
  let (_, t) ← symbol ':' t
  let (_, t) ← fixedBetween 2 0 59 t
  let (_, t) ← symbol ':' t
  let (_, t) ← fixedBetween 2 0 60 t
  return ((), secondFraction t)

/-- The offset of a time. -/
def offset : Reader Unit
  | c :: t =>
    if c = 'Z' ∨ c = 'z' then some ((), t)
    else if c = '+' ∨ c = '-' then do
      let (_, t) ← fixedBetween 2 0 23 t
      let (_, t) ← symbol ':' t
      let (_, t) ← fixedBetween 2 0 59 t
      return ((), t)
    else none
  | [] => none

/-- The time that follows a date, with its offset. -/
def timeOfDate : Reader Unit
  | c :: t =>
    if c = 'T' ∨ c = 't' ∨ c = ' ' then do
      let (_, t) ← time t
      return (offset t).getD ((), t)
    else none
  | [] => none

/-- A date with or without a time, or a time alone. -/
def moment (t : Text) : Option (Item × Text) := do
  let dated : Reader Unit := fun t => do
    let (_, t) ← date t
    return (timeOfDate t).getD ((), t)
  let (written, rest) ← (taken dated t).or (taken time t)
  return (.moment written, rest)

/-- Whatever starts with a digit or a sign. -/
def number (t : Text) : Option (Item × Text) :=
  ((moment t).or (float t)).or (integer t)

end Scalar

end Toml

end DeclSurvey
