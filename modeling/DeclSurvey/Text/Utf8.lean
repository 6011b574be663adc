import DeclSurvey.Text.Basic

/-! # Text as bytes

UTF-8 read byte by byte.  Reading gives a list of scalars in which `none` stands for bytes that
encode no character: each longest start of a sequence that cannot be completed gives one `none`.

* `encode` writes a text as bytes;
* `decode?` reads bytes that are valid throughout;
* `decodeLossy` reads any bytes, with the replacement character for what is not valid. -/

namespace DeclSurvey

/-- A string of bytes. -/
abbrev Bytes := List UInt8

namespace Utf8

/-! ### Writing -/

/-- The bytes of a character. -/
def encodeChar (c : Char) : Bytes :=
  let n := c.toNat
  if n < 0x80 then [n.toUInt8]
  else if n < 0x800 then [(0xC0 + n / 64).toUInt8, (0x80 + n % 64).toUInt8]
  else if n < 0x10000 then
    [(0xE0 + n / 4096).toUInt8, (0x80 + n / 64 % 64).toUInt8, (0x80 + n % 64).toUInt8]
  else
    [(0xF0 + n / 262144).toUInt8, (0x80 + n / 4096 % 64).toUInt8, (0x80 + n / 64 % 64).toUInt8,
      (0x80 + n % 64).toUInt8]

/-- The bytes of a text. -/
def encode (t : Text) : Bytes :=
  t.flatMap encodeChar

/-! ### Reading -/

/-- A sequence of which more bytes are due. -/
structure Pending where
  /-- The bits read so far. -/
  value : Nat
  /-- The least byte that can come next. -/
  low : Nat
  /-- The greatest byte that can come next. -/
  high : Nat
  /-- How many bytes are due after the next one. -/
  owed : Nat
  deriving DecidableEq, Repr

/-- What a byte at the start of a sequence means. -/
inductive Opening where
  /-- A character of one byte. -/
  | char (c : Char)
  /-- The first byte of a longer sequence. -/
  | pending (p : Pending)
  /-- No sequence starts with this byte. -/
  | invalid
  deriving Repr

/-- Reads the first byte of a sequence. -/
def opening (b : Nat) : Opening :=
  if b < 0x80 then .char (Char.ofNat b)
  else if b < 0xC2 then .invalid
  else if b < 0xE0 then .pending ⟨b - 0xC0, 0x80, 0xBF, 0⟩
  else if b = 0xE0 then .pending ⟨0, 0xA0, 0xBF, 1⟩
  else if b = 0xED then .pending ⟨0xD, 0x80, 0x9F, 1⟩
  else if b < 0xF0 then .pending ⟨b - 0xE0, 0x80, 0xBF, 1⟩
  else if b = 0xF0 then .pending ⟨0, 0x90, 0xBF, 2⟩
  else if b < 0xF4 then .pending ⟨b - 0xF0, 0x80, 0xBF, 2⟩
  else if b = 0xF4 then .pending ⟨4, 0x80, 0x8F, 2⟩
  else .invalid

/-- Reads the bytes that follow, in the middle of a sequence if one is given. -/
def scalarsFrom : Option Pending → Bytes → List (Option Char)
  | none, [] => []
  | some _, [] => [none]
  | none, b :: bs =>
    match opening b.toNat with
    | .char c => some c :: scalarsFrom none bs
    | .pending p => scalarsFrom (some p) bs
    | .invalid => none :: scalarsFrom none bs
  | some p, b :: bs =>
    if p.low ≤ b.toNat ∧ b.toNat ≤ p.high then
      let value := p.value * 64 + b.toNat % 64
      match p.owed with
      | 0 => some (Char.ofNat value) :: scalarsFrom none bs
      | owed + 1 => scalarsFrom (some ⟨value, 0x80, 0xBF, owed⟩) bs
    else
      -- The sequence breaks off; the byte that breaks it starts the next one.
      none ::
        match opening b.toNat with
        | .char c => some c :: scalarsFrom none bs
        | .pending q => scalarsFrom (some q) bs
        | .invalid => none :: scalarsFrom none bs

/-- The scalars of a string of bytes, `none` for each part that is not valid. -/
def scalars (bs : Bytes) : List (Option Char) :=
  scalarsFrom none bs

/-- Stands for a part that is not valid. -/
def replacement : Char := '\uFFFD'

/-- The text of any bytes, with the replacement character for what is not valid. -/
def decodeLossy (bs : Bytes) : Text :=
  (scalars bs).map (·.getD replacement)

/-- The text of bytes that are valid throughout. -/
def decode? (bs : Bytes) : Option Text :=
  if (scalars bs).all (·.isSome) then some (decodeLossy bs) else none

@[simp] theorem scalars_nil : scalars [] = [] := rfl

@[simp] theorem decodeLossy_nil : decodeLossy [] = [] := rfl

end Utf8

end DeclSurvey
