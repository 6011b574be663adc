import DeclSurvey.Text.Rests
import DeclSurvey.Text.Utf8

/-! # Globs of ignore files

A glob is matched against the bytes of a path.  Unlike exclusion patterns, `?`, `*` and the
characters around them stay within one component:

* `?` stands for one byte and `*` for any bytes, but for no slash;
* two stars between slashes, or at an end of the glob, stand for any directories;
* brackets list bytes and ranges of bytes, or exclude them after `!` or `^`;
* braces enclose alternatives, which commas divide;
* a backslash takes the special meaning from the next character. -/

namespace DeclSurvey

namespace Ignore

/-- The slash between the components of a path. -/
def slash : UInt8 := 47

/-- A piece of a glob. -/
inductive Token where
  /-- One given byte. -/
  | byte (b : UInt8)
  /-- Any byte but a slash. -/
  | anyByte
  /-- Any bytes but slashes. -/
  | anyBytes
  /-- Directories at the start, or none. -/
  | leadingDirectories
  /-- A slash, with any directories and another slash behind it, or none. -/
  | innerDirectories
  /-- A slash and everything behind it. -/
  | everythingBelow
  /-- A byte in one of the ranges, or in none of them. -/
  | oneOf (negated : Bool) (ranges : List (UInt8 × UInt8))
  /-- One of several globs. -/
  | alternatives (globs : List (List Token))

/-- A glob is a list of tokens. -/
abbrev Glob := List Token

namespace Glob

/-! ### Brackets -/

/-- What a text behind an opening bracket is. -/
inductive Bracket where
  /-- A list of ranges, and what follows the closing bracket. -/
  | closed (ranges : List (Char × Char)) (rest : Text)
  /-- There is no closing bracket. -/
  | unclosed
  /-- A range runs backwards. -/
  | backwards

/-- Reads a list of ranges behind the first item of it.  `dash` tells whether a dash that may
start a range was read last; `ranges` holds the ranges so far, the last one first. -/
def bracketFrom (dash : Bool) (ranges : List (Char × Char)) : Text → Bracket
  | [] => .unclosed
  | ']' :: t => .closed ((if dash then ('-', '-') :: ranges else ranges).reverse) t
  | c :: t =>
    if dash then
      match ranges with
      | (low, _) :: before =>
        if c.toNat < low.toNat then .backwards else bracketFrom false ((low, c) :: before) t
      | [] => bracketFrom false [(c, c)] t
    else if c = '-' then bracketFrom true ranges t
    else bracketFrom false ((c, c) :: ranges) t

/-- Reads a list of ranges behind its opening bracket, and whether they are to be excluded. -/
def bracket (t : Text) : Bool × Bracket :=
  let (negated, t) :=
    match t with
    | '!' :: t => (true, t)
    | '^' :: t => (true, t)
    | t => (false, t)
  match t with
  | [] => (negated, .unclosed)
  | c :: t => (negated, bracketFrom false [(c, c)] t)

/-- The ranges of bytes that a range of characters stands for.  A range joins the last byte of
its lower end and the first byte of its upper end; the other bytes stand for themselves. -/
def byteRanges : Char × Char → List (UInt8 × UInt8)
  | (low, high) =>
    let lows := Utf8.encodeChar low
    if low = high then lows.map fun b => (b, b)
    else
      let highs := Utf8.encodeChar high
      lows.dropLast.map (fun b => (b, b)) ++
        ((lows.getLast?.bind fun a => highs.head?.map fun b => (a, b)).toList ++
          highs.tail.map fun b => (b, b))

/-! ### Reading globs -/

/-- Braces that are open: what stands in front of them, and their alternatives so far. -/
structure Frame where
  /-- The tokens in front of the brace, the last one first. -/
  before : List Token
  /-- The alternatives that are complete. -/
  complete : List Glob

/-- Puts the bytes of a character in front of tokens that are held backwards. -/
def pushChar (c : Char) (tokens : List Token) : List Token :=
  ((Utf8.encodeChar c).map Token.byte).reverse ++ tokens

/-- Puts two stars in the place of the slash in front of them. -/
def pushDirectories (token : Token) : List Token → List Token
  | .leadingDirectories :: tokens => .leadingDirectories :: tokens
  | .everythingBelow :: tokens => .everythingBelow :: tokens
  | _ :: tokens => token :: tokens
  | [] => [token]

/-- Reads the glob that follows the character `before`, when `skip` characters of a list are passed
over.  `tokens` holds what is read of the current alternative, backwards, and `frames` the open
braces, the innermost first. -/
def parseFrom (before : Option Char) (tokens : List Token) (frames : List Frame) :
    Nat → Text → Option Glob
  | _, [] => if frames.isEmpty then some tokens.reverse else none
  | skip + 1, _ :: t => parseFrom before tokens frames skip t
  | 0, '?' :: t => parseFrom (some '?') (.anyByte :: tokens) frames 0 t
  | 0, '*' :: '*' :: '/' :: t =>
    -- Two stars make up a component only between slashes or at the start of an alternative.
    if tokens.isEmpty then parseFrom (some '/') [.leadingDirectories] frames 0 t
    else if before == some '/' then
      parseFrom (some '/') (pushDirectories .innerDirectories tokens) frames 0 t
    else parseFrom (some '/') (pushChar '/' (.anyBytes :: tokens)) frames 0 t
  | 0, '*' :: '*' :: t =>
    if tokens.isEmpty then
      parseFrom (some '*') (if t.isEmpty then [.leadingDirectories] else [.anyBytes]) frames 0 t
    else if before == some '/' &&
        (t.isEmpty || (!frames.isEmpty && (t.head? == some ',' || t.head? == some '\x7d'))) then
      parseFrom (some '*') (pushDirectories .everythingBelow tokens) frames 0 t
    else parseFrom (some '*') (.anyBytes :: tokens) frames 0 t
  | 0, '*' :: t => parseFrom (some '*') (.anyBytes :: tokens) frames 0 t
  | 0, '[' :: t =>
    match bracket t with
    | (negated, .closed ranges rest) =>
      parseFrom (some ']') (.oneOf negated (ranges.flatMap byteRanges) :: tokens) frames
        (t.length - rest.length) t
    -- A bracket that nothing closes stands for itself.
    | (_, .unclosed) => parseFrom (some '[') (pushChar '[' tokens) frames 0 t
    | (_, .backwards) => none
  | 0, '\x7b' :: t => parseFrom (some '\x7b') [] (⟨tokens, []⟩ :: frames) 0 t
  | 0, '\x7d' :: t =>
    match frames with
    | [] => none
    | frame :: frames =>
      parseFrom (some '\x7d')
        (.alternatives (frame.complete ++ [tokens.reverse]) :: frame.before) frames 0 t
  | 0, ',' :: t =>
    match frames with
    | [] => parseFrom (some ',') (pushChar ',' tokens) [] 0 t
    | frame :: frames =>
      parseFrom (some ',') [] (⟨frame.before, frame.complete ++ [tokens.reverse]⟩ :: frames) 0 t
  | 0, '\\' :: c :: t => parseFrom (some c) (pushChar c tokens) frames 0 t
  | 0, ['\\'] => none
  | 0, c :: t => parseFrom (some c) (pushChar c tokens) frames 0 t

/-- Reads a glob; `none` if it is malformed. -/
def parse? (t : Text) : Option Glob :=
  parseFrom none [] [] 0 t

/-! ### Matching -/

/-- Whether a byte is a slash. -/
def isSlash (b : UInt8) : Bool := b == slash

mutual

/-- What a token can leave of a path. -/
def tokenRests : Token → Bytes → List Bytes
  | .byte b, p => Rests.afterOne (· == b) p
  | .anyByte, p => Rests.afterOne (fun b => !isSlash b) p
  | .anyBytes, p => Rests.afterRun (fun b => !isSlash b) p
  | .leadingDirectories, p => p :: Rests.afterEach isSlash p
  | .innerDirectories, p =>
    (Rests.afterOne isSlash p).flatMap fun r => r :: Rests.afterEach isSlash r
  | .everythingBelow, p => (Rests.afterOne isSlash p).flatMap Rests.suffixes
  | .oneOf negated ranges, p =>
    Rests.afterOne (fun b => ranges.any (fun (low, high) => low ≤ b && b ≤ high) != negated) p
  | .alternatives globs, p => if globs.all (·.isEmpty) then [p] else anyRests globs p

/-- What a glob can leave of one of the given paths. -/
def rests : List Token → List Bytes → List Bytes
  | [], ps => ps
  | token :: glob, ps => rests glob (ps.flatMap (tokenRests token)).eraseDups

/-- What one of several globs can leave of a path; those without tokens do not count. -/
def anyRests : List (List Token) → Bytes → List Bytes
  | [], _ => []
  | glob :: globs, p => (if glob.isEmpty then [] else rests glob [p]) ++ anyRests globs p

end

/-- Whether a glob matches the whole of a path.  Two stars alone match every path. -/
def accepts (glob : Glob) (p : Bytes) : Bool :=
  match glob with
  | [.leadingDirectories] => true
  | _ => (rests glob [p]).contains []

end Glob

end Ignore

end DeclSurvey
