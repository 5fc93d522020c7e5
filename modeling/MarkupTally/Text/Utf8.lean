/-! UTF-8 over byte lists: strict reading, counting the characters of a damaged text, and the text
of a file. -/
namespace MarkupTally.Utf8

/-- Why a run of bytes is no character. -/
inductive Reason where
  | badStart
  | badContinuation
  | truncated
  deriving DecidableEq, Repr

def Reason.message : Reason → String
  | badStart => "invalid start byte"
  | badContinuation => "invalid continuation byte"
  | truncated => "unexpected end of data"

/-- The first place where a byte list stops being UTF-8. -/
structure Fault where
  position : Nat
  bytes : List UInt8
  reason : Reason
  deriving DecidableEq, Repr

def hexDigit (n : Nat) : Char :=
  Char.ofNat (if n < 10 then 48 + n else 87 + n)

def hexByte (b : UInt8) : String :=
  String.ofList [hexDigit (b.toNat / 16), hexDigit (b.toNat % 16)]

/-- A single bad byte is shown; of a longer run the range of positions is shown. -/
def Fault.message (f : Fault) : String :=
  let place :=
    match f.bytes with
    | [b] => "byte 0x" ++ hexByte b ++ " in position " ++ toString f.position
    | bs => "bytes in position " ++ toString f.position ++ "-" ++ toString (f.position + bs.length - 1)
  "'utf-8' codec can't decode " ++ place ++ ": " ++ f.reason.message

/-- What stands at the front of a byte list: a character, or a longest run of bytes that begins
like a character and is none. -/
inductive Piece where
  | char (c : Char) (width : Nat)
  | bad (width : Nat) (reason : Reason)

def Piece.width : Piece → Nat
  | char _ w => w
  | bad w _ => w

/-- Reads `need` continuation bytes, the first of them between `lo` and `hi`. -/
def continued : Nat → (lo hi : UInt8) → (value width : Nat) → List UInt8 → Piece
  | 0, _, _, value, width, _ => .char (Char.ofNat value) width
  | _ + 1, _, _, _, width, [] => .bad width .truncated
  | need + 1, lo, hi, value, width, b :: bs =>
    if lo ≤ b ∧ b ≤ hi then continued need 0x80 0xBF (value * 64 + b.toNat % 64) (width + 1) bs
    else .bad width .badContinuation

/-- The piece that begins with the byte `b`. The limits on the second byte keep out overlong
forms, surrogates and values above U+10FFFF. -/
def piece (b : UInt8) (rest : List UInt8) : Piece :=
  if b < 0x80 then .char (Char.ofNat b.toNat) 1
  else if b < 0xC2 then .bad 1 .badStart
  else if b < 0xE0 then continued 1 0x80 0xBF (b.toNat - 0xC0) 1 rest
  else if b < 0xF0 then
    continued 2 (if b = 0xE0 then 0xA0 else 0x80) (if b = 0xED then 0x9F else 0xBF)
      (b.toNat - 0xE0) 1 rest
  else if b < 0xF5 then
    continued 3 (if b = 0xF0 then 0x90 else 0x80) (if b = 0xF4 then 0x8F else 0xBF)
      (b.toNat - 0xF0) 1 rest
  else .bad 1 .badStart

/-- Adds the number of pieces of a byte list to `n`, after passing over `skip` bytes. -/
def countOnto (n : Nat) : (skip : Nat) → List UInt8 → Nat
  | _, [] => n
  | skip + 1, _ :: bs => countOnto n skip bs
  | 0, b :: bs => countOnto (n + 1) ((piece b bs).width - 1) bs

/-- The number of characters of a byte list when each damaged run counts as one. -/
def count (bytes : List UInt8) : Nat := countOnto 0 0 bytes

def decodeOnto (read : List Char) (position : Nat) : (skip : Nat) → List UInt8 →
    Except Fault (List Char)
  | _, [] => .ok read.reverse
  | skip + 1, _ :: bs => decodeOnto read (position + 1) skip bs
  | 0, b :: bs =>
    match piece b bs with
    | .char c width => decodeOnto (c :: read) (position + 1) (width - 1) bs
    | .bad width reason => .error ⟨position, (b :: bs).take width, reason⟩

/-- The text that a byte list encodes, or the first place where it encodes none. -/
def decode (bytes : List UInt8) : Except Fault (List Char) := decodeOnto [] 0 0 bytes

def encode (text : String) : List UInt8 := text.toUTF8.toList

/-- The bytes from `first` up to `last`. A negative bound counts from the end, and bounds outside
the source are moved to its nearest end. -/
def slice (source : List UInt8) (first last : Int) : List UInt8 :=
  let bound (i : Int) : Nat := if i < 0 then (i + source.length).toNat else i.toNat
  (source.take (bound last)).drop (bound first)

end MarkupTally.Utf8

/-! The text of a file: a leading byte-order mark is dropped, and every line ends in one newline. -/
namespace MarkupTally.FileText

def byteOrderMark : List UInt8 := [0xEF, 0xBB, 0xBF]

/-- Drops one byte-order mark. A file that ends inside the mark has no text at all. -/
def withoutMark : List UInt8 → List UInt8
  | [0xEF] => []
  | [0xEF, 0xBB] => []
  | 0xEF :: 0xBB :: 0xBF :: bytes => bytes
  | bytes => bytes

/-- A carriage return, alone or before a newline, becomes a newline. -/
def unixLines : List Char → List Char
  | [] => []
  | '\r' :: '\n' :: cs => '\n' :: unixLines cs
  | '\r' :: cs => '\n' :: unixLines cs
  | c :: cs => c :: unixLines cs

def ofBytes (bytes : List UInt8) : Except Utf8.Fault String :=
  (Utf8.decode (withoutMark bytes)).map fun cs => String.ofList (unixLines cs)

end MarkupTally.FileText
