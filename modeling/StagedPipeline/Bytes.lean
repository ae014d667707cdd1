/-!
# Byte strings

Every text that the program handles is a byte string: names, paths, messages,
file contents. This module holds the vocabulary for them: literal text, decimal
numerals, the blanks that are trimmed, ASCII case, cutting at a separator and
the zero byte that ends a terminated string.
-/
namespace StagedPipeline

/-- A byte string. Nothing is assumed about its encoding. -/
abbrev Bytes := List UInt8

/-- The UTF-8 bytes of a literal text. -/
def bytes (s : String) : Bytes := s.toUTF8.data.toList

namespace Bytes

/-- The six blanks: space, tab, line feed, vertical tab, form feed, carriage return. -/
def isBlank (b : UInt8) : Bool := b == 32 || (9 ≤ b && b ≤ 13)

/-- The string without the blanks at its two ends. -/
def trim (s : Bytes) : Bytes :=
  ((s.dropWhile isBlank).reverse.dropWhile isBlank).reverse

/-- ASCII lower case of one byte; all other bytes stay. -/
def lowerByte (b : UInt8) : UInt8 := if 65 ≤ b && b ≤ 90 then b + 32 else b

/-- ASCII upper case of one byte; all other bytes stay. -/
def upperByte (b : UInt8) : UInt8 := if 97 ≤ b && b ≤ 122 then b - 32 else b

/-- ASCII lower case. -/
def lower (s : Bytes) : Bytes := s.map lowerByte

/-- ASCII upper case. -/
def upper (s : Bytes) : Bytes := s.map upperByte

/-- Equality up to ASCII case. -/
def sameText (s t : Bytes) : Bool := s.lower == t.lower

/-- What a zero-terminated string holds: the bytes before the first zero byte. -/
def untilZero (s : Bytes) : Bytes := s.takeWhile (· != 0)

/-- The two sides of the first `sep`, or `none` if there is none. -/
def cut (sep : UInt8) : Bytes → Option (Bytes × Bytes)
  | [] => none
  | b :: s => if b == sep then some ([], s) else (cut sep s).map fun (l, r) => (b :: l, r)

/-- The pieces between separators: one more than there are separators. -/
def pieces (sep : UInt8) : Bytes → List Bytes
  | [] => [[]]
  | b :: s =>
    if b == sep then [] :: pieces sep s
    else match pieces sep s with
      | [] => [[b]]
      | p :: ps => (b :: p) :: ps

/-- The lines of a text. A line feed ends a line, so that the empty rest after
the last one is no line. -/
def lines (s : Bytes) : List Bytes :=
  let ps := pieces 10 s
  if ps.getLast? == some [] then ps.dropLast else ps

/-- The lines of a text with the line feeds that end them. Nothing is lost: together they
are the text. -/
def fullLines : Bytes → List Bytes
  | [] => []
  | b :: s =>
    if b == 10 then [b] :: fullLines s
    else match fullLines s with
      | [] => [[b]]
      | l :: ls => (b :: l) :: ls

/-- The digits of a number in base ten, most significant first. -/
def ofNat (n : Nat) : Bytes :=
  if n < 10 then [48 + n.toUInt8] else ofNat (n / 10) ++ [48 + (n % 10).toUInt8]

/-- The decimal numeral of an integer: a minus sign for the negative ones. -/
def ofInt : Int → Bytes
  | .ofNat n => ofNat n
  | .negSucc n => 45 :: ofNat (n + 1)

/-- The text between single quotes. -/
def quoted (s : Bytes) : Bytes := bytes "'" ++ s ++ bytes "'"

@[simp] theorem pieces_ne_nil (sep : UInt8) (s : Bytes) : pieces sep s ≠ [] := by
  cases s with
  | nil => simp [pieces]
  | cons b s =>
    rw [pieces]
    split
    · simp
    · split <;> simp

@[simp] theorem flatten_fullLines (s : Bytes) : (fullLines s).flatten = s := by
  induction s with
  | nil => rfl
  | cons b s ih =>
    rw [fullLines]
    split
    · simp [ih]
    · split <;> simp_all

end Bytes
end StagedPipeline
