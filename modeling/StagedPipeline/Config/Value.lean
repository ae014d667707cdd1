import StagedPipeline.Bytes

/-!
# Values in a configuration

A value is a text. Two kinds of meaning are read out of it: a 64-bit integer,
and a switch that is on or off. Both readers take the whole text or nothing.
-/
namespace StagedPipeline.Config

/-- The least and the greatest 64-bit integer. -/
def leastInteger : Int := -9223372036854775808
def greatestInteger : Int := 9223372036854775807

/-- The least number that, with either sign, is no 64-bit integer. -/
def tooLarge : Nat := 9223372036854775809

/-- The number that a string of decimal digits denotes, `none` if it has another byte.
Numbers from `tooLarge` on are all read as `tooLarge`, so that a long string costs no more
than its length. -/
def digits? (s : Bytes) : Option Nat :=
  s.foldl (fun n b => n.bind fun n =>
    if 48 ≤ b && b ≤ 57 then some (min tooLarge (10 * n + (b.toNat - 48))) else none) (some 0)

/-- A natural number written with at least one digit. -/
def natural? (s : Bytes) : Option Nat := if s.isEmpty then none else digits? s

/-- A 64-bit integer: an optional minus sign, then digits and nothing else. A plus
sign, blanks and values out of range are refused. -/
def integer? (s : Bytes) : Option Int :=
  let value : Option Int := match s with
    | 45 :: rest => (natural? rest).map fun n => -(n : Int)
    | _ => (natural? s).map Int.ofNat
  value.filter fun v => leastInteger ≤ v && v ≤ greatestInteger

/-- The words that turn a switch on, and those that turn it off. -/
def onWords : List String := ["1", "true", "yes", "on"]
def offWords : List String := ["0", "false", "no", "off"]

/-- The position of a switch that a text names, in any ASCII case. -/
def switch? (s : Bytes) : Option Bool :=
  if onWords.any fun w => s.sameText (bytes w) then some true
  else if offWords.any fun w => s.sameText (bytes w) then some false
  else none

end StagedPipeline.Config
