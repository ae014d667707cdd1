import StagedPipeline.Bytes

/-!
# Time stamps

A log line begins with a time stamp in brackets: the date, the time of day and
milliseconds, `[2024-05-06 07:08:09.010]`. All stamps have the same length, so that
the length of a line does not depend on the time.
-/
namespace StagedPipeline.Log.Stamp

/-- The stamp of the day before all days. -/
def zero : Bytes := bytes "0000-00-00 00:00:00.000"

def isDigit (b : UInt8) : Bool := 48 ≤ b && b ≤ 57

/-- Whether a text begins like a pattern, in which a zero stands for any digit. -/
def beginsLike : Bytes → Bytes → Bool
  | [], _ => true
  | _ :: _, [] => false
  | p :: pattern, b :: text => (if p == 48 then isDigit b else b == p) && beginsLike pattern text

/-- A stamp in its brackets. -/
def bracketed (stamp : Bytes) : Bytes := bytes "[" ++ stamp ++ bytes "]"

/-- What follows a stamp in brackets at the beginning of a text. -/
def after? (text : Bytes) : Option Bytes :=
  if beginsLike (bracketed zero) text then some (text.drop (bracketed zero).length) else none

/-- The text with a mark in place of every stamp in brackets, where the first bytes may
still belong to a stamp that was marked. -/
def maskFrom (mark : Bytes) : Nat → Bytes → Bytes
  | _, [] => []
  | n + 1, _ :: text => maskFrom mark n text
  | 0, b :: text =>
    if (after? (b :: text)).isSome then mark ++ maskFrom mark ((bracketed zero).length - 1) text
    else b :: maskFrom mark 0 text

/-- The text with a mark in place of every stamp in brackets. -/
def mask (mark text : Bytes) : Bytes := maskFrom mark 0 text

/-- A number with leading zeros to a width. -/
def padded (width n : Nat) : Bytes :=
  List.replicate (width - (Bytes.ofNat n).length) 48 ++ Bytes.ofNat n

/-- The stamp of a date, a time of day and milliseconds. -/
def ofParts (year month day hour minute second millis : Nat) : Bytes :=
  padded 4 year ++ bytes "-" ++ padded 2 month ++ bytes "-" ++ padded 2 day ++ bytes " " ++
    padded 2 hour ++ bytes ":" ++ padded 2 minute ++ bytes ":" ++ padded 2 second ++ bytes "." ++
    padded 3 millis

end StagedPipeline.Log.Stamp
