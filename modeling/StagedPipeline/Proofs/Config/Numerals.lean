import StagedPipeline.Config.Value
import Mathlib.Data.Nat.Digits.Defs
import Mathlib.Data.List.Induction

/-!
# Integers written in decimal

A numeral is a row of decimal digits, possibly behind a minus sign, and its value is the number
that these digits have in base ten, however many there are. Reading a text as an integer finds
that value if the text is a numeral whose value has 64 bits, and nothing in all other cases.
-/
namespace StagedPipeline.Config

def isDigit (b : UInt8) : Bool := 48 ≤ b && b ≤ 57

def digit (b : UInt8) : Nat := b.toNat - 48

/-- The value of a row of digits, the most significant one first. -/
def decimal (s : Bytes) : Nat := Nat.ofDigits 10 (s.reverse.map digit)

/-- A text that denotes an integer. -/
inductive Numeral : Bytes → Int → Prop
  | plain {s} (filled : s ≠ []) (digits : ∀ b ∈ s, isDigit b = true) : Numeral s (decimal s)
  | minus {s} (filled : s ≠ []) (digits : ∀ b ∈ s, isDigit b = true) :
      Numeral (45 :: s) (-(decimal s : Int))

variable {s : Bytes} {v : Int}

theorem decimal_concat (s : Bytes) (b : UInt8) :
    decimal (s ++ [b]) = 10 * decimal s + digit b := by
  rw [decimal, List.reverse_concat, List.map_cons, Nat.ofDigits_cons, Nat.add_comm]
  rfl

/-- Reading digits finds their value, up to the greatest one that is told apart. -/
theorem digits?_eq (s : Bytes) :
    digits? s = if s.all isDigit then some (min tooLarge (decimal s)) else none := by
  induction s using List.reverseRecOn with
  | nil => rfl
  | append_singleton s b ih =>
    have step : digits? (s ++ [b]) = (digits? s).bind fun n =>
        if isDigit b then some (min tooLarge (10 * n + digit b)) else none := by
      rw [digits?, List.foldl_append]
      rfl
    have capped : min tooLarge (10 * min tooLarge (decimal s) + digit b) =
        min tooLarge (10 * decimal s + digit b) := by
      omega
    rw [step, ih, decimal_concat, List.all_append, List.all_cons, List.all_nil, Bool.and_true,
      ← capped]
    cases s.all isDigit <;> rfl

theorem natural?_eq_some_iff {n : Nat} : natural? s = some n ↔
    s ≠ [] ∧ (∀ b ∈ s, isDigit b = true) ∧ n = min tooLarge (decimal s) := by
  rw [natural?, digits?_eq, ← List.all_eq_true]
  cases s with
  | nil => simp
  | cons b s =>
    cases (b :: s).all isDigit with
    | true => exact Option.some_inj.trans ⟨fun h => ⟨by simp, rfl, h.symm⟩, fun h => h.2.2.symm⟩
    | false => simp

theorem numeral_minus_iff : Numeral (45 :: s) v ↔
    s ≠ [] ∧ (∀ b ∈ s, isDigit b = true) ∧ v = -(decimal s : Int) := by
  constructor
  · intro h
    cases h with
    | plain _ digits => exact absurd (digits 45 List.mem_cons_self) (by decide)
    | minus filled digits => exact ⟨filled, digits, rfl⟩
  · rintro ⟨filled, digits, rfl⟩
    exact .minus filled digits

theorem numeral_plain_iff (unsigned : s.head? ≠ some 45) : Numeral s v ↔
    s ≠ [] ∧ (∀ b ∈ s, isDigit b = true) ∧ v = decimal s := by
  constructor
  · intro h
    cases h with
    | plain filled digits => exact ⟨filled, digits, rfl⟩
    | minus => exact absurd rfl unsigned
  · rintro ⟨filled, digits, rfl⟩
    exact .plain filled digits

/-- Digits are read with a sign as the number that they are, if it has 64 bits: a number that is
capped has no 64 bits either way. -/
theorem signed_natural?_eq_some_iff {sign : Nat → Int}
    (capped : ∀ n, leastInteger ≤ sign (min tooLarge n) → sign (min tooLarge n) ≤ greatestInteger →
      sign (min tooLarge n) = sign n)
    (bounded : ∀ n, leastInteger ≤ sign n → sign n ≤ greatestInteger → min tooLarge n = n) :
    ((natural? s).map sign).filter (fun v => leastInteger ≤ v && v ≤ greatestInteger) = some v ↔
      (s ≠ [] ∧ (∀ b ∈ s, isDigit b = true) ∧ v = sign (decimal s)) ∧
        leastInteger ≤ v ∧ v ≤ greatestInteger := by
  simp only [Option.filter_eq_some_iff, Option.map_eq_some_iff, natural?_eq_some_iff,
    Bool.and_eq_true, decide_eq_true_eq]
  constructor
  · rintro ⟨⟨n, ⟨filled, digits, rfl⟩, rfl⟩, least, most⟩
    exact ⟨⟨filled, digits, capped _ least most⟩, least, most⟩
  · rintro ⟨⟨filled, digits, rfl⟩, least, most⟩
    exact ⟨⟨_, ⟨filled, digits, rfl⟩, by rw [bounded _ least most]⟩, least, most⟩

/-- A text is read as the value of the numeral that it is, if that has 64 bits. -/
theorem integer?_eq_some_iff :
    integer? s = some v ↔ Numeral s v ∧ leastInteger ≤ v ∧ v ≤ greatestInteger := by
  by_cases signed : s.head? = some 45
  · obtain ⟨rest, rfl⟩ := List.head?_eq_some_iff.mp signed
    have read : integer? (45 :: rest) = ((natural? rest).map fun n : Nat => -(n : Int)).filter
        fun v => leastInteger ≤ v && v ≤ greatestInteger := by
      simp only [integer?]
      cases natural? rest <;> rfl
    rw [read, numeral_minus_iff]
    apply signed_natural?_eq_some_iff <;> intro n <;>
      simp only [leastInteger, greatestInteger, tooLarge] <;> omega
  · have read : integer? s = ((natural? s).map Int.ofNat).filter
        fun v => leastInteger ≤ v && v ≤ greatestInteger := by
      unfold integer?
      split
      · exact absurd rfl signed
      · rfl
    rw [read, numeral_plain_iff signed]
    apply signed_natural?_eq_some_iff <;> intro n <;>
      simp only [leastInteger, greatestInteger, tooLarge, Int.ofNat_eq_natCast] <;> omega

end StagedPipeline.Config
