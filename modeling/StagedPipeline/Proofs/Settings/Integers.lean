import StagedPipeline.Proofs.Settings.Validity

/-!
# Integers in a configuration

Two readers find integers in a configuration: one takes a default for a text that denotes none, the
other refuses it, and numbers below one with it. Both of them take the same texts for integers,
which are the decimal numerals of 64-bit numbers, and find their values.
-/
namespace StagedPipeline

namespace Config

/-- The effective text of a key is a numeral whose value has 64 bits. -/
def Denotes (c : Config) (key : Bytes) (v : Int) : Prop :=
  ∃ text, c.get? key = some text ∧ Numeral text v ∧ leastInteger ≤ v ∧ v ≤ greatestInteger

variable {c : Config} {key : Bytes} {v : Int}

/-! ## Numerals that are written -/

theorem digit_ofNat {n : Nat} (small : n < 10) :
    isDigit (48 + n.toUInt8) = true ∧ digit (48 + n.toUInt8) = n := by
  have value : (48 + n.toUInt8).toNat = 48 + n := by
    rw [UInt8.toNat_add, Nat.toUInt8_eq, UInt8.toNat_ofNat']
    change (48 + n % 256) % 256 = 48 + n
    omega
  refine ⟨?_, by rw [digit, value]; omega⟩
  simp only [isDigit, Bool.and_eq_true, decide_eq_true_eq, UInt8.le_iff_toNat_le, value]
  exact ⟨Nat.le_add_right 48 n, show 48 + n ≤ 57 by omega⟩

/-- The digits of a number have its value. -/
theorem decimal_ofNat (n : Nat) : Bytes.ofNat n ≠ [] ∧
    (∀ b ∈ Bytes.ofNat n, isDigit b = true) ∧ decimal (Bytes.ofNat n) = n := by
  induction n using Nat.strongRecOn with
  | _ n ih =>
    rw [Bytes.ofNat]
    by_cases small : n < 10
    · obtain ⟨isDigit', value⟩ := digit_ofNat small
      rw [if_pos small]
      refine ⟨by simp, by simpa using isDigit', ?_⟩
      simpa [decimal] using value
    · have last : n % 10 < 10 := Nat.mod_lt n (by decide)
      obtain ⟨isDigit', value⟩ := digit_ofNat last
      obtain ⟨-, digits, front⟩ := ih (n / 10) (by omega)
      rw [if_neg small]
      refine ⟨by simp, ?_, ?_⟩
      · intro b hb
        rcases List.mem_append.mp hb with hb | hb
        · exact digits b hb
        · rwa [List.mem_singleton.mp hb]
      · rw [decimal_concat, front, value]
        omega

/-- The decimal numeral of a number denotes it. -/
theorem numeral_ofInt (v : Int) : Numeral (Bytes.ofInt v) v := by
  cases v with
  | ofNat n =>
    obtain ⟨filled, digits, value⟩ := decimal_ofNat n
    have plain := Numeral.plain filled digits
    rwa [value] at plain
  | negSucc n =>
    obtain ⟨filled, digits, value⟩ := decimal_ofNat (n + 1)
    have minus := Numeral.minus filled digits
    rwa [value] at minus

/-! ## The reader with a default -/

theorem denotes_iff : c.Denotes key v ↔ (c.get? key).bind integer? = some v := by
  simp only [Option.bind_eq_some_iff, integer?_eq_some_iff, Denotes]

theorem getInt_eq (c : Config) (key : Bytes) (d : Int) :
    (c.getInt key d).1 = ((c.get? key).bind integer?).getD d := by
  unfold getInt
  cases c.get? key with
  | none => rfl
  | some text => cases h : integer? text <;> simp [h]

theorem getInt_of_denotes (h : c.Denotes key v) (d : Int) : (c.getInt key d).1 = v := by
  rw [getInt_eq, denotes_iff.mp h]
  rfl

theorem getInt_of_not_denotes (h : ∀ v, ¬c.Denotes key v) (d : Int) : (c.getInt key d).1 = d := by
  have nothing : (c.get? key).bind integer? = none :=
    Option.eq_none_iff_forall_ne_some.mpr fun v found => h v (denotes_iff.mpr found)
  rw [getInt_eq, nothing]
  rfl

/-- A value is denoted if every default leads to it. -/
theorem forall_getInt_eq_iff : (∀ d, (c.getInt key d).1 = v) ↔ c.Denotes key v := by
  refine ⟨fun all => ?_, getInt_of_denotes⟩
  have other := all (v + 1)
  rw [getInt_eq] at other
  rw [denotes_iff]
  cases read : (c.get? key).bind integer? with
  | none =>
    rw [read, Option.getD_none] at other
    omega
  | some w =>
    rw [read, Option.getD_some] at other
    rw [other]

/-- Nothing is denoted if every default is the answer. -/
theorem forall_getInt_default_iff :
    (∀ d, (c.getInt key d).1 = d) ↔ ∀ v, ¬c.Denotes key v := by
  refine ⟨fun all v denotes => ?_, getInt_of_not_denotes⟩
  have one := getInt_of_denotes denotes (v + 1)
  rw [all] at one
  omega

theorem denotes_ofInt (v : Int64) (found : c.get? key = some (Bytes.ofInt v.toInt)) :
    c.Denotes key v.toInt := by
  have least := v.le_toInt
  have most := v.toInt_lt
  refine ⟨_, found, numeral_ofInt _, ?_, ?_⟩
  · rw [leastInteger]
    omega
  · rw [greatestInteger]
    omega

end Config

namespace Settings

variable {c : Config} {key text : Bytes} {v : Int} {s : Settings} {fs : FileSystem}
  {later : Log.Entry → FileSystem}

/-- The error for a text that is no integer. -/
def notInteger (key text : Bytes) : Error :=
  .of .configInvalid (bytes "-" ++ key ++ bytes ": not an integer: " ++ text.quoted)

/-- The error for an integer below one. -/
def tooSmall (key text : Bytes) : Error :=
  .of .configInvalid (bytes "-" ++ key ++ bytes " must be at least 1, got " ++ text)

/-- The keys that take numbers, and the numbers that settings have for them. -/
def numberKeys : List (Key × (Settings → Int)) :=
  [(.capacity, fun s => s.errorCapacity.toNat), (.interval, fun s => s.pollInterval)]

/-! ## The reader that refuses -/

theorem notInteger_ne_tooSmall (key text : Bytes) : notInteger key text ≠ tooSmall key text := by
  intro same
  have messages := congrArg Error.message same
  simp only [notInteger, tooSmall, Error.of, List.append_assoc, List.append_cancel_left_eq]
    at messages
  have first := congrArg List.head? messages
  rw [show bytes ": not an integer: " = 58 :: bytes " not an integer: " by decide +kernel,
    show bytes " must be at least 1, got " = 32 :: bytes "must be at least 1, got " by
      decide +kernel] at first
  cases first

theorem positive_of_denotes (h : c.Denotes key v) (large : 1 ≤ v) (n : Int) :
    positive c key n = .ok v := by
  obtain ⟨text, found, numeral, least, most⟩ := h
  exact positive_eq_ok_iff.mpr (.given found ⟨numeral, large, most⟩)

theorem positive_of_small (found : c.get? key = some text) (h : c.Denotes key v) (small : v < 1)
    (n : Int) : positive c key n = .error (tooSmall key text) := by
  have read : Config.integer? text = some v := by
    rwa [Config.denotes_iff, found, Option.bind_some] at h
  simp [positive, found, read, small, tooSmall]

theorem positive_of_not_denotes (found : c.get? key = some text) (h : ∀ v, ¬c.Denotes key v)
    (n : Int) : positive c key n = .error (notInteger key text) := by
  have read : Config.integer? text = none := by
    refine Option.eq_none_iff_forall_ne_some.mpr fun v read => h v ?_
    rwa [Config.denotes_iff, found, Option.bind_some]
  simp [positive, found, read, notInteger]

/-- The reader that refuses takes the same texts for integers as the reader with a default. -/
theorem positive_agrees (found : c.get? key = some text) (n : Int) :
    (∀ v, positive c key n = .ok v ↔ (∀ d, (c.getInt key d).1 = v) ∧ 1 ≤ v) ∧
      (positive c key n = .error (notInteger key text) ↔ ∀ d, (c.getInt key d).1 = d) := by
  simp only [Config.forall_getInt_eq_iff, Config.forall_getInt_default_iff]
  constructor
  · intro v
    refine ⟨fun read => ?_, fun ⟨denotes, large⟩ => positive_of_denotes denotes large n⟩
    obtain ⟨numeral, large, most⟩ := (taken_of_some found).mp (positive_eq_ok_iff.mp read)
    exact ⟨⟨text, found, numeral, Int.le_trans (by decide) large, most⟩, large⟩
  · refine ⟨fun read v denotes => ?_, fun none' => positive_of_not_denotes found none' n⟩
    by_cases small : v < 1
    · rw [positive_of_small found denotes small] at read
      exact notInteger_ne_tooSmall key text (Except.error.inj read).symm
    · rw [positive_of_denotes denotes (by omega)] at read
      cases read

/-! ## Settings -/

theorem counts_iff_denotes (found : c.get? key = some text) :
    Counts text v ↔ c.Denotes key v ∧ 1 ≤ v := by
  rw [counts_iff, Config.denotes_iff, found, Option.bind_some]

theorem refusable_erase {k : Key} (listed : k ∈ checked) :
    Refusable checked c fs later ↔
      Refusable (checked.erase k) c fs later ∨ Invalid (merged c fs later) k := by
  constructor
  · rintro (unopened | unmergeable | ⟨k', listed', invalid⟩)
    · exact .inl (.inl unopened)
    · exact .inl (.inr (.inl unmergeable))
    · by_cases same : k' = k
      · exact .inr (same ▸ invalid)
      · exact .inl (.inr (.inr ⟨k', (List.mem_erase_of_ne same).mpr listed', invalid⟩))
  · rintro ((unopened | unmergeable | ⟨k', listed', invalid⟩) | invalid)
    · exact .inl unopened
    · exact .inr (.inl unmergeable)
    · exact .inr (.inr ⟨k', List.mem_of_mem_erase listed', invalid⟩)
    · exact .inr (.inr ⟨k, listed, invalid⟩)

/-- A configuration with a text for a key makes settings if nothing else is wrong with it and the
text is of the key's form. -/
theorem exists_ofConfig_iff {k : Key} (listed : k ∈ checked)
    (found : (merged c fs later).get? k.name = some text) :
    (∃ s, (ofConfig c fs later).2.1 = .ok s) ↔
      ¬Refusable (checked.erase k) c fs later ∧ k.Admits text := by
  have made : (∃ s, (ofConfig c fs later).2.1 = .ok s) ↔
      ¬(ofConfig c fs later).2.1.isOk = false := by
    cases (ofConfig c fs later).2.1 <;> simp [Outcome.isOk]
  have admits : ¬Invalid (merged c fs later) k ↔ k.Admits text := by
    simp [not_invalid_iff, found]
  have exactly := refusesExactly_checked c fs later
  unfold RefusesExactly at exactly
  rw [made, exactly, refusable_erase listed, not_or, admits]

theorem numberKeys_admits : ∀ k ∈ numberKeys,
    k.1 ∈ checked ∧ ∀ text, k.1.Admits text ↔ ∃ v, Counts text v := by
  simp only [numberKeys, List.mem_cons, List.not_mem_nil, or_false]
  rintro k (rfl | rfl) <;> exact ⟨by decide, fun _ => .rfl⟩

/-- The number that settings have for a key is the one that its text denotes. -/
theorem counts_of_ofConfig (made : (ofConfig c fs later).2.1 = .ok s) : ∀ k ∈ numberKeys,
    ∀ text, (merged c fs later).get? k.1.name = some text → Counts text (k.2 s) := by
  have reflects := reflects_of_ofConfig made
  simp only [numberKeys, List.mem_cons, List.not_mem_nil, or_false]
  rintro k (rfl | rfl) text found
  · exact (taken_of_some found).mp reflects.capacity
  · exact (taken_of_some found).mp reflects.interval

/-- Integers are read exactly. A key has the value of its text if that is a numeral of 64 bits, with
a minus sign or none, and the default for every other text; so what was written as the numeral of a
64-bit number is read as that number. The reader that refuses agrees with this on every text. If a
key that takes a number has a text, settings are made of the configuration if nothing else is wrong
with it and the text denotes a number from one upwards, and it is that number that they have. -/
theorem integers_exact (c : Config) (key : Bytes) (d : Int) :
    (∀ v, c.Denotes key v → (c.getInt key d).1 = v) ∧
    ((∀ v, ¬c.Denotes key v) → (c.getInt key d).1 = d) ∧
    (∀ v : Int64, c.get? key = some (Bytes.ofInt v.toInt) → (c.getInt key d).1 = v.toInt) ∧
    (∀ text, c.get? key = some text → ∀ n,
      (∀ v, positive c key n = .ok v ↔ (∀ d, (c.getInt key d).1 = v) ∧ 1 ≤ v) ∧
      (positive c key n = .error (notInteger key text) ↔ ∀ d, (c.getInt key d).1 = d)) ∧
    ∀ (fs : FileSystem) (later : Log.Entry → FileSystem), ∀ k ∈ numberKeys, ∀ text,
      (merged c fs later).get? k.1.name = some text →
      ((∃ s, (ofConfig c fs later).2.1 = .ok s) ↔ ¬Refusable (checked.erase k.1) c fs later ∧
        ∃ v, (merged c fs later).Denotes k.1.name v ∧ 1 ≤ v) ∧
      ∀ s, (ofConfig c fs later).2.1 = .ok s → (merged c fs later).Denotes k.1.name (k.2 s) := by
  refine ⟨fun v h => Config.getInt_of_denotes h d, fun h => Config.getInt_of_not_denotes h d,
    fun v found => Config.getInt_of_denotes (Config.denotes_ofInt v found) d,
    fun text found n => positive_agrees found n, fun fs later k hk text found => ⟨?_, ?_⟩⟩
  · obtain ⟨listed, admits⟩ := numberKeys_admits k hk
    rw [exists_ofConfig_iff listed found, admits]
    simp only [counts_iff_denotes found]
  · intro s made
    exact ((counts_iff_denotes found).mp (counts_of_ofConfig made k hk text found)).1

/-- The least 64-bit number is read, the next one below it is not, and blanks are refused. -/
example : ["-9223372036854775808", "-9223372036854775809", "-0", "007", "+7", "7 ", "-", ""].map
    (fun text => (Config.getInt { files := [(bytes "n", bytes text)] } (bytes "n") 5).1) =
      [-9223372036854775808, 5, 0, 7, 5, 5, 5, 5] := by
  decide +kernel

end Settings
end StagedPipeline
