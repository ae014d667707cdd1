import StagedPipeline.Sha256.Hasher

/-!
# Hashing piece by piece

An engine has folded the whole blocks of its message into the chaining value and holds what
they leave over. So its digest is the hash of the message, whatever the pieces in which the
message has come.
-/
namespace StagedPipeline.Sha256

/-! ## Whole blocks -/

theorem blocks_short {m : Bytes} (short : m.length < 64) : blocks m = [] := by
  have empty : m.drop 63 = [] := List.drop_eq_nil_iff.mpr (Nat.le_of_lt_succ short)
  rw [blocks, if_pos (by rw [empty]; rfl)]

@[simp] theorem blocks_nil : blocks [] = [] := blocks_short (by decide)

theorem blocks_of_block {b : Bytes} (whole : b.length = 64) (m : Bytes) :
    blocks (b ++ m) = b :: blocks m := by
  have more : ((b ++ m).drop 63).isEmpty = false := by
    rw [List.isEmpty_eq_false_iff]
    intro empty
    have short := List.drop_eq_nil_iff.mp empty
    rw [List.length_append] at short
    omega
  rw [blocks, more, if_neg Bool.false_ne_true, List.take_left' whole, List.drop_left' whole]

/-- A text of whole blocks is put together from blocks. -/
theorem whole_induction {P : Bytes → Prop} (done : P [])
    (block : ∀ {b m : Bytes}, b.length = 64 → P m → P (b ++ m)) {m : Bytes}
    (whole : m.length % 64 = 0) : P m := by
  obtain ⟨k, length⟩ := Nat.dvd_of_mod_eq_zero whole
  clear whole
  induction k generalizing m with
  | zero => exact List.length_eq_zero_iff.mp length ▸ done
  | succ k ih =>
    have first : (m.take 64).length = 64 := by
      rw [List.length_take]
      omega
    have rest : (m.drop 64).length = 64 * k := by
      rw [List.length_drop]
      omega
    exact List.take_append_drop 64 m ▸ block first (ih rest)

/-- Nothing of a text of whole blocks is left for what follows it. -/
theorem blocks_append {m : Bytes} (whole : m.length % 64 = 0) (n : Bytes) :
    blocks (m ++ n) = blocks m ++ blocks n := by
  refine whole_induction (P := fun m => blocks (m ++ n) = blocks m ++ blocks n) (by simp) ?_ whole
  intro b m block ih
  rw [List.append_assoc, blocks_of_block block, blocks_of_block block, ih, List.cons_append]

theorem flatten_blocks {m : Bytes} (whole : m.length % 64 = 0) : (blocks m).flatten = m := by
  refine whole_induction (P := fun m => (blocks m).flatten = m) (by simp) ?_ whole
  intro b m block ih
  rw [blocks_of_block block, List.flatten_cons, ih]

/-- The padding fills the last block, so that a hash is taken of all bytes of its message. -/
theorem flatten_blocks_padding (m : Bytes) :
    (blocks (m ++ padding m.length)).flatten = m ++ padding m.length :=
  flatten_blocks (by rw [List.length_append, length_padding])

/-! ## Messages whose hashes are known -/

theorem hash_empty : toHex (hash []) =
    bytes "e3b0c44298fc1c149afbf4c8996fb92427ae41e4649b934ca495991b7852b855" := by
  decide +kernel

theorem hash_abc : toHex (hash (bytes "abc")) =
    bytes "ba7816bf8f01cfea414140de5dae2223b00361a396177a9cb410ff61f20015ad" := by
  decide +kernel

/-- Padded, this message is two blocks long. -/
theorem hash_twoBlocks :
    toHex (hash (bytes "abcdbcdecdefdefgefghfghighijhijkijkljklmklmnlmnomnopnopq")) =
      bytes "248d6a61d20638b8e5c026930c3e6039a33ce45964ff2167f6ecedd419db06c1" := by
  decide +kernel

namespace Engine

variable {s : Engine} {m : Bytes}

/-- What an engine is when it has taken in a message: `done` are the blocks that it has folded. -/
structure Holds (m done : Bytes) (s : Engine) : Prop where
  message : m = done ++ s.rest
  whole : done.length % 64 = 0
  chain : s.chain = (blocks done).foldl compress initial
  short : s.rest.length < 64
  count : s.count = m.length

theorem holds_absorbByte {done : Bytes} (hs : Holds m done s) (b : UInt8) :
    ∃ done', Holds (m ++ [b]) done' (s.absorbByte b) := by
  obtain ⟨message, whole, chain, short, count⟩ := hs
  have count' : s.count + 1 = (m ++ [b]).length := by
    rw [List.length_append, List.length_singleton, count]
  by_cases still : (s.rest ++ [b]).length < 64
  case pos =>
    rw [absorbByte, if_pos still]
    exact ⟨done, by simp [message], whole, chain, still, count'⟩
  case neg =>
    rw [absorbByte, if_neg still]
    have length : (s.rest ++ [b]).length = 64 := by
      rw [List.length_append, List.length_singleton] at still ⊢
      omega
    have folded : blocks (done ++ (s.rest ++ [b])) = blocks done ++ [s.rest ++ [b]] := by
      have block := blocks_of_block length []
      rw [List.append_nil, blocks_nil] at block
      rw [blocks_append whole, block]
    refine ⟨done ++ (s.rest ++ [b]), ?_, ?_, ?_, Nat.succ_pos 63, count'⟩
    · simp [message]
    · rw [List.length_append, length]
      omega
    · rw [folded, List.foldl_append, ← chain]
      rfl

theorem holds_absorb {done : Bytes} (hs : Holds m done s) (n : Bytes) :
    ∃ done', Holds (m ++ n) done' (s.absorb n) := by
  induction n generalizing m done s with
  | nil => exact ⟨done, by rwa [List.append_nil]⟩
  | cons b n ih =>
    obtain ⟨done', hs'⟩ := holds_absorbByte hs b
    have later := ih hs'
    rwa [List.append_assoc, List.singleton_append] at later

/-- The digest is the hash of all that was taken in. -/
theorem digest_of_holds {done : Bytes} (hs : Holds m done s) : s.digest = hash m := by
  obtain ⟨message, whole, chain, _, count⟩ := hs
  rw [digest, hash, count, chain, ← List.foldl_append, ← blocks_append whole,
    ← List.append_assoc, ← message]

theorem digest_absorb (m : Bytes) : (({} : Engine).absorb m).digest = hash m := by
  have fresh : Holds [] [] {} := ⟨rfl, rfl, by rw [blocks_nil]; rfl, Nat.succ_pos 63, rfl⟩
  obtain ⟨done, hs⟩ := holds_absorb fresh m
  exact digest_of_holds hs

end Engine
end StagedPipeline.Sha256
