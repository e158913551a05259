import Mathlib.Algebra.Group.Nat.Defs
import Mathlib.Logic.Function.Basic

/-!
Sums of 16-bit words with the carries added back in, as the Internet protocols
use them. Words are stored with the low byte first. A sum with its complement
added to it has the complement 0, which is how a checksum is verified.
-/
namespace Fdgw.Checksum

abbrev Memory := Nat → BitVec 8

/-- The word at an address. -/
def word (m : Memory) (a : Nat) : Nat := (m a).toNat + 256 * (m (a + 1)).toNat

def storeWord (m : Memory) (a value : Nat) : Memory :=
  Function.update (Function.update m a (BitVec.ofNat 8 value)) (a + 1) (BitVec.ofNat 8 (value / 256))

/-- The words of `count` bytes; a byte left over counts as a word. -/
def words (m : Memory) : Nat → Nat → Nat
  | 0, _ => 0
  | 1, a => (m a).toNat
  | count + 2, a => word m a + words m count (a + 2)

/-- The carries out of the low 16 bits are added until there are none. -/
def carry : Nat → Nat → Nat
  | 0, sum => sum
  | fuel + 1, sum => if sum / 65536 = 0 then sum else carry fuel (sum % 65536 + sum / 65536)

/-- A sum of 32 bits needs three rounds at most. -/
def complement (sum : Nat) : Nat := 65535 - carry 3 sum

/-! ## Carries -/

section Carry

variable {sum : Nat}

theorem carry_mod (fuel sum : Nat) : carry fuel sum % 65535 = sum % 65535 := by
  induction fuel generalizing sum with
  | zero => rfl
  | succ fuel ih =>
    rw [carry]
    split
    · rfl
    · rw [ih]
      omega

theorem carry_pos (fuel : Nat) (positive : 0 < sum) : 0 < carry fuel sum := by
  induction fuel generalizing sum with
  | zero => exact positive
  | succ fuel ih =>
    rw [carry]
    split
    · exact positive
    · exact ih (by omega)

theorem carry_zero (fuel : Nat) : carry fuel 0 = 0 := by
  cases fuel <;> rfl

theorem carry_small (small : sum < 2 ^ 32) : carry 3 sum < 65536 := by
  simp only [carry]
  split
  · omega
  split
  · omega
  split
  · omega
  · omega

theorem complement_eq_zero_iff (small : sum < 2 ^ 32) : complement sum = 0 ↔ 0 < sum ∧ sum % 65535 = 0 := by
  have bound := carry_small small
  have same := carry_mod 3 sum
  unfold complement
  constructor
  · intro zero
    have full : carry 3 sum = 65535 := by omega
    rw [full] at same
    refine ⟨Nat.pos_of_ne_zero ?_, by omega⟩
    rintro rfl
    rw [carry_zero] at full
    omega
  · rintro ⟨positive, multiple⟩
    have more := carry_pos 3 positive
    omega

theorem complement_le (sum : Nat) : complement sum ≤ 65535 := Nat.sub_le _ _

/-- A sum with its complement verifies. -/
theorem complement_add (small : sum + 65535 < 2 ^ 32) : complement (sum + complement sum) = 0 := by
  have most := complement_le sum
  rw [complement_eq_zero_iff (by omega)]
  have bound := carry_small (show sum < 2 ^ 32 by omega)
  have same := carry_mod 3 sum
  unfold complement
  constructor
  · rcases Nat.eq_zero_or_pos sum with rfl | positive
    · rw [carry_zero]
      omega
    · omega
  · omega

/-- Nothing else verifies, the other zero apart. -/
theorem complement_unique {other : Nat} (small : sum + other < 2 ^ 32) (below : other < 65535)
    (verified : complement (sum + other) = 0) : complement sum = other := by
  rw [complement_eq_zero_iff small] at verified
  have bound := carry_small (show sum < 2 ^ 32 by omega)
  have same := carry_mod 3 sum
  have positive := carry_pos 3 (show 0 < sum by omega)
  unfold complement
  omega

end Carry

/-! ## Memory -/

section Words

variable {m n : Memory} {a b count value : Nat}

theorem words_congr (same : ∀ i, a ≤ i → i < a + count → m i = n i) : words m count a = words n count a := by
  induction count, a using words.induct with
  | case1 => rfl
  | case2 a => rw [words, words, same a (by omega) (by omega)]
  | case3 count a ih =>
    rw [words, words, word, word, same a (by omega) (by omega), same (a + 1) (by omega) (by omega),
      ih fun i low high => same i (by omega) (by omega)]

theorem word_le (m : Memory) (a : Nat) : word m a ≤ 65535 := by
  have low := (m a).isLt
  have high := (m (a + 1)).isLt
  rw [word]
  omega

theorem words_le (m : Memory) (count a : Nat) : words m count a ≤ 65535 * ((count + 1) / 2) := by
  induction count, a using words.induct with
  | case1 => simp [words]
  | case2 a =>
    have byte := (m a).isLt
    rw [words]
    omega
  | case3 count a ih =>
    have first := word_le m a
    rw [words]
    omega

theorem storeWord_other (low : b ≠ a) (high : b ≠ a + 1) : storeWord m a value b = m b := by
  rw [storeWord, Function.update_of_ne high, Function.update_of_ne low]

theorem storeWord_word (small : value < 65536) : word (storeWord m a value) a = value := by
  have different : a ≠ a + 1 := by omega
  rw [word, storeWord, Function.update_self, Function.update_of_ne different, Function.update_self,
    BitVec.toNat_ofNat, BitVec.toNat_ofNat]
  omega

theorem storeWord_congr (same : ∀ b, b ≠ a → b ≠ a + 1 → m b = n b) : storeWord m a value = storeWord n a value := by
  funext b
  by_cases high : b = a + 1
  · rw [high, storeWord, storeWord, Function.update_self, Function.update_self]
  by_cases low : b = a
  · subst low
    rw [storeWord, storeWord, Function.update_of_ne high, Function.update_of_ne high, Function.update_self,
      Function.update_self]
  · rw [storeWord_other low high, storeWord_other low high, same b low high]

theorem storeWord_storeWord {earlier : Nat} : storeWord (storeWord m a earlier) a value = storeWord m a value :=
  storeWord_congr fun _ low high => storeWord_other low high

/-- What a stored word adds to the sum of the `count` bytes from `a` on. -/
def share (count offset value : Nat) : Nat :=
  if offset + 2 ≤ count then value else if offset + 1 ≤ count then value % 256 else 0

theorem share_succ (count k value : Nat) : share (count + 2) (2 * (k + 1)) value = share count (2 * k) value := by
  have whole : 2 * (k + 1) + 2 ≤ count + 2 ↔ 2 * k + 2 ≤ count := by omega
  have half : 2 * (k + 1) + 1 ≤ count + 2 ↔ 2 * k + 1 ≤ count := by omega
  simp only [share, whole, half]

theorem words_storeWord (k : Nat) (small : value < 65536) :
    words (storeWord m (a + 2 * k) value) count a =
      words (storeWord m (a + 2 * k) 0) count a + share count (2 * k) value := by
  induction count, a using words.induct generalizing k with
  | case1 a => simp [words, share]
  | case2 a =>
    rw [words, words]
    cases k with
    | zero => simp [storeWord, share]
    | succ k =>
      have low : a ≠ a + 2 * (k + 1) := by omega
      have high : a ≠ a + 2 * (k + 1) + 1 := by omega
      rw [storeWord_other low high, storeWord_other low high, share, if_neg (by omega), if_neg (by omega),
        Nat.add_zero]
  | case3 count a ih =>
    rw [words, words]
    cases k with
    | zero =>
      have rest (v : Nat) : words (storeWord m (a + 2 * 0) v) count (a + 2) = words m count (a + 2) :=
        words_congr fun i low _ => storeWord_other (by omega) (by omega)
      have zero : word (storeWord m (a + 2 * 0) 0) a = 0 := storeWord_word (by omega)
      have stored : word (storeWord m (a + 2 * 0) value) a = value := storeWord_word small
      rw [rest, rest, zero, stored, share, if_pos (by omega)]
      omega
    | succ k =>
      have moved : a + 2 * (k + 1) = a + 2 + 2 * k := by omega
      have front (v : Nat) : word (storeWord m (a + 2 * (k + 1)) v) a = word m a := by
        rw [word, word, storeWord_other (by omega) (by omega), storeWord_other (by omega) (by omega)]
      rw [front, front, moved, ih k, share_succ]
      omega

end Words

end Fdgw.Checksum
