import Mathlib.Algebra.Group.Nat.Defs
import ModuleCache.Vlq

/-!
Numbers in base 32 read back. The digits of a number add up to it again, and what stands
behind its last digit is read on its own; so a segment gives back the values it was written
for, as long as none of them has a magnitude of more than 32 bits. One that has is refused:
either it has too many digits, or they add up to too much.
-/

namespace ModuleCache.Vlq

theorem digit?_charOf {digit : Nat} (h : digit < 64) : digit? (charOf digit) = some digit := by
  have hall : ∀ d ∈ List.range 64, digit? (charOf d) = some d := by decide +kernel
  exact hall digit (List.mem_range.mpr h)

theorem charOf_mem_alphabet (digit : Nat) : charOf digit ∈ alphabet := by
  unfold charOf
  rw [List.getD_eq_getElem?_getD]
  cases h : alphabet[digit]? with
  | none => decide
  | some c => exact List.mem_of_getElem? h

/-- Reading the digits of a number from a place on adds the number at that place. -/
theorem decodeFrom_digits (n : Nat) {number place : Nat} (rest : List Char) (hplace : place < 7)
    (hn : n < 32 ^ (7 - place)) :
    decodeFrom number place ((digits n).map charOf ++ rest) =
      if maxMagnitude < (number + n * 32 ^ place) / 2 then .error .overflow
      else (decodeFrom 0 0 rest).map (signed (number + n * 32 ^ place) :: ·) := by
  induction n using digits.induct generalizing number place with
  | case1 n hlast =>
      rw [digits, if_pos hlast]
      simp only [List.map_cons, List.map_nil, List.cons_append, List.nil_append, decodeFrom,
        digit?_charOf (by omega : n < 64), if_neg (by omega : ¬ 7 ≤ place),
        if_neg (by omega : ¬ 32 ≤ n), Nat.mod_eq_of_lt hlast, Nat.pow_eq]
  | case2 n hmore ih =>
      have hsplit : 7 - place = (7 - (place + 1)) + 1 := by omega
      have hnext : n / 32 < 32 ^ (7 - (place + 1)) := by
        rw [hsplit, Nat.pow_succ] at hn
        omega
      have hplace' : place + 1 < 7 := by
        apply Classical.byContradiction
        intro hend
        rw [show 7 - (place + 1) = 0 by omega] at hnext
        omega
      have hsum : number + n % 32 * 32 ^ place + n / 32 * 32 ^ (place + 1) =
          number + n * 32 ^ place := by
        have hdiv : n / 32 * (32 ^ place * 32) = 32 * (n / 32) * 32 ^ place := by
          rw [Nat.mul_comm (32 ^ place) 32, ← Nat.mul_assoc, Nat.mul_comm (n / 32) 32]
        rw [Nat.pow_succ, Nat.add_assoc, hdiv, ← Nat.add_mul, Nat.mod_add_div]
      rw [digits, if_neg hmore]
      simp only [List.map_cons, List.cons_append, decodeFrom,
        digit?_charOf (by omega : n % 32 + 32 < 64), if_neg (by omega : ¬ 7 ≤ place),
        if_pos (by omega : 32 ≤ n % 32 + 32), Nat.add_mod_right, Nat.mod_mod, Nat.pow_eq]
      rw [ih hplace' hnext, hsum]

theorem le_div_of_pow_le {place n : Nat} (hplace : place < 7) (hn : 32 ^ (7 - place) ≤ n) :
    32 ^ (7 - (place + 1)) ≤ n / 32 := by
  rw [show 7 - place = (7 - (place + 1)) + 1 by omega, Nat.pow_succ] at hn
  exact (Nat.le_div_iff_mul_le (by decide)).mpr hn

/-- A number with more digits than seven, those in front of it counted in, is refused. -/
theorem decodeFrom_digits_overflow (n : Nat) {number place : Nat} (rest : List Char)
    (hplace : place ≤ 7) (hn : 32 ^ (7 - place) ≤ n) :
    decodeFrom number place ((digits n).map charOf ++ rest) = .error .overflow := by
  induction n using digits.induct generalizing number place with
  | case1 n hlast =>
      -- a last digit is below 32, so the seven in front of it are already used up
      have hend : 7 ≤ place := by
        rcases Nat.lt_or_ge place 7 with hmore | hend
        · have hnext := le_div_of_pow_le hmore hn
          have hpos : 0 < 32 ^ (7 - (place + 1)) := Nat.pow_pos (by decide)
          omega
        · exact hend
      rw [digits, if_pos hlast]
      simp only [List.map_cons, List.map_nil, List.cons_append, List.nil_append, decodeFrom,
        digit?_charOf (by omega : n < 64), if_pos hend]
  | case2 n hmore ih =>
      rw [digits, if_neg hmore]
      simp only [List.map_cons, List.cons_append, decodeFrom,
        digit?_charOf (by omega : n % 32 + 32 < 64), if_pos (by omega : 32 ≤ n % 32 + 32)]
      by_cases hend : 7 ≤ place
      · rw [if_pos hend]
      · rw [if_neg hend, ih (by omega) (le_div_of_pow_le (by omega) hn)]

/-- The two cut-offs, at seven digits and at 32 bits of magnitude, are one. -/
theorem decodeFrom_number (n : Nat) (rest : List Char) :
    decodeFrom 0 0 ((digits n).map charOf ++ rest) =
      if maxMagnitude < n / 2 then .error .overflow
      else (decodeFrom 0 0 rest).map (signed n :: ·) := by
  by_cases hn : n < 32 ^ 7
  · rw [decodeFrom_digits n rest (by omega) hn, Nat.pow_zero, Nat.mul_one, Nat.zero_add]
  · have hlarge : maxMagnitude < n / 2 := by
      simp only [maxMagnitude, UInt32.size]
      omega
    rw [decodeFrom_digits_overflow n rest (by omega) (by omega), if_pos hlarge]

/-- A value whose double fits a word of 64 bits is the one that its number stands for. -/
theorem signed_unsigned {value : Int} (h : value.natAbs < 2 ^ 63) :
    unsigned value / 2 = value.natAbs ∧ signed (unsigned value) = value := by
  have hdouble : 2 * value.natAbs % UInt64.size = 2 * value.natAbs := by
    apply Nat.mod_eq_of_lt
    simp only [UInt64.size]
    omega
  unfold unsigned signed
  rw [hdouble]
  split <;> split <;> omega

theorem decodeFrom_encodeValue {value : Int} (h : value.natAbs < 2 ^ 63) (rest : List Char) :
    decodeFrom 0 0 (encodeValue value ++ rest) =
      if maxMagnitude < value.natAbs then .error .overflow
      else (decodeFrom 0 0 rest).map (value :: ·) := by
  obtain ⟨hmagnitude, hsigned⟩ := signed_unsigned h
  rw [encodeValue, decodeFrom_number, hmagnitude, hsigned]

/-- A segment gives back the values it was written for. -/
theorem decode_encode {values : List Int} (h : ∀ value ∈ values, value.natAbs ≤ maxMagnitude) :
    decode (encode values) = .ok values := by
  unfold decode encode
  rw [String.toList_ofList]
  induction values with
  | nil => rfl
  | cons value values ih =>
      have hvalue := h value (by simp)
      have hword : value.natAbs < 2 ^ 63 := by
        simp only [maxMagnitude, UInt32.size] at hvalue
        omega
      rw [List.flatMap_cons, decodeFrom_encodeValue hword, if_neg (by omega),
        ih fun other hother => h other (by simp [hother])]
      rfl

theorem mem_alphabet_of_mem_encode {values : List Int} {c : Char}
    (h : c ∈ (encode values).toList) : c ∈ alphabet := by
  unfold encode at h
  rw [String.toList_ofList] at h
  obtain ⟨value, -, hvalue⟩ := List.mem_flatMap.mp h
  obtain ⟨digit, -, rfl⟩ := List.mem_map.mp hvalue
  exact charOf_mem_alphabet digit

theorem encode_cons_ne_nil (value : Int) (values : List Int) :
    (encode (value :: values)).toList ≠ [] := by
  unfold encode encodeValue
  rw [String.toList_ofList, List.flatMap_cons, digits]
  split <;> exact List.cons_ne_nil _ _

/-! ### Words of 64 bits -/

/-- What is left of a word once it is doubled: the least word has only its top bit, and
loses it. -/
def kept (word : Int64) : Int := if word = Int64.minValue then 0 else word.toInt

theorem decodeFrom_encodeValue_word (word : Int64) (rest : List Char) :
    decodeFrom 0 0 (encodeValue word.toInt ++ rest) =
      if maxMagnitude < (kept word).natAbs then .error .overflow
      else (decodeFrom 0 0 rest).map (kept word :: ·) := by
  by_cases hleast : word = Int64.minValue
  · have hnumber : unsigned Int64.minValue.toInt = 1 := by decide
    rw [kept, if_pos hleast, hleast, encodeValue, hnumber, decodeFrom_number]
    rfl
  · have hlow := word.le_toInt
    have hhigh := word.toInt_lt
    have hne : word.toInt ≠ -2 ^ 63 := fun h => hleast (Int64.toInt_inj.mp h)
    rw [kept, if_neg hleast, decodeFrom_encodeValue (by omega)]

theorem maxMagnitude_lt_kept_iff (word : Int64) :
    maxMagnitude < (kept word).natAbs ↔
      word ≠ Int64.minValue ∧ maxMagnitude < word.toInt.natAbs := by
  unfold kept
  split <;> simp_all

/-- Words of 64 bits written into a segment and read back. A word with a magnitude of more
than 32 bits makes the segment overflow, wherever it stands and whatever the others are;
without one every word comes back, and the least word, whose top bit is lost in writing,
as zero. -/
theorem decode_encode_words (words : List Int64) :
    decode (encode (words.map Int64.toInt)) =
      if ∃ word ∈ words, word ≠ Int64.minValue ∧ maxMagnitude < word.toInt.natAbs then
        .error .overflow
      else .ok (words.map fun word => if word = Int64.minValue then 0 else word.toInt) := by
  simp only [← maxMagnitude_lt_kept_iff]
  change decode (encode (words.map Int64.toInt)) =
    if ∃ word ∈ words, maxMagnitude < (kept word).natAbs then .error .overflow
    else .ok (words.map kept)
  unfold decode encode
  rw [String.toList_ofList]
  induction words with
  | nil => rfl
  | cons word words ih =>
      rw [List.map_cons, List.flatMap_cons, decodeFrom_encodeValue_word, ih]
      by_cases hlarge : maxMagnitude < (kept word).natAbs
      · rw [if_pos hlarge, if_pos ⟨word, List.mem_cons_self, hlarge⟩]
      · have hrest : (∃ other ∈ word :: words, maxMagnitude < (kept other).natAbs) ↔
            ∃ other ∈ words, maxMagnitude < (kept other).natAbs := by
          simp [hlarge]
        rw [if_neg hlarge]
        simp only [hrest]
        split <;> rfl

end ModuleCache.Vlq
