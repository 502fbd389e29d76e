import ModuleCache.Proofs.Vlq.Groups

/-!
Segments read in machine words. The digits of a value are put together in an unsigned word of 64
bits, and the value is a signed one. The reader of this module stops wherever a word would not be
what it should: where a digit loses a bit or falls on one that is there already, where the digits
take more than 35 bits, and where a magnitude has no signed word or that has no negative. Main
statement: it never stops, and it reads every segment as unbounded numbers do.
-/

namespace ModuleCache.Vlq

/-- Puts a digit above the digits in a word. Nothing comes out unless the shift keeps every bit,
the bits meet no others and all of them are below the 35th. -/
def stack? (number digit : UInt64) (shift : UInt32) : Option UInt64 :=
  let shifted := digit <<< shift.toUInt64
  let stacked := number ||| shifted
  if shifted.toNat = digit.toNat * 2 ^ shift.toNat ∧
      stacked.toNat = number.toNat + shifted.toNat ∧ stacked.toNat < 2 ^ 35 then
    some stacked
  else none

/-- The word as a signed one, unless its top bit becomes the sign. -/
def signedWord? (word : UInt64) : Option Int64 :=
  if word.toNat < 2 ^ 63 then some word.toInt64 else none

/-- The negative of a word. The least one has none. -/
def negative? (word : Int64) : Option Int64 :=
  if word = Int64.minValue then none else some (-word)

/-- The value that the digits in a word stand for, unless it is refused for its magnitude. -/
def wordValue? (number : UInt64) : Option (Except Error Int64) := do
  let magnitude ← signedWord? (number >>> 1)
  if Int64.ofNat maxMagnitude < magnitude then some (.error .overflow)
  else
    let value ← if number &&& 1 = 1 then negative? magnitude else some magnitude
    some (.ok value)

/-- Reads the rest of a segment, where `number` holds the digits of the current value and the next
one is shifted by `shift`. -/
def readWords (number : UInt64) (shift : UInt32) (pending : Bool) :
    List Char → Option (Except Error (List Int64))
  | [] => some (if pending then .error .truncated else .ok [])
  | c :: cs =>
    match digit? c with
    | none => some (.error (.invalidChar (leadChar c)))
    | some digit =>
      if 32 < shift then some (.error .overflow)
      else
        match stack? number (UInt64.ofNat digit &&& 31) shift with
        | none => none
        | some number =>
          if UInt64.ofNat digit &&& 32 = 32 then readWords number (shift + 5) true cs
          else
            match wordValue? number with
            | none => none
            | some (.error e) => some (.error e)
            | some (.ok value) => (readWords 0 0 false cs).map (·.map (value :: ·))

/-! ### One digit -/

theorem bits_of_digit {digit : Nat} (h : digit < 64) :
    (UInt64.ofNat digit &&& 31).toNat = digit % 32 ∧
      (UInt64.ofNat digit &&& 32 = 32 ↔ 32 ≤ digit) := by
  have hall : ∀ d < 64, (UInt64.ofNat d &&& 31).toNat = d % 32 ∧
      (UInt64.ofNat d &&& 32 = 32 ↔ 32 ≤ d) := by decide +kernel
  exact hall digit h

/-- Digits that fill all places below leave room for one more. -/
theorem stack?_eq {number : UInt64} (digit : UInt64) {shift : UInt32} {place : Nat}
    (hshift : shift.toNat = 5 * place) (hplace : place < 7) (hnumber : number.toNat < 32 ^ place)
    (hdigit : digit.toNat < 32) :
    ∃ stacked, stack? number digit shift = some stacked ∧
      stacked.toNat = number.toNat + digit.toNat * 32 ^ place ∧
      stacked.toNat < 32 ^ (place + 1) := by
  have hpow : 2 ^ shift.toNat = 32 ^ place := by rw [hshift, Nat.pow_mul]
  have hroom : number.toNat + digit.toNat * 32 ^ place < 32 ^ (place + 1) := by
    have hdigits : (digit.toNat + 1) * 32 ^ place ≤ 32 * 32 ^ place :=
      Nat.mul_le_mul_right _ hdigit
    rw [Nat.pow_succ]
    rw [Nat.add_mul] at hdigits
    omega
  have hword : 32 ^ (place + 1) ≤ 2 ^ 35 :=
    Nat.pow_le_pow_right (by decide) (show place + 1 ≤ 7 by omega)
  have hshifted : (digit <<< shift.toUInt64).toNat = digit.toNat * 32 ^ place := by
    rw [UInt64.toNat_shiftLeft, UInt32.toNat_toUInt64,
      Nat.mod_eq_of_lt (show shift.toNat < 64 by omega), Nat.shiftLeft_eq, hpow,
      Nat.mod_eq_of_lt (by omega)]
  have hstacked : (number ||| digit <<< shift.toUInt64).toNat =
      number.toNat + digit.toNat * 32 ^ place := by
    have hbelow : number.toNat < 2 ^ shift.toNat := hpow ▸ hnumber
    rw [UInt64.toNat_or, hshifted, ← hpow, Nat.or_comm, Nat.mul_comm,
      ← Nat.two_pow_add_eq_or_of_lt hbelow, Nat.add_comm]
  have hkept : (digit <<< shift.toUInt64).toNat = digit.toNat * 2 ^ shift.toNat ∧
      (number ||| digit <<< shift.toUInt64).toNat =
        number.toNat + (digit <<< shift.toUInt64).toNat ∧
      (number ||| digit <<< shift.toUInt64).toNat < 2 ^ 35 := by
    rw [hstacked, hshifted, hpow]
    exact ⟨rfl, rfl, by omega⟩
  exact ⟨_, if_pos hkept, hstacked, by omega⟩

/-! ### One value -/

theorem toInt_signedWord (word : UInt64) (h : word.toNat < 2 ^ 63) :
    signedWord? word = some word.toInt64 ∧ word.toInt64.toInt = word.toNat := by
  refine ⟨if_pos h, ?_⟩
  exact BitVec.toInt_eq_toNat_of_lt (by simpa using (by omega : 2 * word.toNat < 2 ^ 64))

theorem toInt_negative (word : Int64) (h : 0 ≤ word.toInt) :
    negative? word = some (-word) ∧ (-word).toInt = -word.toInt := by
  have hne : word ≠ Int64.minValue := by
    rintro rfl
    exact absurd h (by decide)
  have hlt := word.toInt_lt
  refine ⟨if_neg hne, ?_⟩
  rw [Int64.toInt_neg, Int.bmod_eq_of_le] <;> omega

theorem wordValue?_eq {number : UInt64} (h : number.toNat < 2 ^ 35) :
    (wordValue? number).map (·.map Int64.toInt) =
      some (if maxMagnitude < number.toNat / 2 then .error .overflow
        else .ok (signed number.toNat)) := by
  have hhalf : (number >>> 1).toNat = number.toNat / 2 := by
    rw [UInt64.toNat_shiftRight]
    simp [Nat.shiftRight_eq_div_pow]
  obtain ⟨hsigned, hmagnitude⟩ := toInt_signedWord (number >>> 1) (by omega)
  have hlimit : Int64.ofNat maxMagnitude < (number >>> 1).toInt64 ↔
      maxMagnitude < number.toNat / 2 := by
    have hword : (Int64.ofNat maxMagnitude).toInt = maxMagnitude := by decide
    rw [Int64.lt_iff_toInt_lt, hmagnitude, hword, hhalf]
    omega
  have hodd : number &&& 1 = 1 ↔ number.toNat % 2 = 1 := by
    rw [← UInt64.toNat_inj, UInt64.toNat_and]
    simp [Nat.and_one_is_mod]
  unfold wordValue?
  rw [hsigned]
  simp only [Option.bind_eq_bind, Option.bind_some, hlimit, hodd]
  by_cases hlarge : maxMagnitude < number.toNat / 2
  · rw [if_pos hlarge, if_pos hlarge]
    rfl
  · rw [if_neg hlarge, if_neg hlarge]
    unfold signed
    by_cases hsign : number.toNat % 2 = 1
    · obtain ⟨hnegative, hvalue⟩ := toInt_negative (number >>> 1).toInt64 (by omega)
      rw [if_pos hsign, if_pos hsign, hnegative, Option.bind_some, ← hhalf, ← hmagnitude, ← hvalue]
      rfl
    · rw [if_neg hsign, if_neg hsign, ← hhalf, ← hmagnitude]
      rfl

/-! ### Whole segments -/

/-- The reader in words never stops, and the words that it reads stand for the values that are
read in unbounded numbers. -/
theorem readWords_eq (number : UInt64) (shift : UInt32) (place : Nat)
    (hshift : shift.toNat = 5 * place) (hplace : place ≤ 7) (hnumber : number.toNat < 32 ^ place)
    (cs : List Char) :
    (readWords number shift (place ≠ 0) cs).map (·.map (·.map Int64.toInt)) =
      some (decodeFrom number.toNat place cs) := by
  induction cs generalizing number shift place with
  | nil =>
      by_cases hstart : place = 0
      · simp [readWords, decodeFrom, hstart, Except.map]
      · simp [readWords, decodeFrom, hstart, Except.map]
  | cons c cs ih =>
      rw [readWords, decodeFrom]
      cases hc : digit? c with
      | none => rfl
      | some digit =>
          obtain ⟨hbits, hmore⟩ := bits_of_digit (charOf_of_digit? hc).1
          have hfull : 32 < shift ↔ 7 ≤ place := by
            rw [UInt32.lt_iff_toNat_lt, hshift]
            change 32 < 5 * place ↔ 7 ≤ place
            omega
          simp only [hfull, hmore, Nat.pow_eq]
          -- the eighth digit is refused before it is shifted, so 35 bits are enough
          by_cases hend : 7 ≤ place
          · rw [if_pos hend, if_pos hend]
            rfl
          · obtain ⟨stacked, hstack, hsum, hlt⟩ := stack?_eq (UInt64.ofNat digit &&& 31) hshift
              (by omega) hnumber (by omega)
            have hbelow : stacked.toNat < 2 ^ 35 := Nat.lt_of_lt_of_le hlt
              (Nat.pow_le_pow_right (by decide) (show place + 1 ≤ 7 by omega))
            rw [hbits] at hsum
            rw [if_neg hend, if_neg hend, hstack, ← hsum]
            by_cases hgoesOn : 32 ≤ digit
            · have hnext : (shift + 5).toNat = 5 * (place + 1) := by
                rw [UInt32.toNat_add, hshift]
                change (5 * place + 5) % 2 ^ 32 = _
                omega
              simpa [hgoesOn] using ih stacked (shift + 5) (place + 1) hnext (by omega) hlt
            · simp only [if_neg hgoesOn]
              obtain ⟨value, hone, hvalue⟩ := Option.map_eq_some_iff.mp (wordValue?_eq hbelow)
              rw [hone]
              by_cases hlarge : maxMagnitude < stacked.toNat / 2
              · rw [if_pos hlarge] at hvalue ⊢
                rw [map_eq_error.mp hvalue]
                rfl
              · rw [if_neg hlarge] at hvalue ⊢
                obtain ⟨word, rfl, hword⟩ := map_eq_ok.mp hvalue
                obtain ⟨later, hlater, hrest⟩ := Option.map_eq_some_iff.mp
                  (ih 0 0 0 rfl (by omega) (by decide))
                have hread : readWords 0 0 false cs = some later := hlater
                have hvalues : later.map (·.map Int64.toInt) = decodeFrom 0 0 cs := hrest
                simp only [hread]
                rw [← hword, ← hvalues]
                cases later <;> rfl

end ModuleCache.Vlq
