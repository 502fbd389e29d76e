import Mathlib.Data.List.Forall2
import Mathlib.Tactic.Ring
import ModuleCache.Proofs.Result
import ModuleCache.Proofs.Vlq

/-!
Segments cut into groups of characters, one group for each value. Every group is read on its
own, so what stands behind a complete segment is read as if nothing stood in front of it. A
value has more than one group that is read as it: zeros can be added behind its digits, and
zero can have a sign. Written again, each value gets the shortest of its groups.
-/

namespace ModuleCache.Vlq

/-! ### One character -/

section Step

variable {number place digit : Nat} {c : Char} (cs : List Char)

theorem decodeFrom_more (hdigit : digit? c = some digit) (hplace : ¬7 ≤ place)
    (hmore : 32 ≤ digit) :
    decodeFrom number place (c :: cs) =
      decodeFrom (number + digit % 32 * 32 ^ place) (place + 1) cs := by
  rw [decodeFrom, hdigit]
  simp only [if_neg hplace, if_pos hmore, Nat.pow_eq]

theorem decodeFrom_last (hdigit : digit? c = some digit) (hplace : ¬7 ≤ place)
    (hlast : ¬32 ≤ digit) :
    decodeFrom number place (c :: cs) =
      if maxMagnitude < (number + digit % 32 * 32 ^ place) / 2 then .error .overflow
      else (decodeFrom 0 0 cs).map (signed (number + digit % 32 * 32 ^ place) :: ·) := by
  rw [decodeFrom, hdigit]
  simp only [if_neg hplace, if_neg hlast, Nat.pow_eq]

end Step

/-! ### What stands behind a segment -/

theorem map_cons_append (value : Int) (values : List Int) (x : Except Error (List Int)) :
    (x.map (values ++ ·)).map (value :: ·) = x.map ((value :: values) ++ ·) := by
  cases x <;> rfl

/-- Behind values that are complete, reading starts afresh. -/
theorem decodeFrom_append_of_ok {number place : Nat} {front : List Char} {values : List Int}
    (hfresh : place = 0 → number = 0) (h : decodeFrom number place front = .ok values)
    (back : List Char) :
    decodeFrom number place (front ++ back) = (decodeFrom 0 0 back).map (values ++ ·) := by
  revert values
  fun_induction decodeFrom number place front with
  | case1 number =>
      rintro values ⟨⟩
      rw [hfresh rfl, List.nil_append]
      cases decodeFrom 0 0 back <;> rfl
  | case2 => rintro values ⟨⟩
  | case3 => rintro values ⟨⟩
  | case4 => rintro values ⟨⟩
  | case5 number place c front digit hdigit hplace next hmore ih =>
      intro values h
      rw [List.cons_append, decodeFrom_more _ hdigit hplace hmore]
      exact ih (by omega) h
  | case6 => rintro values ⟨⟩
  | case7 number place c front digit hdigit hplace next hlast hfits ih =>
      intro values h
      obtain ⟨later, hlater, rfl⟩ := map_eq_ok.mp h
      rw [List.cons_append, decodeFrom_last _ hdigit hplace hlast]
      refine (if_neg hfits).trans ?_
      rw [ih (fun _ => rfl) hlater, map_cons_append]
      rfl

/-- A segment that is refused stays refused, except where only its end was missing. -/
theorem decodeFrom_append_of_error {number place : Nat} {front : List Char} {e : Error}
    (hwhole : e ≠ .truncated) (h : decodeFrom number place front = .error e)
    (back : List Char) : decodeFrom number place (front ++ back) = .error e := by
  fun_induction decodeFrom number place front with
  | case1 => cases h
  | case2 => exact absurd (Except.error.inj h).symm hwhole
  | case3 number place c front hdigit =>
      rw [List.cons_append, decodeFrom, hdigit]
      exact h
  | case4 number place c front digit hdigit hplace =>
      rw [List.cons_append, decodeFrom, hdigit]
      simp only [if_pos hplace]
      exact h
  | case5 number place c front digit hdigit hplace next hmore ih =>
      rw [List.cons_append, decodeFrom_more _ hdigit hplace hmore]
      exact ih h
  | case6 number place c front digit hdigit hplace next hlast hlarge =>
      rw [List.cons_append, decodeFrom_last _ hdigit hplace hlast]
      exact (if_pos hlarge).trans h
  | case7 number place c front digit hdigit hplace next hlast hfits ih =>
      rw [List.cons_append, decodeFrom_last _ hdigit hplace hlast]
      refine (if_neg hfits).trans ?_
      rw [map_eq_error] at h ⊢
      exact ih h

/-! ### Groups -/

/-- The character closes a group: it stands for a digit without the continuation bit. -/
def closes (c : Char) : Bool := (digit? c).any (· < 32)

/-- The groups of a segment. Each character that closes a group is the last of its own. -/
def groups : List Char → List (List Char)
  | [] => []
  | c :: cs =>
    if closes c then [c] :: groups cs
    else
      match groups cs with
      | [] => [[c]]
      | group :: later => (c :: group) :: later

theorem flatten_groups (cs : List Char) : (groups cs).flatten = cs := by
  induction cs with
  | nil => rfl
  | cons c cs ih =>
      rw [groups]
      split
      · rw [List.flatten_cons, ih]
        rfl
      · split
        · next hnone =>
            rw [hnone] at ih
            rw [← ih]
            rfl
        · next group later hsome =>
            rw [hsome] at ih
            rw [← ih]
            rfl

/-- The characters are a group with the number `number`: its digits in base 32, the lowest
first, and perhaps zeros behind them, each but the last with the continuation bit. -/
inductive Spells : List Char → Nat → Prop
  | last {c : Char} {digit : Nat} (hdigit : digit? c = some digit) (hlast : digit < 32) :
      Spells [c] digit
  | more {c : Char} {cs : List Char} {digit number : Nat} (hdigit : digit? c = some digit)
      (hmore : 32 ≤ digit) (hrest : Spells cs number) :
      Spells (c :: cs) (digit % 32 + 32 * number)

theorem Spells.ne_nil {group : List Char} {number : Nat} (h : Spells group number) :
    group ≠ [] := by
  cases h <;> exact List.cons_ne_nil _ _

theorem groups_append {group : List Char} {number : Nat} (h : Spells group number)
    (rest : List Char) : groups (group ++ rest) = group :: groups rest := by
  induction h with
  | last hdigit hlast =>
      rw [List.cons_append, List.nil_append, groups, if_pos (by simp [closes, hdigit, hlast])]
  | more hdigit hmore hrest ih =>
      rw [List.cons_append, groups, if_neg (by simp [closes, hdigit, hmore]), ih]

/-- A text that is read begins with a group, and the rest is read on its own. -/
theorem exists_group {number place : Nat} {cs : List Char} {values : List Int}
    (hmore : cs ≠ [] ∨ place ≠ 0) (h : decodeFrom number place cs = .ok values) :
    ∃ group rest n later, cs = group ++ rest ∧ Spells group n ∧
      (number + n * 32 ^ place) / 2 ≤ maxMagnitude ∧
      values = signed (number + n * 32 ^ place) :: later ∧ decodeFrom 0 0 rest = .ok later := by
  revert values
  fun_induction decodeFrom number place cs with
  | case1 => exact absurd rfl (hmore.resolve_left (absurd rfl))
  | case2 => rintro values ⟨⟩
  | case3 => rintro values ⟨⟩
  | case4 => rintro values ⟨⟩
  | case5 number place c cs digit hdigit hplace next hcontinues ih =>
      intro values h
      obtain ⟨group, rest, n, later, rfl, hspells, hfits, rfl, hrest⟩ := ih (.inr (by omega)) h
      have hnumber : next + n * 32 ^ (place + 1) =
          number + (digit % 32 + 32 * n) * 32 ^ place := by
        simp only [next, Nat.pow_eq]
        ring
      rw [hnumber] at hfits ⊢
      exact ⟨c :: group, rest, _, later, rfl, .more hdigit hcontinues hspells, hfits, rfl, hrest⟩
  | case6 => rintro values ⟨⟩
  | case7 number place c cs digit hdigit hplace next hlast hfits ih =>
      intro values h
      obtain ⟨later, hlater, rfl⟩ := map_eq_ok.mp h
      have hnext : next = number + digit * 32 ^ place := by
        simp only [next, Nat.pow_eq, Nat.mod_eq_of_lt (by omega : digit < 32)]
      rw [hnext] at hfits ⊢
      exact ⟨[c], cs, digit, later, rfl, .last hdigit (by omega), by omega, rfl, hlater⟩

/-- The group is read as the value. -/
def Reads (group : List Char) (value : Int) : Prop :=
  ∃ number, Spells group number ∧ number / 2 ≤ maxMagnitude ∧ signed number = value

/-- The values of a text that is read are those of its groups, one after the other. -/
theorem reads_groups {cs : List Char} {values : List Int} (h : decodeFrom 0 0 cs = .ok values) :
    List.Forall₂ Reads (groups cs) values := by
  induction hlength : cs.length using Nat.strongRecOn generalizing cs values with
  | ind length ih =>
      by_cases hempty : cs = []
      · rw [hempty] at h ⊢
        rw [← Except.ok.inj h]
        exact .nil
      · obtain ⟨group, rest, n, later, rfl, hspells, hfits, rfl, hrest⟩ :=
          exists_group (.inl hempty) h
        have hshorter : rest.length < length := by
          have hgroup := List.length_pos_iff.mpr hspells.ne_nil
          rw [List.length_append] at hlength
          omega
        simp only [Nat.zero_add, Nat.pow_zero, Nat.mul_one] at hfits ⊢
        rw [groups_append hspells]
        exact .cons ⟨n, hspells, hfits, rfl⟩ (ih _ hshorter hrest rfl)

theorem natAbs_signed (number : Nat) : (signed number).natAbs = number / 2 := by
  unfold signed
  split <;> omega

theorem Reads.natAbs_le {group : List Char} {value : Int} (h : Reads group value) :
    value.natAbs ≤ maxMagnitude := by
  obtain ⟨number, -, hfits, rfl⟩ := h
  rwa [natAbs_signed]

/-! ### The shortest group -/

/-- A group of several digits that ends in the digit zero. -/
def IsPadded (group : List Char) : Prop := 2 ≤ group.length ∧ group.getLast? = some 'A'

/-- The group that is a sign without a magnitude. -/
def negativeZero : List Char := ['B']

theorem charOf_of_digit? {c : Char} {digit : Nat} (h : digit? c = some digit) :
    digit < 64 ∧ charOf digit = c := by
  obtain ⟨hlength, hat, -⟩ := List.idxOf?_eq_some_iff.mp h
  refine ⟨hlength, ?_⟩
  rw [charOf, List.getD_eq_getElem?_getD, List.getElem?_eq_getElem hlength, hat]
  rfl

theorem spells_digits (number : Nat) : Spells ((digits number).map charOf) number := by
  induction number using digits.induct with
  | case1 number hlast =>
      rw [digits, if_pos hlast]
      exact .last (digit?_charOf (by omega)) hlast
  | case2 number hmore ih =>
      have hnumber : (number % 32 + 32) % 32 + 32 * (number / 32) = number := by omega
      have hspells := Spells.more (digit?_charOf (by omega : number % 32 + 32 < 64)) (by omega) ih
      rw [hnumber] at hspells
      rw [digits, if_neg hmore]
      exact hspells

theorem digit?_zero : digit? 'A' = some 0 := by decide

/-- A group for zero ends in the digit zero. -/
theorem getLast?_of_spells_zero {group : List Char} {number : Nat} (h : Spells group number)
    (hzero : number = 0) : group.getLast? = some 'A' := by
  induction h with
  | last hdigit hlast =>
      rw [hzero] at hdigit
      rw [← (charOf_of_digit? hdigit).2]
      rfl
  | more hdigit hmore hrest ih =>
      rw [List.getLast?_cons, ih (by omega)]
      rfl

/-- With a digit in front, a group for another number than zero is padded if it was before. -/
theorem isPadded_cons_iff {c : Char} {cs : List Char} {number : Nat} (h : Spells cs number)
    (hne : number ≠ 0) : IsPadded (c :: cs) ↔ IsPadded cs := by
  obtain ⟨last, hlast⟩ := Option.ne_none_iff_exists'.mp (mt List.getLast?_eq_none_iff.mp h.ne_nil)
  have hsame : (c :: cs).getLast? = cs.getLast? := by
    rw [List.getLast?_cons, hlast]
    rfl
  unfold IsPadded
  rw [hsame]
  cases h with
  | @last own digit hdigit hsmall =>
      have hown : own ≠ 'A' := by
        rintro rfl
        exact hne (Option.some.inj (hdigit.symm.trans digit?_zero))
      simp [hown]
  | more hdigit hmore hrest =>
      have hrest := List.length_pos_iff.mpr hrest.ne_nil
      simp only [List.length_cons]
      constructor
      · rintro ⟨-, h⟩
        exact ⟨by omega, h⟩
      · rintro ⟨-, h⟩
        exact ⟨by omega, h⟩

/-- The digits of a number are its shortest group: the group itself, unless it is padded. -/
theorem digits_of_spells {group : List Char} {number : Nat} (h : Spells group number) :
    (digits number).length ≤ group.length ∧
      ((digits number).map charOf = group ↔ ¬IsPadded group) := by
  induction h with
  | @last c digit hdigit hlast =>
      rw [digits, if_pos hlast]
      simp [IsPadded, (charOf_of_digit? hdigit).2]
  | @more c cs digit number hdigit hmore hrest ih =>
      have hnonempty := List.length_pos_iff.mpr hrest.ne_nil
      obtain ⟨hdigit64, hcharOf⟩ := charOf_of_digit? hdigit
      by_cases hzero : number = 0
      · -- the digit alone is enough
        have hpadded : IsPadded (c :: cs) := by
          refine ⟨by simp only [List.length_cons]; omega, ?_⟩
          rw [List.getLast?_cons, getLast?_of_spells_zero hrest hzero]
          rfl
        rw [hzero, digits, if_pos (by omega)]
        refine ⟨by simp, ?_⟩
        simp only [hpadded, not_true_eq_false, iff_false]
        intro heq
        have hlength := congrArg List.length heq
        simp only [List.map_cons, List.map_nil, List.length_cons, List.length_nil] at hlength
        omega
      · have hmod : (digit % 32 + 32 * number) % 32 + 32 = digit := by omega
        have hdiv : (digit % 32 + 32 * number) / 32 = number := by omega
        rw [digits, if_neg (by omega), hmod, hdiv, isPadded_cons_iff hrest hzero, ← ih.2]
        refine ⟨by simpa using ih.1, ?_⟩
        rw [List.map_cons, hcharOf, List.cons_inj_right]

/-- The number that a value is written as is the one that it was read from, but zero gets no
sign. -/
theorem unsigned_signed {number : Nat} (h : number / 2 ≤ maxMagnitude) :
    unsigned (signed number) = if number = 1 then 0 else number := by
  have hdouble : 2 * (number / 2) % UInt64.size = 2 * (number / 2) := by
    apply Nat.mod_eq_of_lt
    simp only [maxMagnitude, UInt32.size] at h
    simp only [UInt64.size]
    omega
  rw [unsigned, natAbs_signed, hdouble, signed]
  split <;> split <;> split <;> omega

theorem spells_negativeZero_iff {number : Nat} : Spells negativeZero number ↔ number = 1 := by
  constructor
  · intro h
    cases h with
    | last hdigit hlast => exact (Option.some.inj hdigit).symm
    | more hdigit hmore hrest => exact absurd rfl hrest.ne_nil
  · rintro rfl
    exact .last (by decide) (by decide)

/-- A value that was read from a group is written as a group that is no longer, and as the
same one if that has no padding and is no negative zero. -/
theorem encodeValue_of_reads {group : List Char} {value : Int} (h : Reads group value) :
    (encodeValue value).length ≤ group.length ∧
      (encodeValue value = group ↔ ¬IsPadded group ∧ group ≠ negativeZero) := by
  obtain ⟨number, hspells, hfits, rfl⟩ := h
  obtain ⟨hlength, heq⟩ := digits_of_spells hspells
  rw [encodeValue, unsigned_signed hfits]
  by_cases hone : number = 1
  · subst hone
    have hdigits : (digits 0).map charOf = ['A'] := by decide +kernel
    have hnegative : (digits 1).map charOf = negativeZero := by decide +kernel
    rw [if_pos rfl, hdigits]
    refine ⟨List.length_pos_iff.mpr hspells.ne_nil, ?_⟩
    rw [hnegative] at heq
    constructor
    · rintro rfl
      have hplain : ¬IsPadded ['A'] := by simp [IsPadded]
      exact absurd (heq.mpr hplain) (by decide)
    · rintro ⟨hplain, hne⟩
      exact absurd (heq.mpr hplain).symm hne
  · rw [if_neg hone, List.length_map, heq]
    refine ⟨hlength, fun hplain => ⟨hplain, ?_⟩, And.left⟩
    rintro rfl
    exact hone (spells_negativeZero_iff.mp hspells)

theorem spells_encodeValue (value : Int) : Spells (encodeValue value) (unsigned value) :=
  spells_digits _

theorem groups_encode (values : List Int) :
    groups (encode values).toList = values.map encodeValue := by
  rw [encode, String.toList_ofList]
  induction values with
  | nil => rfl
  | cons value values ih =>
      rw [List.flatMap_cons, groups_append (spells_encodeValue value), ih, List.map_cons]

/-- What is written is the segment exactly if each value is written as its group there. -/
theorem encode_eq_iff {segment : String} {values : List Int} :
    encode values = segment ↔ values.map encodeValue = groups segment.toList := by
  rw [← groups_encode]
  constructor
  · rintro rfl
    rfl
  · intro h
    rw [← String.toList_inj, ← flatten_groups (encode values).toList, h, flatten_groups]

theorem natAbs_le_of_reads {gs : List (List Char)} {values : List Int}
    (h : List.Forall₂ Reads gs values) : ∀ value ∈ values, value.natAbs ≤ maxMagnitude := by
  induction h with
  | nil => exact List.forall_mem_nil _
  | cons hreads _ ih => exact List.forall_mem_cons.mpr ⟨hreads.natAbs_le, ih⟩

theorem length_encode_le {gs : List (List Char)} {values : List Int}
    (h : List.Forall₂ Reads gs values) : (encode values).length ≤ gs.flatten.length := by
  rw [encode, String.length_ofList]
  induction h with
  | nil => exact Nat.le_refl _
  | cons hreads _ ih =>
      rw [List.flatMap_cons, List.flatten_cons, List.length_append, List.length_append]
      exact Nat.add_le_add (encodeValue_of_reads hreads).1 ih

theorem map_encodeValue_eq_iff {gs : List (List Char)} {values : List Int}
    (h : List.Forall₂ Reads gs values) :
    values.map encodeValue = gs ↔ ∀ group ∈ gs, ¬IsPadded group ∧ group ≠ negativeZero := by
  induction h with
  | nil => simp
  | cons hreads _ ih =>
      rw [List.map_cons, List.cons.injEq, (encodeValue_of_reads hreads).2, ih,
        List.forall_mem_cons]

/-- A segment that is read is read the same in front of any text, and what stands behind it on
its own. Its values fit into 32 bits, and written again they are read as they are. What is
written is never longer than the segment, and it is the segment itself exactly if no group of
that is padded and none is a negative zero. A segment that is refused, other than for want of
its end, is refused in front of any text for the same reason. -/
theorem decode_cases (segment : String) :
    match decode segment with
    | .ok values =>
      (∀ rest : String, decode (segment ++ rest) = (decode rest).map (values ++ ·)) ∧
        (∀ value ∈ values, value.natAbs ≤ maxMagnitude) ∧
        decode (encode values) = .ok values ∧
        (encode values).length ≤ segment.length ∧
        (encode values = segment ↔
          ∀ group ∈ groups segment.toList, ¬IsPadded group ∧ group ≠ negativeZero)
    | .error e => e ≠ .truncated → ∀ rest : String, decode (segment ++ rest) = .error e := by
  cases h : decode segment with
  | error e =>
      intro hwhole rest
      rw [decode, String.toList_append]
      exact decodeFrom_append_of_error hwhole h rest.toList
  | ok values =>
      have hreads := reads_groups h
      have hfits := natAbs_le_of_reads hreads
      refine ⟨?_, hfits, decode_encode hfits, ?_, ?_⟩
      · intro rest
        rw [decode, String.toList_append]
        exact decodeFrom_append_of_ok (fun _ => rfl) h rest.toList
      · rw [← String.length_toList (s := segment), ← flatten_groups segment.toList]
        exact length_encode_le hreads
      · rw [encode_eq_iff, map_encodeValue_eq_iff hreads]

/-- Zero twice, once with padding and once with a sign: both are lost when it is written again,
and a value behind them is read as it would be alone. -/
theorem padded_zeros_shortened :
    decode "gAB" = .ok [0, 0] ∧ decode ("gAB" ++ "D") = .ok [0, 0, -1] ∧
      decode (encode [0, 0]) = .ok [0, 0] ∧ (encode [0, 0]).length ≤ 3 ∧
      encode [0, 0] ≠ "gAB" := by
  have hvalues : decode "gAB" = .ok [0, 0] := by rfl
  have hcases := decode_cases "gAB"
  rw [hvalues] at hcases
  obtain ⟨happend, -, hagain, hlength, hsame⟩ := hcases
  have hlater : decode "D" = .ok [-1] := by rfl
  refine ⟨hvalues, ?_, hagain, hlength, ?_⟩
  · rw [happend, hlater]
    rfl
  · intro h
    have hgroup : ['g', 'A'] ∈ groups "gAB".toList := by decide
    exact (hsame.mp h _ hgroup).1 ⟨by decide, rfl⟩

end ModuleCache.Vlq
