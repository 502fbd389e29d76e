import ModuleCache.Json.Value

/-!
Quoted texts read back. Each character of a text is written by itself, as it is or escaped,
and read back by itself; no escape that is written is half of a surrogate pair.
-/

namespace ModuleCache.Json

theorem hexValue?_hexDigit {n : Nat} (h : n < 16) : hexValue? (hexDigit n) = some n := by
  have hall : ∀ n : Fin 16, hexValue? (hexDigit n) = some n.val := by decide
  exact hall ⟨n, h⟩

/-- What a character in a quoted text is read as: a control character without a short
escape is spelled by its code. -/
def spelledAs (c : Char) : Spelled :=
  if c.toNat < 0x20 ∧ c ≠ '\x08' ∧ c ≠ '\x0c' ∧ c ≠ '\n' ∧ c ≠ '\r' ∧ c ≠ '\t' then .unit c.toNat
  else .char c

theorem readSpelled_plain {c : Char} (hquote : c ≠ '"') (hslash : c ≠ '\\')
    (hcontrol : ¬ c.toNat < 0x20) (rest : List Char) :
    readSpelled (c :: rest) =
      (readSpelled rest).map fun (spelled, rest) => (.char c :: spelled, rest) := by
  rw [readSpelled]
  · simp only [hcontrol, hslash, or_self, if_false]
    cases readSpelled rest <;> rfl
  · exact hquote
  · intro a b c' d rest' h
    exact absurd h hslash
  · intro letter rest' h
    exact absurd h hslash

theorem readSpelled_short {letter c : Char} (hletter : letter ≠ 'u')
    (hshort : shortEscape? letter = some c) (rest : List Char) :
    readSpelled ('\\' :: letter :: rest) =
      (readSpelled rest).map fun (spelled, rest) => (.char c :: spelled, rest) := by
  rw [readSpelled]
  · rw [hshort]
    cases readSpelled rest <;> rfl
  · intro a b c' d rest' h
    exact absurd h hletter

theorem readSpelled_code {n : Nat} (h : n < 256) (rest : List Char) :
    readSpelled ('\\' :: 'u' :: '0' :: '0' :: hexDigit (n / 16) :: hexDigit (n % 16) :: rest) =
      (readSpelled rest).map fun (spelled, rest) => (.unit n :: spelled, rest) := by
  have hzero : hexValue? '0' = some 0 := by decide
  have hhigh : hexValue? (hexDigit (n / 16)) = some (n / 16) := hexValue?_hexDigit (by omega)
  have hlow : hexValue? (hexDigit (n % 16)) = some (n % 16) := hexValue?_hexDigit (by omega)
  have hvalue : ((0 * 16 + 0) * 16 + n / 16) * 16 + n % 16 = n := by omega
  rw [readSpelled, hzero, hhigh, hlow]
  simp only [Option.bind_eq_bind, Option.bind_some, hvalue]
  cases readSpelled rest <;> rfl

/-- One character is read back for each that was written. -/
theorem readSpelled_escape (c : Char) (rest : List Char) :
    readSpelled (escape c ++ rest) =
      (readSpelled rest).map fun (spelled, rest) => (spelledAs c :: spelled, rest) := by
  unfold escape
  split
  · exact readSpelled_short (by decide) rfl rest
  · exact readSpelled_short (by decide) rfl rest
  · exact readSpelled_short (by decide) rfl rest
  · exact readSpelled_short (by decide) rfl rest
  · exact readSpelled_short (by decide) rfl rest
  · exact readSpelled_short (by decide) rfl rest
  · exact readSpelled_short (by decide) rfl rest
  · next hquote hslash hback hfeed hline hreturn htab =>
      split
      · next hcontrol =>
          rw [spelledAs, if_pos ⟨hcontrol, hback, hfeed, hline, hreturn, htab⟩]
          exact readSpelled_code (by omega) rest
      · next hplain =>
          rw [spelledAs, if_neg fun h => hplain h.1]
          exact readSpelled_plain hquote hslash hplain rest

theorem spelledText?_spelledAs (c : Char) (spelled : List Spelled) :
    spelledText? (spelledAs c :: spelled) = (spelledText? spelled).map (c :: ·) := by
  unfold spelledAs
  split
  · next hcontrol =>
      have hlow : isLowSurrogate c.toNat = false := by
        simp only [isLowSurrogate, Bool.and_eq_false_imp, decide_eq_true_eq,
          decide_eq_false_iff_not]
        omega
      have hhigh : isHighSurrogate c.toNat = false := by
        simp only [isHighSurrogate, Bool.and_eq_false_imp, decide_eq_true_eq,
          decide_eq_false_iff_not]
        omega
      rw [spelledText?.eq_def]
      simp [hlow, hhigh, Char.ofNat_toNat]
  · rw [spelledText?]

theorem readSpelled_flatMap (cs rest : List Char) :
    readSpelled (cs.flatMap escape ++ '"' :: rest) = some (cs.map spelledAs, rest) := by
  induction cs with
  | nil => rfl
  | cons c cs ih => rw [List.flatMap_cons, List.append_assoc, readSpelled_escape, ih]; rfl

theorem spelledText?_map (cs : List Char) : spelledText? (cs.map spelledAs) = some cs := by
  induction cs with
  | nil => rfl
  | cons c cs ih => rw [List.map_cons, spelledText?_spelledAs, ih]; rfl

/-- A quoted text is read back as the text. -/
theorem readText_quoted (text : String) (rest : List Char) :
    readText (text.toList.flatMap escape ++ '"' :: rest) = some (some text, rest) := by
  rw [readText, readSpelled_flatMap]
  simp only [Option.bind_eq_bind, Option.bind_some, spelledText?_map, Option.map_some,
    String.ofList_toList]
  rfl

end ModuleCache.Json
