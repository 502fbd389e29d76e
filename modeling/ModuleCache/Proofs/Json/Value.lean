import ModuleCache.Proofs.Json.Text

/-!
Written values read back. A form is read as a value whatever follows it in a document, and
the bound on nested readers that a document starts with is enough for every form in it:
each reader on the way has at least twice as much left as the form it reads has characters.
-/

namespace ModuleCache.Json

/-- Forms with commas between them. -/
def joined (forms : List (List Char)) : List Char := (forms.intersperse [',']).flatten

/-- What stands behind a value: the end of the document, or of the array or object, or a
comma. -/
def Closes (rest : List Char) : Prop := ∀ c ∈ rest.head?, c = ',' ∨ c = ']' ∨ c = '\x7d'

/-- The form is read as the value, and as no end of an array. -/
structure Writes (form : List Char) (value : Value) : Prop where
  starts : ∃ c cs, form = c :: cs ∧ c ∉ [' ', '\n', '\t', '\r', ']']
  reads : ∀ n rest, 2 * form.length ≤ n → Closes rest →
    readValue n (form ++ rest) = some (value, rest)

theorem skipBlanks_cons {c : Char} (h : c ∉ [' ', '\n', '\t', '\r']) (cs : List Char) :
    skipBlanks (c :: cs) = c :: cs := by
  unfold skipBlanks
  rw [List.dropWhile_cons_of_neg]
  simpa [not_or, and_assoc] using h

theorem Writes.skipBlanks {form : List Char} {value : Value} (h : Writes form value)
    (rest : List Char) : skipBlanks (form ++ rest) = form ++ rest := by
  obtain ⟨c, cs, rfl, hc⟩ := h.starts
  exact skipBlanks_cons (by simp_all) (cs ++ rest)

theorem joined_cons_cons (form next : List Char) (forms : List (List Char)) :
    joined (form :: next :: forms) = form ++ ',' :: joined (next :: forms) := by
  simp [joined]

/-! ### Texts, `null` and numbers -/

theorem writes_quote (text : String) : Writes (quote text) (.text (some text)) where
  starts := ⟨'"', _, rfl, by decide⟩
  reads := by
    intro n rest hn _
    obtain ⟨bound, rfl⟩ : ∃ bound, n = bound + 1 := ⟨n - 1, by simp [quote] at hn; omega⟩
    have hread := readText_quoted text rest
    rw [readValue, quote, List.cons_append, skipBlanks_cons (by decide), List.append_assoc]
    simp only [List.singleton_append, hread, Option.map_some]

theorem writes_null : Writes "null".toList .null where
  starts := ⟨'n', _, rfl, by decide⟩
  reads := by
    intro n rest hn _
    obtain ⟨bound, rfl⟩ : ∃ bound, n = bound + 1 := ⟨n - 1, by simp at hn; omega⟩
    rw [readValue]
    rfl

theorem isDigit_of_closes {c : Char} {rest : List Char} (h : Closes (c :: rest)) :
    c.isDigit = false ∧ c ≠ '.' ∧ c ≠ 'e' ∧ c ≠ 'E' := by
  rcases h c rfl with rfl | rfl | rfl <;> decide

/-- A number of one digit ends where something else follows. -/
theorem readNumber_digit {d : Char} (hdigit : d.isDigit = true) (hsign : d ≠ '-')
    {rest : List Char} (h : Closes rest) : readNumber (d :: rest) = some ([d], rest) := by
  have hdigits : readDigits (d :: rest) = some ([d], rest) := by
    unfold readDigits
    cases rest with
    | nil => simp [hdigit]
    | cons c rest => simp [hdigit, (isDigit_of_closes h).1]
  have hwhole : readWhole (d :: rest) = some ([d], rest) := by
    simp [readWhole, hdigits]
  have hfraction : readFraction rest = some ([], rest) := by
    unfold readFraction
    split
    · exact absurd rfl (isDigit_of_closes h).2.1
    · rfl
  have hexponent : readExponent rest = some ([], rest) := by
    unfold readExponent
    split
    · next c rest =>
        obtain ⟨-, -, he, hE⟩ := isDigit_of_closes h
        rw [if_neg (by simp [he, hE])]
    · rfl
  unfold readNumber
  split
  rename_i minus cs heq
  split at heq
  · next hcons => exact absurd (List.cons.inj hcons).1 hsign
  · obtain ⟨rfl, rfl⟩ := Prod.mk.inj heq
    simp [hwhole, hfraction, hexponent]

theorem writes_three : Writes ['3'] (.number ['3']) where
  starts := ⟨'3', [], rfl, by decide⟩
  reads := by
    intro n rest hn hrest
    obtain ⟨bound, rfl⟩ : ∃ bound, n = bound + 1 := ⟨n - 1, by simp at hn; omega⟩
    have hread := readNumber_digit (d := '3') (by decide) (by decide) hrest
    rw [readValue, List.singleton_append, skipBlanks_cons (by decide)]
    change (readNumber ('3' :: rest)).map _ = _
    rw [hread]
    rfl

/-! ### Arrays and objects -/

theorem readItems_joined {items : List (List Char × Value)}
    (h : ∀ item ∈ items, Writes item.1 item.2) (hne : items ≠ []) {n : Nat} {rest : List Char}
    (hn : 2 * (joined (items.map (·.1))).length + 1 ≤ n) :
    readItems n (joined (items.map (·.1)) ++ ']' :: rest) = some (items.map (·.2), rest) := by
  induction items generalizing n with
  | nil => exact absurd rfl hne
  | cons item items ih =>
      obtain ⟨bound, rfl⟩ : ∃ bound, n = bound + 1 := ⟨n - 1, by omega⟩
      have hitem := h item (List.mem_cons_self ..)
      cases items with
      | nil =>
          have hform : joined ([item].map (·.1)) = item.1 := by simp [joined]
          rw [hform] at hn ⊢
          have hread := hitem.reads bound (']' :: rest) (by omega) (by simp [Closes])
          rw [readItems, hread]
          simp only [Option.bind_eq_bind, Option.bind_some, skipBlanks_cons (c := ']') (by decide)]
          rfl
      | cons next items =>
          have hform : joined ((item :: next :: items).map (·.1)) =
              item.1 ++ ',' :: joined ((next :: items).map (·.1)) := by
            simp only [List.map_cons, joined_cons_cons]
          rw [hform, List.length_append, List.length_cons] at hn
          rw [hform, List.append_assoc, List.cons_append]
          have hread := hitem.reads bound
            (',' :: (joined ((next :: items).map (·.1)) ++ ']' :: rest)) (by omega)
            (by simp [Closes])
          have hrest := ih (fun item hmem => h item (List.mem_cons_of_mem _ hmem)) (by simp)
            (n := bound) (by omega)
          rw [readItems, hread]
          simp only [Option.bind_eq_bind, Option.bind_some, skipBlanks_cons (c := ',') (by decide),
            hrest, Option.map_some]
          rfl

theorem joined_starts {items : List (List Char × Value)}
    (h : ∀ item ∈ items, Writes item.1 item.2) (hne : items ≠ []) :
    ∃ c cs, joined (items.map (·.1)) = c :: cs ∧ c ∉ [' ', '\n', '\t', '\r', ']'] := by
  cases items with
  | nil => exact absurd rfl hne
  | cons item items =>
      obtain ⟨c, cs, hform, hc⟩ := (h item (List.mem_cons_self ..)).starts
      cases items with
      | nil => exact ⟨c, cs, by simp [joined, hform], hc⟩
      | cons next items =>
          refine ⟨c, cs ++ ',' :: joined ((next :: items).map (·.1)), ?_, hc⟩
          simp only [List.map_cons, joined_cons_cons, hform, List.cons_append]

/-- Forms of values in brackets are read as the array of the values. -/
theorem writes_array {items : List (List Char × Value)}
    (h : ∀ item ∈ items, Writes item.1 item.2) :
    Writes ('[' :: joined (items.map (·.1)) ++ [']']) (.array (items.map (·.2))) where
  starts := ⟨'[', _, rfl, by decide⟩
  reads := by
    intro n rest hn _
    simp only [List.length_append, List.length_cons, List.length_nil] at hn
    obtain ⟨bound, rfl⟩ : ∃ bound, n = bound + 1 := ⟨n - 1, by omega⟩
    rw [List.append_assoc, List.cons_append, readValue, skipBlanks_cons (by decide)]
    by_cases hne : items = []
    · subst hne
      rfl
    · have hread := @readItems_joined _ h hne bound rest (by omega)
      obtain ⟨c, cs, hjoined, hc⟩ := joined_starts h hne
      simp only [List.singleton_append]
      rw [hjoined] at hread ⊢
      rw [List.cons_append] at hread ⊢
      have hblank : c ∉ [' ', '\n', '\t', '\r'] := fun hmem => hc (by simp_all)
      rw [skipBlanks_cons hblank]
      have hbracket : c ≠ ']' := by
        rintro rfl
        exact hc (by decide)
      split
      · next heq => exact absurd (List.cons.inj heq).1 hbracket
      · rw [hread]
        rfl

/-- A member of an object: its key, and the form and the value of what stands under it. -/
structure Member where
  key : String
  form : List Char
  value : Value

/-- A member as it is written. -/
def Member.written (m : Member) : List Char := quote m.key ++ ':' :: m.form

theorem readMembers_joined {members : List Member}
    (h : ∀ member ∈ members, Writes member.form member.value) (hne : members ≠ []) {n : Nat}
    {rest : List Char}
    (hn : 2 * (joined (members.map Member.written)).length + 1 ≤ n) :
    readMembers n (joined (members.map Member.written) ++
        '\x7d' :: rest) =
      some (members.map fun member => (some member.key, member.value), rest) := by
  induction members generalizing n with
  | nil => exact absurd rfl hne
  | cons member members ih =>
      obtain ⟨bound, rfl⟩ : ∃ bound, n = bound + 1 := ⟨n - 1, by omega⟩
      have hvalue := h member (List.mem_cons_self ..)
      have hkey : ∀ behind, member.written ++ behind =
          '"' :: (member.key.toList.flatMap escape ++ '"' :: ':' :: (member.form ++ behind)) := by
        intro behind
        simp [Member.written, quote]
      cases members with
      | nil =>
          have hform : joined ([member].map Member.written) = member.written := by simp [joined]
          rw [hform] at hn ⊢
          rw [Member.written, List.length_append, List.length_cons] at hn
          have hread := hvalue.reads bound ('\x7d' :: rest) (by omega) (by simp [Closes])
          rw [hkey, readMembers, skipBlanks_cons (by decide)]
          simp only [readText_quoted, Option.bind_eq_bind, Option.bind_some,
            skipBlanks_cons (c := ':') (by decide), hread,
            skipBlanks_cons (c := '\x7d') (by decide)]
          rfl
      | cons next members =>
          have hform : joined ((member :: next :: members).map Member.written) =
              member.written ++ ',' :: joined ((next :: members).map Member.written) := by
            simp only [List.map_cons, joined_cons_cons]
          rw [hform, List.length_append, List.length_cons] at hn
          rw [hform, List.append_assoc, List.cons_append]
          rw [Member.written, List.length_append, List.length_cons] at hn
          have hread := hvalue.reads bound
            (',' :: (joined ((next :: members).map Member.written) ++ '\x7d' :: rest)) (by omega)
            (by simp [Closes])
          have hrest := ih (fun member hmem => h member (List.mem_cons_of_mem _ hmem)) (by simp)
            (n := bound) (by omega)
          rw [hkey, readMembers, skipBlanks_cons (by decide)]
          simp only [readText_quoted, Option.bind_eq_bind, Option.bind_some,
            skipBlanks_cons (c := ':') (by decide), hread,
            skipBlanks_cons (c := ',') (by decide), hrest, Option.map_some]
          rfl

/-- Members in braces, of which there are some, are read as an object. -/
theorem writes_object {members : List Member}
    (h : ∀ member ∈ members, Writes member.form member.value) (hne : members ≠ []) :
    Writes ('\x7b' :: joined (members.map Member.written) ++ ['\x7d'])
      (.object (members.map fun member => (some member.key, member.value))) where
  starts := ⟨'\x7b', _, rfl, by decide⟩
  reads := by
    intro n rest hn _
    simp only [List.length_append, List.length_cons, List.length_nil] at hn
    obtain ⟨bound, rfl⟩ : ∃ bound, n = bound + 1 := ⟨n - 1, by omega⟩
    have hread := @readMembers_joined _ h hne bound rest (by omega)
    rw [List.append_assoc, List.cons_append, readValue, skipBlanks_cons (by decide)]
    obtain ⟨cs, hjoined⟩ :
        ∃ cs, joined (members.map Member.written) = '"' :: cs := by
      cases members with
      | nil => exact absurd rfl hne
      | cons member members =>
          cases members with
          | nil => exact ⟨_, by simp [joined, Member.written, quote]; rfl⟩
          | cons next members =>
              exact ⟨_, by simp only [List.map_cons, joined_cons_cons]; rfl⟩
    simp only [List.singleton_append]
    rw [hjoined] at hread ⊢
    rw [List.cons_append] at hread ⊢
    rw [skipBlanks_cons (by decide)]
    change (readMembers bound _).map _ = _
    rw [hread]
    rfl

/-- A document that is written as the form of a value is read as the value. -/
theorem parse?_of_writes {form : List Char} {value : Value} (h : Writes form value) :
    parse? (String.ofList form) = some value := by
  have hread := h.reads (2 * form.length + 2) [] (by omega) (by simp [Closes])
  rw [List.append_nil] at hread
  unfold parse?
  simp only [String.toList_ofList, hread]
  rfl

end ModuleCache.Json
