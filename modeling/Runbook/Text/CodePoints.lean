/-!
# Texts of code points

The escapes in a document name code points, and some of these are surrogates: no characters, and
parts of one in pairs alone. So what is read is a string, or a text that no string is.
-/

namespace Runbook

/-- A code point as a character; numbers that are none become the replacement character. -/
def charOfNat (n : Nat) : Char :=
  if n.isValidChar then Char.ofNat n else '\uFFFD'

@[simp] theorem charOfNat_toNat (c : Char) : charOfNat c.toNat = c := by
  have hvalid : c.toNat.isValidChar := c.valid
  rw [charOfNat, if_pos hvalid, Char.ofNat_toNat]

/-- A text as it is read. -/
inductive Text
  | str (s : String)
  /-- Code points, with unpaired surrogates among them. -/
  | wild (codes : List Nat)
  deriving DecidableEq, Repr

namespace Text

/-- The text of code points. -/
def ofCodes (codes : List Nat) : Text :=
  if ∀ n ∈ codes, n.isValidChar then str (String.ofList (codes.map charOfNat)) else wild codes

theorem ofCodes_toNat (cs : List Char) : ofCodes (cs.map Char.toNat) = str (String.ofList cs) := by
  have hvalid : ∀ n ∈ cs.map Char.toNat, n.isValidChar := by
    intro n hn
    obtain ⟨c, -, rfl⟩ := List.mem_map.1 hn
    exact c.valid
  rw [ofCodes, if_pos hvalid, List.map_map]
  simp [Function.comp_def]

/-- The string that stands for a text, with a replacement character for each unpaired surrogate. -/
def string : Text → String
  | str s => s
  | wild codes => String.ofList (codes.map charOfNat)

end Text
end Runbook
