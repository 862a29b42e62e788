import Runbook.Yaml.Cursor

/-!
# Bytes

Reading of bytes in base 64. Characters outside the alphabet do not count; padding ends the text
once it completes a group of four characters.
-/

namespace Runbook
namespace Yaml

/-- The value of a character of the alphabet. -/
def sextet? (c : Char) : Option Nat :=
  if 'A' ≤ c ∧ c ≤ 'Z' then some (c.toNat - 65)
  else if 'a' ≤ c ∧ c ≤ 'z' then some (c.toNat - 71)
  else if c.isDigit then some (c.toNat + 4)
  else if c = '+' then some 62
  else if c = '/' then some 63
  else none

/-- Read the rest of a text: `count` characters of a group were read, `bits` are those of the last
one that belong to the next byte, and `pads` are the padding characters after it. The bytes so far
are in reverse. -/
def bytesFrom (acc : List UInt8) (count bits pads : Nat) : List Char → Except Error (List UInt8)
  | [] => if count = 0 then .ok acc.reverse else .error .malformed
  | c :: r =>
    if c = '=' then
      if count < 2 then bytesFrom acc count bits pads r
      else if 4 ≤ count + (pads + 1) then .ok acc.reverse
      else bytesFrom acc count bits (pads + 1) r
    else match sextet? c with
      | none => bytesFrom acc count bits pads r
      | some n =>
        match count with
        | 0 => bytesFrom acc 1 n 0 r
        | 1 => bytesFrom ((bits * 4 + n / 16).toUInt8 :: acc) 2 (n % 16) 0 r
        | 2 => bytesFrom ((bits * 16 + n / 4).toUInt8 :: acc) 3 (n % 4) 0 r
        | _ => bytesFrom ((bits * 64 + n).toUInt8 :: acc) 0 0 0 r

/-- The bytes that a text in ASCII stands for. -/
def bytesOf (text : String) : Except Error (List UInt8) :=
  if text.toList.all fun c => c.toNat < 0x80 then bytesFrom [] 0 0 0 text.toList
  else .error .malformed

end Yaml
end Runbook
