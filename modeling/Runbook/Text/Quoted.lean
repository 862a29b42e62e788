import Runbook.Text.Digits
import Runbook.Text.Printable

/-!
# Quoted text

A text or a byte string between quotes, the way values are displayed inside other values: single
quotes, unless the text holds one and no double quote; characters without a printed form are
escaped.
-/

namespace Runbook

/-- The quote that a text is displayed in. -/
def quoteFor (cs : List Char) : Char :=
  if cs.contains '\'' && !cs.contains '"' then '"' else '\''

/-- The displayed form of a character inside quotes. -/
def quotedChar (quote c : Char) : String :=
  if c = quote then String.ofList ['\\', quote]
  else if c = '\\' then "\\\\"
  else if c = '\n' then "\\n"
  else if c = '\r' then "\\r"
  else if c = '\t' then "\\t"
  else if isPrintable c then String.ofList [c]
  else if c.toNat < 0x100 then "\\x" ++ hexDigits 2 c.toNat
  else if c.toNat < 0x10000 then "\\u" ++ hexDigits 4 c.toNat
  else "\\U" ++ hexDigits 8 c.toNat

/-- A text in quotes. -/
def quoted (s : String) : String :=
  let quote := quoteFor s.toList
  (s.toList.foldl (fun acc c => acc ++ quotedChar quote c) (String.ofList [quote])).push quote

/-- Bytes in quotes, marked with `b`; bytes outside printable ASCII are escaped. -/
def quotedBytes (bytes : List UInt8) : String :=
  let cs := bytes.map fun b => Char.ofNat b.toNat
  let quote := quoteFor cs
  let body := cs.foldl (fun acc c =>
    acc ++ (if c.toNat < 0x7f then quotedChar quote c else "\\x" ++ hexDigits 2 c.toNat)) ""
  "b" ++ String.ofList [quote] ++ body ++ String.ofList [quote]

end Runbook
