import UiScript.Text.Class
import UiScript.Text.Combining
import UiScript.Text.Invisible

/-!
# Texts made visible

A text between quotes in which every character can be seen: the ones without a form of their own, and marks that would
join the character before them, are written by their code.
-/

namespace UiScript.Text

/-- The hexadecimal digits of a number without leading zeros. -/
def hexText (n : Nat) : List Char := Nat.toDigits 16 n

/-- One character of a text that is made visible. -/
def visibleChar (c : Char) : List Char :=
  if c = '\x00' then ['\\', '0']
  else if c = '\t' then ['\\', 't']
  else if c = '\n' then ['\\', 'n']
  else if c = '\r' then ['\\', 'r']
  else if c = '"' ∨ c = '\\' then ['\\', c]
  else
    let hidden :=
      if c.toNat < 0x80 then isControl c
      else inRanges combiningRanges c.toNat || inRanges invisibleRanges c.toNat
    if hidden then "\\u\x7b".toList ++ hexText c.toNat ++ ['\x7d'] else [c]

/-- A text made visible, between quotes. -/
def visible (text : String) : String := String.ofList ('"' :: (text.toList.flatMap visibleChar ++ ['"']))

end UiScript.Text
