import AddressedF.Text.GraphemeExtend
import AddressedF.Text.Unprintable

/-!
# Quoted Text

Text between double quotes, in which every character can be told from every other.

## Main Definitions

* `Text.quote`: the quoted form of a text

## Design Notes

A backslash and a quote are escaped by a backslash, and so are the line and tabulator characters and NUL, by
their letters.  Characters that cannot be seen, or that merge with the one in front of them, are written by
their number.  Two tables of properties come close to these two classes: the fillers count as letters and the
halfwidth sound marks as combining, and each of them is put right by name.
-/

namespace AddressedF.Text

/-- Whether a code point is in one of the ranges. -/
def inRanges (ranges : Array (Nat × Nat)) (code : Nat) : Bool :=
  ranges.any fun range => range.1 ≤ code && code ≤ range.2

/-- Whether a character is one of the Hangul fillers, letters that are drawn as nothing. -/
def isFiller (c : Char) : Bool :=
  c = '\u115f' || c = '\u1160' || c = '\u3164' || c = '\uffa0'

/-- Whether a character is one of the halfwidth sound marks, which are drawn in a place of their own. -/
def isHalfwidthMark (c : Char) : Bool :=
  c = '\uff9e' || c = '\uff9f'

/-- Whether a character cannot be seen. -/
def isInvisible (c : Char) : Bool :=
  inRanges unprintableRanges c.toNat || isFiller c

/-- Whether a character merges with the one in front of it. -/
def isCombining (c : Char) : Bool :=
  inRanges graphemeExtendRanges c.toNat && !isHalfwidthMark c

/-- Whether a character is written by its number. -/
def isEscapedByNumber (c : Char) : Bool :=
  isInvisible c || isCombining c

/-- The quoted form of a character. -/
def quoteChar (c : Char) : List Char :=
  if c = '\x00' then ['\\', '0']
  else if c = '\t' then ['\\', 't']
  else if c = '\n' then ['\\', 'n']
  else if c = '\r' then ['\\', 'r']
  else if c = '"' then ['\\', '"']
  else if c = '\\' then ['\\', '\\']
  else if isEscapedByNumber c then ['\\', 'u', '\x7b'] ++ Nat.toDigits 16 c.toNat ++ ['\x7d']
  else [c]

/-- The quoted form of a text. -/
def quote (text : String) : String :=
  String.ofList ('"' :: text.toList.flatMap quoteChar ++ ['"'])

end AddressedF.Text
