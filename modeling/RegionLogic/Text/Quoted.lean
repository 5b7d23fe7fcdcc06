import RegionLogic.Text.Printable

/-!
# Quoted text

Messages and lists in log lines show a text between quotes. The quote is an apostrophe, or a double
quote if the text holds an apostrophe and no double quote. A backslash, the chosen quote, a newline,
a carriage return and a tab are written with a backslash; any other character that is not printable
is written by its code point in two, four or eight hexadecimal digits.

## Main definitions

* `quoted`: the quoted form of a text
-/

namespace RegionLogic.Text

/-- The code point `n` in at least `width` hexadecimal digits. -/
def hexDigits (width n : Nat) : List Char :=
  let digits := Nat.toDigits 16 n
  List.replicate (width - digits.length) '0' ++ digits

/-- A character inside quotes of the kind `quote`. -/
def quotedChar (quote c : Char) : List Char :=
  if c = '\\' || c = quote then ['\\', c]
  else if c = '\n' then ['\\', 'n']
  else if c = '\r' then ['\\', 'r']
  else if c = '\t' then ['\\', 't']
  else if isPrintable c then [c]
  else if c.toNat < 0x100 then '\\' :: 'x' :: hexDigits 2 c.toNat
  else if c.toNat < 0x10000 then '\\' :: 'u' :: hexDigits 4 c.toNat
  else '\\' :: 'U' :: hexDigits 8 c.toNat

/-- The quote that `cs` is put between. -/
def quoteFor (cs : List Char) : Char :=
  if '\'' ∈ cs && '"' ∉ cs then '"' else '\''

/-- The quoted form of a text. -/
def quoted (s : String) : String :=
  let quote := quoteFor s.toList
  .ofList (quote :: s.toList.flatMap (quotedChar quote) ++ [quote])

end RegionLogic.Text
