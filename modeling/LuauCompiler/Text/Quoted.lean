import LuauCompiler.Text.Printable

/-! A text or a row of bytes between quotation marks. The mark is the apostrophe, unless the content
holds an apostrophe and no double quote. The mark in use, the backslash and everything that is not
printable are escaped; all else stands for itself. -/

namespace LuauCompiler.Text

def apostrophe : Char := '\x27'

def doubleQuote : Char := '\x22'

/-- `n` in lower-case hexadecimal, padded with zeros to `width` digits. -/
def hex (width n : Nat) : List Char :=
  let digits := Nat.toDigits 16 n
  List.replicate (width - digits.length) '0' ++ digits

/-- The shortest of the three numeric escapes that holds the character. -/
def numericEscape (n : Nat) : List Char :=
  if n ≤ 0xff then '\\' :: 'x' :: hex 2 n
  else if n ≤ 0xffff then '\\' :: 'u' :: hex 4 n
  else '\\' :: 'U' :: hex 8 n

/-- The escape of a backslash or of a character that is not printable. -/
def escape (c : Char) : List Char :=
  if c = '\\' then ['\\', '\\']
  else if c = '\n' then ['\\', 'n']
  else if c = '\r' then ['\\', 'r']
  else if c = '\t' then ['\\', 't']
  else numericEscape c.toNat

def quoteChar (mark c : Char) : List Char :=
  if c = mark then ['\\', c]
  else if c = '\\' || !isPrintable c then escape c
  else [c]

def quotationMark (cs : List Char) : Char :=
  if cs.contains apostrophe && !cs.contains doubleQuote then doubleQuote else apostrophe

def quoteChars (cs : List Char) : List Char :=
  let mark := quotationMark cs
  mark :: cs.flatMap (quoteChar mark) ++ [mark]

def quote (text : String) : String :=
  String.ofList (quoteChars text.toList)

/-- The literal of a text with everything beyond ASCII escaped as well. -/
def quoteAscii (text : String) : String :=
  String.ofList ((quoteChars text.toList).flatMap fun c =>
    if c.toNat < 0x80 then [c] else numericEscape c.toNat)

def quotedInner (text : String) : String :=
  let cs := text.toList
  String.ofList (cs.flatMap (quoteChar (quotationMark cs)))

/-- A byte is written as its ASCII character where that is printable. -/
def quoteByte (mark : Char) (b : UInt8) : List Char :=
  if b.toNat < 0x80 then quoteChar mark (Char.ofNat b.toNat) else numericEscape b.toNat

def quoteBytes (bytes : List UInt8) : String :=
  let mark := quotationMark (bytes.map fun b => Char.ofNat b.toNat)
  String.ofList ('b' :: mark :: bytes.flatMap (quoteByte mark) ++ [mark])

end LuauCompiler.Text
