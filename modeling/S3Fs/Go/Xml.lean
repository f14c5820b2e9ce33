import S3Fs.Go.Utf8

/-!
# `encoding/xml`: escaping character data

`xml.Encoder` writes a string field as character data through
`printer.EscapeString`.  The loop decodes one rune at a time; the five markup
characters and tab, newline and carriage return become character references,
and a rune outside XML's `Char` production (or a `RuneError` of width 1, that
is, a byte that is not UTF-8) becomes `U+FFFD`.  Every other rune is copied as
the bytes it was read from.

The rune loop is `Utf8.mapRunes`, on fuel equal to the length of the string.
-/

namespace S3Fs.Xml

/-- `isInCharacterRange`: the `Char` production of XML 1.0. -/
def isInCharacterRange (r : Nat) : Bool :=
  r = 0x09 || r = 0x0A || r = 0x0D || (0x20 ≤ r && r ≤ 0xD7FF) ||
    (0xE000 ≤ r && r ≤ 0xFFFD) || (0x10000 ≤ r && r ≤ 0x10FFFF)

/-- `U+FFFD` encoded in UTF-8, what `escFFFD` writes. -/
def escFFFD : Bytes := [0xEF, 0xBF, 0xBD]

/-- The replacement `EscapeString` writes for a rune of a given width, if any. -/
def escapeRune (r width : Nat) : Option Bytes :=
  if r = 34 then some (lit "&#34;")
  else if r = 39 then some (lit "&#39;")
  else if r = 38 then some (lit "&amp;")
  else if r = 60 then some (lit "&lt;")
  else if r = 62 then some (lit "&gt;")
  else if r = 9 then some (lit "&#x9;")
  else if r = 10 then some (lit "&#xA;")
  else if r = 13 then some (lit "&#xD;")
  else if !isInCharacterRange r || (r = Utf8.runeError && width = 1) then some escFFFD
  else none

/-- `printer.EscapeString(s)`: each rune replaced by its escape, if it has one. -/
def escapeString (s : Bytes) : Bytes :=
  Utf8.mapRunes (fun r width raw => (escapeRune r width).getD raw) s.length s

/-- An element with character data: `<name>data</name>`. -/
def element (name : String) (content : Bytes) : Bytes :=
  lit "<" ++ lit name ++ lit ">" ++ content ++ lit "</" ++ lit name ++ lit ">"

/-- `xml.Header`. -/
def header : Bytes := lit "<?xml version=\"1.0\" encoding=\"UTF-8\"?>\n"

end S3Fs.Xml
