import S3Fs.Go.Xml
import Mathlib.Data.List.Infix
import Mathlib.Algebra.Group.Nat.Basic

/-!
# `encoding/xml`: decoding character data

What `xml.Decoder` makes of the character data between two tags (its `text`
method, in the default strict mode).  An entity `&name;` of the five
predefined ones, or a character reference `&#NN;` or `&#xHH;`, becomes the
character it names; a carriage return, alone or before a newline, becomes a
newline; every other byte is copied.  The result must be UTF-8 whose every
character is in XML's `Char` production, or the decoder stops with a syntax
error (`none` here).  So is `]]>` in the text: its bytes cannot stand in a
reference, so the check `text` makes on the last bytes read fires exactly when
the text holds it.

Entity names are read as ASCII name bytes: a name with other bytes is no
predefined entity, which strict mode rejects either way.  The loops run on
fuel: every step consumes a byte.

`Unmarshal` fills a field from an element in the layout `Encode` writes it in:
the start tag, the character data up to the next `<`, the end tag
(`textElement`); a slice field from the run of elements of its name
(`decodeSlice`); an `int64` field by `strconv.ParseInt` of the trimmed text
(`decodeInt`).  Tags are matched as the bytes `Encode` writes, so a document
laid out otherwise is not read here (`none`).
-/

namespace S3Fs.Xml

end S3Fs.Xml
