import Mathlib.Data.List.Basic

/-!
# Go strings as byte lists

A Go `string` is an immutable sequence of bytes with no encoding promised, so
the model takes `Bytes := List UInt8` for every string the server handles:
URL paths, bucket names, keys, file names and error texts.  File names on the
host filesystem are byte strings too, which is why the model does not use Lean's
`String` (whose values are always valid UTF-8).

This file collects the functions of Go's `strings` package the server calls
(`SplitN`, `TrimPrefix`, `HasPrefix`), the byte order `sort.Strings` uses, and
`lit`, which spells an ASCII literal of the source as bytes.
-/

namespace S3Fs

/-- A Go string: a sequence of bytes. -/
abbrev Bytes := List UInt8

/-- An ASCII literal of the Go source, as bytes. -/
def lit (s : String) : Bytes := s.toList.map fun c => c.toNat.toUInt8

/-- The path separator `'/'`. -/
def slash : UInt8 := 47

/-- The path element `"."`. -/
def dot : Bytes := [46]

/-- The path element `".."`. -/
def dotdot : Bytes := [46, 46]

namespace Strings

/-- `strings.Split(s, sep)` for a one-byte separator: never empty, and `[""]`
    for the empty string. -/
def split (s : Bytes) (sep : UInt8) : List Bytes := s.splitOn sep

/-- `strings.Join(elems, sep)` for a one-byte separator. -/
def join (elems : List Bytes) (sep : UInt8) : Bytes := [sep].intercalate elems

/-- `strings.SplitN(s, sep, n)` for a one-byte separator: at most `n` pieces, the
    last one holding the unsplit rest.  `n = 0` gives `nil`.  (Go clamps `n` to
    `len(s) + 1`, which changes nothing: every cut consumes a byte.) -/
def splitN (s : Bytes) (sep : UInt8) : Nat → List Bytes
  | 0 => []
  | 1 => [s]
  | n + 2 =>
    if sep ∈ s then s.takeWhile (· ≠ sep) :: splitN (s.dropWhile (· ≠ sep)).tail sep (n + 1)
    else [s]

/-- `strings.TrimPrefix(s, prefix)`. -/
def trimPrefix (s pre : Bytes) : Bytes := if pre.isPrefixOf s then s.drop pre.length else s

/-- `strings.HasPrefix(s, prefix)`. -/
def hasPrefix (s pre : Bytes) : Bool := pre.isPrefixOf s

/-- Go's `<` on strings, the order `sort.Strings` sorts by: bytewise lexicographic. -/
def lt : Bytes → Bytes → Bool
  | [], [] => false
  | [], _ :: _ => true
  | _ :: _, [] => false
  | a :: as, b :: bs => a < b || (a == b && lt as bs)

end Strings

end S3Fs
