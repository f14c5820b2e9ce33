import S3Fs.Go.Strings

/-!
# `unicode/utf8`

`utf8.DecodeRune` reads one rune from the front of a byte string.  A byte that
does not start a well-formed sequence (a stray continuation byte, an overlong
form, a surrogate, a code point past `U+10FFFF`, or a sequence cut short)
decodes as `RuneError` (`U+FFFD`) of width 1, so a caller can step past it.

Go drives this with a table (`first` and `acceptRanges`); the model spells the
same table as comparisons on the leading byte, with the accepted range of the
second byte for each leading byte.
-/

namespace S3Fs.Utf8

/-- `utf8.RuneError`, `U+FFFD`. -/
def runeError : Nat := 0xFFFD

/-- The range `acceptRanges` allows for the second byte after a leading byte. -/
def secondRange (b0 : UInt8) : Nat × Nat :=
  if b0 = 0xE0 then (0xA0, 0xBF)
  else if b0 = 0xED then (0x80, 0x9F)
  else if b0 = 0xF0 then (0x90, 0xBF)
  else if b0 = 0xF4 then (0x80, 0x8F)
  else (0x80, 0xBF)

/-- The length of the sequence a leading byte announces (`first[b0] & 7`), or
    `0` for a byte that starts none. -/
def seqLen (b0 : UInt8) : Nat :=
  if b0 < 0x80 then 1
  else if b0 < 0xC2 then 0
  else if b0 < 0xE0 then 2
  else if b0 < 0xF0 then 3
  else if b0 < 0xF5 then 4
  else 0

/-- Whether a byte is a continuation byte `10xxxxxx`. -/
def isCont (b : UInt8) : Bool := 0x80 ≤ b.toNat ∧ b.toNat ≤ 0xBF

/-- `utf8.DecodeRune(p)`: the first rune and its width; `(RuneError, 0)` on
    empty input and `(RuneError, 1)` on a malformed sequence. -/
def decodeRune : Bytes → Nat × Nat
  | [] => (runeError, 0)
  | b0 :: rest =>
    match seqLen b0, rest with
    | 1, _ => (b0.toNat, 1)
    | 2, b1 :: _ =>
      if (secondRange b0).1 ≤ b1.toNat ∧ b1.toNat ≤ (secondRange b0).2 then
        ((b0.toNat % 32) * 64 + b1.toNat % 64, 2)
      else (runeError, 1)
    | 3, b1 :: b2 :: _ =>
      if (secondRange b0).1 ≤ b1.toNat ∧ b1.toNat ≤ (secondRange b0).2 ∧ isCont b2 then
        ((b0.toNat % 16) * 4096 + (b1.toNat % 64) * 64 + b2.toNat % 64, 3)
      else (runeError, 1)
    | 4, b1 :: b2 :: b3 :: _ =>
      if (secondRange b0).1 ≤ b1.toNat ∧ b1.toNat ≤ (secondRange b0).2 ∧ isCont b2 ∧
          isCont b3 then
        ((b0.toNat % 8) * 262144 + (b1.toNat % 64) * 4096 + (b2.toNat % 64) * 64 +
          b3.toNat % 64, 4)
      else (runeError, 1)
    | _, _ => (runeError, 1)

/-- The loop over the runes of a byte string that `for range` and the escapers
    make, on fuel: `f r width raw` gets each rune, its width and its bytes, and
    the results are concatenated.  Every turn consumes at least one byte, so
    fuel equal to the length suffices. -/
def mapRunes (f : Nat → Nat → Bytes → Bytes) : Nat → Bytes → Bytes
  | 0, _ => []
  | _ + 1, [] => []
  | fuel + 1, b :: bs =>
    let (r, width) := decodeRune (b :: bs)
    f r width ((b :: bs).take width) ++ mapRunes f fuel ((b :: bs).drop width)

end S3Fs.Utf8
