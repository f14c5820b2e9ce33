import S3Fs.Native.Server
import S3Fs.Go.Xml

/-!
# `ServeHTTP`: the request dispatcher

`ServeHTTP` strips the leading `/` of the URL path, splits the rest once at
`/` into bucket and key, and picks a backend method by HTTP method and by
whether the key is empty.  Failures become `http.Error` responses: 404 for a
failed `GetObject`, 500 for every other backend failure.

The listings are written as `xml.Header` followed by the envelope
`xml.NewEncoder(w).Encode` produces: no indentation, string fields escaped by
`Xml.escapeString`, integers in decimal.  The `CreationDate` and
`LastModified` elements are left out with the times they carry.

The response writer is taken to accept every write, so the branches that
handle a failed write of the XML header or body do not appear.
-/

namespace S3Fs

/-- An HTTP request as the handler reads it: method, decoded URL path, the
    parsed query in order, body and declared length. -/
structure Request where
  method : String
  path : Bytes
  query : List (Bytes × Bytes)
  body : Reader
  contentLength : Int

/-- The response the handler writes: status, headers and body. -/
structure Response where
  status : Nat
  header : List (String × Bytes)
  body : Bytes
  deriving DecidableEq, Repr

/-- `url.Values.Get(key)`: the first value for the key, or `""`. -/
def queryGet (q : List (Bytes × Bytes)) (key : Bytes) : Bytes :=
  ((q.find? (·.1 = key)).map (·.2)).getD []

/-- `http.Error(w, msg, code)`. -/
def httpError (msg : Bytes) (code : Nat) : Response :=
  ⟨code, [("Content-Type", lit "text/plain; charset=utf-8"),
    ("X-Content-Type-Options", lit "nosniff")], msg ++ lit "\n"⟩

/-- A decimal integer, as `strconv.FormatInt(n, 10)` and `%d` write it. -/
def decimal (n : Nat) : Bytes := lit (toString n)

/-- The `xmlns` attribute both envelopes carry. -/
def s3Namespace : Bytes := lit "http://s3.amazonaws.com/doc/2006-03-01/"

/-- The start tag of a root element in the S3 namespace. -/
def rootStart (name : String) : Bytes :=
  lit "<" ++ lit name ++ lit " xmlns=\"" ++ s3Namespace ++ lit "\">"

/-- The encoding of `ListAllMyBucketsResult` for a list of buckets. -/
def encodeListAllMyBucketsResult (buckets : List Bucket) : Bytes :=
  rootStart "ListAllMyBucketsResult" ++ lit "<Buckets>" ++
    buckets.flatMap (fun b => lit "<Bucket>" ++ Xml.element "Name" (Xml.escapeString b.name) ++
      lit "</Bucket>") ++
    lit "</Buckets>" ++ lit "</ListAllMyBucketsResult>"

/-- The encoding of one `ObjectInfo` as a `Contents` element. -/
def encodeContents (o : Object) : Bytes :=
  lit "<Contents>" ++ Xml.element "Key" (Xml.escapeString o.key) ++
    Xml.element "Size" (decimal o.size) ++ lit "</Contents>"

/-- The encoding of `ListBucketResult` for a bucket name and its objects. -/
def encodeListBucketResult (name : Bytes) (objects : List Object) : Bytes :=
  rootStart "ListBucketResult" ++ Xml.element "Name" (Xml.escapeString name) ++
    objects.flatMap encodeContents ++ lit "</ListBucketResult>"

/-- A `200 OK` XML response with the given envelope. -/
def xmlResponse (envelope : Bytes) : Response :=
  ⟨200, [("Content-Type", lit "application/xml")], Xml.header ++ envelope⟩

variable {m : Type → Type} [Monad m] (os : Os m)

/-- `(*S3Server).ServeHTTP`. -/
def S3Server.serveHTTP (s : S3Server) (r : Request) : m Response := do
  let path := Strings.trimPrefix r.path [slash]
  let parts := Strings.splitN path slash 2
  if path = [] ∧ r.method = "GET" then
    match ← s.listBuckets os with
    | .error err => pure (httpError err.error 500)
    | .ok buckets => pure (xmlResponse (encodeListAllMyBucketsResult buckets))
  else
    match parts with
    | [] => pure (httpError (lit "Invalid request") 400)
    | bucket :: rest =>
      let key := rest.headD []
      if r.method = "PUT" then
        if key = [] then
          match ← s.createBucket os bucket with
          | some err => pure (httpError err.error 500)
          | none => pure ⟨200, [], []⟩
        else
          match ← s.putObject os bucket key r.body r.contentLength with
          | some err => pure (httpError err.error 500)
          | none => pure ⟨200, [], []⟩
      else if r.method = "GET" then
        if key = [] then
          match ← s.listObjects os bucket (queryGet r.query (lit "prefix")) with
          | .error err => pure (httpError err.error 500)
          | .ok objects => pure (xmlResponse (encodeListBucketResult bucket objects))
        else
          match ← s.getObject os bucket key with
          | .error err => pure (httpError err.error 404)
          | .ok (rc, size) =>
            -- `io.Copy(w, rc)`; a read error is only logged
            let (body, _) ← os.readAll rc
            pure ⟨200, [("Content-Length", decimal size)], body⟩
      else if r.method = "DELETE" then
        if key = [] then
          match ← s.deleteBucket os bucket with
          | some err => pure (httpError err.error 500)
          | none => pure ⟨204, [], []⟩
        else
          match ← s.deleteObject os bucket key with
          | some err => pure (httpError err.error 500)
          | none => pure ⟨204, [], []⟩
      else pure (httpError (lit "Method not allowed") 405)

end S3Fs
