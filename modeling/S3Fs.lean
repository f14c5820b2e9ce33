import S3Fs.Go.Strings
import S3Fs.Go.Filepath
import S3Fs.Go.Os
import S3Fs.Go.Utf8
import S3Fs.Go.Xml
import S3Fs.Go.XmlDecode
import S3Fs.Native.Server
import S3Fs.Native.Dispatch
import S3Fs.Native.Unmarshal
import S3Fs.Native.Concurrent
import S3Fs.Spec.Path
import S3Fs.Spec.Tree
import S3Fs.Spec.Walk
import S3Fs.Spec.Server
import S3Fs.Spec.Objects
import S3Fs.Spec.Run
import S3Fs.Spec.Order
import S3Fs.Spec.Faults
import S3Fs.Spec.Dispatch
import S3Fs.Spec.Serve
import S3Fs.Spec.Retry
import S3Fs.Spec.Buckets
import S3Fs.Spec.Escape
import S3Fs.Spec.Listing
import S3Fs.Spec.Concurrent
import S3Fs.Spec.Interleave
