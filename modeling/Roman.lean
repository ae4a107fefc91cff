import Roman.Lib.CString
import Roman.Lib.NorFlash
import Roman.Lib.Runs
import Roman.TweetNacl.Sign
import Roman.Record
import Roman.HttpServer.Helpers
import Roman.Base64
import Roman.RecordCodec
import Roman.PowerCut
import Roman.HttpServer.Memoryless
import Roman.HttpServer.Segmentation
import Roman.Usability
import Roman.OneShot
import Roman.LifeCycle
import Roman.Authentic
import Roman.HttpServer.Enrolment
import Roman.HttpServer.Signing
import Roman.HttpServer.Secrecy
import Roman.HttpServer.JsonRuns
import Roman.HttpServer.Slots
import Roman.HttpServer.OneByOne
import Roman.Storage.EntropyPool
import Roman.Storage.SectionNonce
import Roman.RecordOutputs
import Roman.Wiping
import Roman.Verifier.Honest
import Roman.Verifier.Complete
import Roman.Stack
import Roman.HttpServer.Binding
import Roman.HttpServer.Untruncated
import Roman.BodyLimit
import Roman.HttpServer.Acceptance
import Roman.Dhcp.Leases
import Roman.UsbNetwork
import Roman.TweetNacl.Hash
import Roman.TweetNacl.Sealing
