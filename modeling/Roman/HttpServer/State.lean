import Roman.Keystore
import Roman.TweetNacl.Sign
import Roman.HttpServer.Helpers

/-! # http_server.c: its static variables

`Http` is the RAM of the server: the keystore under it, the counters, and every
static array, those inside a handler named after it where two handlers use one
name. `HttpState` is one connection. The counters and the debug arrays are only
compiled in with `/debug`; nothing else reads them.
-/

namespace Roman

open CMem CStr NorFlash

def HTTP_BUF_SIZE : Nat := 2048

def HTTP_MAX_CONN : Nat := 3

def HTTP_FORM_BODY_LIMIT : Int := 1024

def HTTP_DEBUG_BODY_LIMIT : Int := 256

def ROMAN_VERSION : Bytes := ascii "0.2"

structure HttpStats where
  requests : UInt32
  signOk : UInt32
  signBad : UInt32
  writeOk : UInt32
  writeBad : UInt32
  clearOk : UInt32
  clearBad : UInt32
  notFound : UInt32
  tooLarge : UInt32
  errors : UInt32

structure HttpState where
  buf : Region HTTP_BUF_SIZE
  reqLen : Nat
  contentLength : Int
  sent : Bool
  done : Bool
  resetAfterSend : Bool

structure Http where
  keystore : Keystore
  httpStats : HttpStats
  sigSm : Region 2048
  sigB64 : Region 128
  /-- `handle_sign_post` -/
  signSk : Region 64
  signDeviceId : Region (RECORD_MAX_DEVICE_ID + 1)
  challenge : Region 256
  context : Region 128
  timestamp : Region 128
  signBody : Region 1024
  /-- `handle_write_post` -/
  pkB64 : Region 64
  skB64 : Region 128
  writeDeviceId : Region (RECORD_MAX_DEVICE_ID + 1)
  xPk : Region STORAGE_KEY_LEN
  xPkB64 : Region 64
  okBody : Region 160
  /-- `handle_clear_post` -/
  keyB64 : Region 128
  /-- `handle_info` -/
  infoDeviceId : Region (RECORD_MAX_DEVICE_ID + 1)
  infoIdJson : Region (RECORD_MAX_DEVICE_ID + 8)
  infoBuf : Region 320
  /-- `debug_snapshot` and `debug_selftest` -/
  debugJson : Region 1280
  debugReadBuf : Region STORAGE_MAX_PAYLOAD
  debugPk : Region 32
  edB64 : Region 64
  xB64 : Region 64
  debugDeviceId : Region (RECORD_MAX_DEVICE_ID + 1)
  debugIdJson : Region (RECORD_MAX_DEVICE_ID + 8)

/-- What a handler hands to `http_send_response`. -/
structure Response where
  status : Nat
  body : Bytes
  deriving DecidableEq

def reply (status : Nat) (text : String) : Response := ⟨status, ascii text⟩

/-- `http_accept_cb`: the state of a fresh connection. -/
def HttpState.accepted : HttpState where
  buf := .fill _ 0
  reqLen := 0
  contentLength := -1
  sent := false
  done := false
  resetAfterSend := false

/-- RAM after a reset. -/
def Http.zeroed (flash : Flash) (entropy : Entropy) : Http where
  keystore := .boot flash entropy
  httpStats := ⟨0, 0, 0, 0, 0, 0, 0, 0, 0, 0⟩
  sigSm := .fill _ 0
  sigB64 := .fill _ 0
  signSk := .fill _ 0
  signDeviceId := .fill _ 0
  challenge := .fill _ 0
  context := .fill _ 0
  timestamp := .fill _ 0
  signBody := .fill _ 0
  pkB64 := .fill _ 0
  skB64 := .fill _ 0
  writeDeviceId := .fill _ 0
  xPk := .fill _ 0
  xPkB64 := .fill _ 0
  okBody := .fill _ 0
  keyB64 := .fill _ 0
  infoDeviceId := .fill _ 0
  infoIdJson := .fill _ 0
  infoBuf := .fill _ 0
  debugJson := .fill _ 0
  debugReadBuf := .fill _ 0
  debugPk := .fill _ 0
  edB64 := .fill _ 0
  xB64 := .fill _ 0
  debugDeviceId := .fill _ 0
  debugIdJson := .fill _ 0

def Http.flash (s : Http) : Flash := s.keystore.store.flash

def Http.rng (s : Http) : Rng := s.keystore.store.rng

end Roman
