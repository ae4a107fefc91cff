import Roman.Lib.CString

/-! # record.c: the record codec and the strict base64 decoder

Output arrays are regions, so a function that fails after a partial write shows
what it wrote. A C function's -1 is `none`. Every caller passes valid pointers
to the base64 decoder, the id check and the encoder; only `record_decode` takes
NULL for an output it should skip, so only there an output is optional.
-/

namespace Roman

open CMem CStr

def RECORD_FORMAT_VERSION : UInt8 := 1

def RECORD_MAX_DEVICE_ID : Nat := 32

def RECORD_FIXED_LEN : Nat := 98

def RECORD_MAX : Nat := RECORD_FIXED_LEN + RECORD_MAX_DEVICE_ID

def b64Value (c : UInt8) : Option Nat :=
  if 0x41 ≤ c ∧ c ≤ 0x5A then some (c.toNat - 0x41)
  else if 0x61 ≤ c ∧ c ≤ 0x7A then some (c.toNat - 0x61 + 26)
  else if 0x30 ≤ c ∧ c ≤ 0x39 then some (c.toNat - 0x30 + 52)
  else if c = 0x2B then some 62
  else if c = 0x2F then some 63
  else none

/-- The inner loop of `record_b64_decode` over one quartet, from its `k`-th
    character on: the number of pads and the values. `last` says that this is
    the final quartet. -/
def scanQuartet (last : Bool) : Nat → Nat → Bytes → Option (Nat × List Nat)
  | _, pad, [] => some (pad, [])
  | k, pad, c :: rest =>
      if c = 0x3D then
        -- padding: final quartet only, last two positions only
        if k < 2 ∨ last = false then none
        else (scanQuartet last (k + 1) (pad + 1) rest).map fun r => (r.1, 0 :: r.2)
      else if pad ≠ 0 then none
      else match b64Value c with
        | none => none
        | some v => (scanQuartet last (k + 1) pad rest).map fun r => (r.1, v :: r.2)

/-- The outer loop of `record_b64_decode`, with `o` bytes written so far. -/
def decodeQuartets {n : Nat} : Bytes → Nat → Nat → Region n → Option Nat × Region n
  | c0 :: c1 :: c2 :: c3 :: rest, o, cap, out =>
      match scanQuartet rest.isEmpty 0 0 [c0, c1, c2, c3] with
      | none => (none, out)
      | some (pad, v) =>
          if pad = 1 ∧ v.getD 2 0 &&& 0x03 ≠ 0 then (none, out)
          else if pad = 2 ∧ v.getD 1 0 &&& 0x0F ≠ 0 then (none, out)
          else
            let triple := (v.getD 0 0 <<< 18) ||| (v.getD 1 0 <<< 12) ||| (v.getD 2 0 <<< 6) |||
              v.getD 3 0
            let bytes := [UInt8.ofNat (triple >>> 16), UInt8.ofNat (triple >>> 8), UInt8.ofNat triple]
            let take := 3 - pad
            if o + take > cap then (none, out)
            else decodeQuartets rest (o + take) cap (out.store o (bytes.take take))
  | _, o, _, out => (some o, out)

def recordB64Decode {n : Nat} (src : Bytes) (out : Region n) (cap : Nat) :
    Option Nat × Region n :=
  if src.length = 0 ∨ src.length % 4 ≠ 0 then (none, out)
  else decodeQuartets src 0 cap out

def deviceIdChar (c : UInt8) : Bool :=
  (0x41 ≤ c && c ≤ 0x5A) || (0x61 ≤ c && c ≤ 0x7A) || (0x30 ≤ c && c ≤ 0x39) ||
    c == 0x2E || c == 0x5F || c == 0x2D

def recordDeviceIdValid (deviceId : Bytes) : Bool :=
  if deviceId.length = 0 ∨ deviceId.length > RECORD_MAX_DEVICE_ID then false
  else deviceId.all deviceIdChar

/-- Returns the payload length, or 0 with `dst` as it was. -/
def recordEncode {n : Nat} (dst : Region n) (cap : Nat) (pk : Region 32) (sk : Region 64)
    (deviceId : Bytes) : Nat × Region n :=
  if recordDeviceIdValid deviceId = false then (0, dst)
  else
    let idLen := deviceId.length
    let total := RECORD_FIXED_LEN + idLen
    if total > cap ∨ total > RECORD_MAX then (0, dst)
    else
      let dst := dst.store 0 [RECORD_FORMAT_VERSION]
      let dst := dst.store 1 [UInt8.ofNat idLen]
      let dst := dst.store 2 pk.bytes
      let dst := dst.store 34 sk.bytes
      let dst := dst.store RECORD_FIXED_LEN deviceId
      (total, dst)

/-- The three output arrays of `record_decode`; `none` is a NULL argument. -/
structure DecodeOut (n : Nat) where
  pk : Option (Region 32)
  sk : Option (Region 64)
  deviceId : Option (Region n)
  deriving DecidableEq

def recordDecode {n : Nat} (src : Bytes) (out : DecodeOut n) (deviceIdCap : Nat) :
    Bool × DecodeOut n :=
  let len := src.length
  if len < RECORD_FIXED_LEN ∨ len > RECORD_MAX then (false, out)
  else if src.getD 0 0 ≠ RECORD_FORMAT_VERSION then (false, out)
  else
    let idLen := (src.getD 1 0).toNat
    if idLen = 0 ∨ idLen > RECORD_MAX_DEVICE_ID then (false, out)
    else if len ≠ RECORD_FIXED_LEN + idLen then (false, out)
    else
      -- the local copy of the id, up to and with its NUL
      let id := (src.drop RECORD_FIXED_LEN).take idLen ++ [0]
      if recordDeviceIdValid (content id) = false then (false, out)
      else
        let out := { out with pk := out.pk.map fun pk : Region 32 => pk.store 0 ((src.drop 2).take 32) }
        let out := { out with sk := out.sk.map fun sk : Region 64 => sk.store 0 ((src.drop 34).take 64) }
        match out.deviceId with
        | none => (true, out)
        | some deviceId =>
            if deviceIdCap < idLen + 1 then (false, out)
            else (true, { out with deviceId := some (deviceId.store 0 id) })

end Roman
