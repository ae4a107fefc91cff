import Roman.Lib.CString

/-! # http_server.c: the encoding and JSON helpers -/

namespace Roman

open CMem CStr

def BASE64 : Bytes :=
  ascii "ABCDEFGHIJKLMNOPQRSTUVWXYZabcdefghijklmnopqrstuvwxyz0123456789+/"

/-- `BASE64[i]`. -/
def base64Char (i : Nat) : UInt8 := BASE64.getD i 0

/-- The characters `base64_encode` writes, without the closing NUL. -/
def base64Encode : Bytes → Bytes
  | [] => []
  | [x] =>
      let b := x.toNat <<< 16
      [base64Char ((b >>> 18) &&& 0x3F), base64Char ((b >>> 12) &&& 0x3F), 0x3D, 0x3D]
  | [x, y] =>
      let b := (x.toNat <<< 16) ||| (y.toNat <<< 8)
      [base64Char ((b >>> 18) &&& 0x3F), base64Char ((b >>> 12) &&& 0x3F),
        base64Char ((b >>> 6) &&& 0x3F), 0x3D]
  | x :: y :: z :: rest =>
      let b := (x.toNat <<< 16) ||| (y.toNat <<< 8) ||| z.toNat
      [base64Char ((b >>> 18) &&& 0x3F), base64Char ((b >>> 12) &&& 0x3F),
        base64Char ((b >>> 6) &&& 0x3F), base64Char (b &&& 0x3F)] ++ base64Encode rest

/-- `json_get_string`: true for the source's 0, with the value copied and
    terminated; false for its -1, with the buffer as it was. -/
def jsonGetString {n : Nat} (json key : Bytes) (buf : Region n) : Bool × Region n :=
  let search := (0x22 :: key ++ [0x22]).take 127
  match strstr json search with
  | none => (false, buf)
  | some p =>
      match strchr p 0x3A with
      | none => (false, buf)
      | some p =>
          match skipBlanks (p.drop 1) with
          | 0x22 :: p =>
              match strchr p 0x22 with
              | none => (false, buf)
              | some rest =>
                  let len := p.length - rest.length
                  let len := if len ≥ n then n - 1 else len
                  (true, buf.store 0 (p.take len ++ [0]))
          | _ => (false, buf)

end Roman
