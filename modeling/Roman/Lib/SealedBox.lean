import Roman.Lib.Poly1305
import Roman.Lib.Salsa20

/-! # Sealed boxes

Authenticated encryption from XSalsa20 and Poly1305: the first 32 bytes of the stream
are the key of the authenticator, which is applied to the ciphertext.
-/

namespace SealedBox

open CMem Poly1305 Salsa20

/-- The key of the authenticator. -/
def oneTimeKey (n k : Bytes) : Bytes := (List.range 32).map (xsalsa20 k n)

/-- A message or a ciphertext with the stream behind that key. -/
def crypt (n k m : Bytes) : Bytes := m.mapIdx fun i b => b ^^^ xsalsa20 k n (32 + i)

/-- The tag and the ciphertext. -/
def sealBox (n k m : Bytes) : Bytes := poly1305 (crypt n k m) (oneTimeKey n k) ++ crypt n k m

def openBox (n k box : Bytes) : Option Bytes :=
  if box.take 16 = poly1305 (box.drop 16) (oneTimeKey n k) then some (crypt n k (box.drop 16)) else none

end SealedBox
