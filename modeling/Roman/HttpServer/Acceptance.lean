import Roman.HttpServer.Binding
import Roman.TweetNacl.Opening

/-! # The acceptance test

The firmware never checks that a public key belongs to its seed; the tool does, by judging
one signature of the board. Its verdict says whether the hash cancels what the stored key
and the key of the seed differ in, and among the multiples of the base point exactly whether
the stored pair is genuine, but for messages whose hash is a multiple of the order.
-/

namespace Roman

open CMem CStr NorFlash TweetNacl Verifier

section
variable (seed : Region 32)

end

end Roman
