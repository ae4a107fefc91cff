import Roman.Storage.Random
import Roman.Lib.Outcome

/-! # storage.c: the encrypted flash store

The state is the flash and the RAM of storage.c. Flash is addressed from
`STORAGE_FLASH_OFFSET`. What `flash_safe_execute` does to an erase or a program
is the environment's: it runs the callback, it refuses and does not run it, or
the power fails inside it. After a power cut only the flash is left.
-/

namespace Roman

open CMem CStr NorFlash TweetNacl

def FLASH_SECTOR_SIZE : Nat := 4096

def STORAGE_MAX_PAYLOAD : Nat := 232

def STORAGE_MAGIC : Bytes := ascii "ROMN"

def STORAGE_MAGIC_LEN : Nat := 4

def STORAGE_FORMAT_VERSION : UInt8 := 1

def STORAGE_NONCE_LEN : Nat := 24

def STORAGE_KEY_LEN : Nat := 32

def STORAGE_SECTION_SIZE : Nat := 256

def STORAGE_BOX_OVERHEAD : Nat := 16

def STORAGE_SECTION_OFF : Nat := 256

def STORAGE_MARKER_OFF : Nat := 504

def STORAGE_TOTAL_BYTES : Nat := 512

def STORAGE_MARKER : Bytes := ascii "DONE"

def STORAGE_MARKER_LEN : Nat := 4

inductive EraseOutcome where
  | ok
  | fail
  /-- The power failed with the bytes of the set already 0xFF. -/
  | cut (done : Nat → Bool)

inductive ProgramOutcome where
  | ok
  | fail
  /-- The power failed with the first `k` bytes programmed. -/
  | cut (k : Nat)

/-- What becomes of the flash operations of one call. -/
structure FlashEnv where
  erase : EraseOutcome
  program : ProgramOutcome

structure Storage where
  flash : Flash
  rng : Rng
  storageBuf : Region STORAGE_TOTAL_BYTES
  boxRead : Region (32 + STORAGE_SECTION_SIZE)
  boxWrite : Region (32 + STORAGE_SECTION_SIZE)

/-- RAM after a reset. -/
def Rng.boot (entropy : Entropy) : Rng where
  entropy
  samples := 0
  randState := 0
  randSeeded := false
  randTrngSeen := false

def Storage.boot (flash : Flash) (entropy : Entropy) : Storage where
  flash
  rng := .boot entropy
  storageBuf := .fill _ 0
  boxRead := .fill _ 0
  boxWrite := .fill _ 0

/-- `flash_safe_execute(storage_erase_cb, ...)`: PICO_OK or not, and the flash after it. -/
def storageErase (flash : Flash) : EraseOutcome → Outcome (Bool × Flash)
  | .ok => .done (true, erase FLASH_SECTOR_SIZE flash)
  | .fail => .done (false, flash)
  | .cut reached => .cut (erasePart FLASH_SECTOR_SIZE reached flash)

/-- `flash_safe_execute(storage_program_cb, ...)`. -/
def storageProgram (data : Bytes) (flash : Flash) : ProgramOutcome → Outcome (Bool × Flash)
  | .ok => .done (true, program data flash)
  | .fail => .done (false, flash)
  | .cut k => .cut (programPart data k flash)

/-- The last eight bytes of the nonce are XORed with the section index. -/
def storageSectionNonce (base : Bytes) (idx : Nat) : Bytes :=
  base.take (STORAGE_NONCE_LEN - 8) ++
    (List.range 8).map fun b =>
      base.getD (STORAGE_NONCE_LEN - 8 + b) 0 ^^^ UInt8.ofNat (idx >>> (b * 8))

def storageWriten (flash : Flash) : Bool :=
  read flash STORAGE_MARKER_OFF STORAGE_MARKER_LEN = STORAGE_MARKER

/-- The length field of the header. -/
def storedLen (flash : Flash) : Nat :=
  (ld32 (read flash STORAGE_MAGIC_LEN 4) 0).toNat

def storageAvailable (flash : Flash) : Bool :=
  if read flash 0 STORAGE_MAGIC_LEN ≠ STORAGE_MAGIC then false
  else decide (0 < storedLen flash ∧ storedLen flash ≤ STORAGE_MAX_PAYLOAD)

def storageX25519Pk {n : Nat} (flash : Flash) (pk : Region n) : Bool × Region n :=
  if storageAvailable flash = false then (false, pk)
  else (true, pk.store 0 (read flash 0x24 STORAGE_KEY_LEN))

/-- The section loop of `storage_read`, from section `i` at flash offset `pos`
    on. The index grows by one each turn, so `len` turns are more than it takes. -/
def readSections {n : Nat} (flash : Flash) (len : Nat) :
    Nat → Nat → Nat → Region n → Region (32 + STORAGE_SECTION_SIZE) →
      Bool × Region n × Region (32 + STORAGE_SECTION_SIZE)
  | 0, _, _, dst, box => (true, dst, box)
  | turns + 1, i, pos, dst, box =>
      if i * STORAGE_SECTION_SIZE < len then
        let off := i * STORAGE_SECTION_SIZE
        let chunk := min (len - off) STORAGE_SECTION_SIZE
        let secNonce := storageSectionNonce (read flash 0x0C STORAGE_NONCE_LEN) i
        let box := box.store 0 (List.replicate 32 0)
        let box := box.store 16 (read flash pos STORAGE_BOX_OVERHEAD)
        let box := box.store 32 (read flash (pos + STORAGE_BOX_OVERHEAD) chunk)
        match cryptoBoxOpen (box.load 0 (32 + chunk)) secNonce (read flash 0x24 STORAGE_KEY_LEN)
            (read flash 0x44 STORAGE_KEY_LEN) with
        | none => (false, dst, box)
        | some m =>
            let box := box.store 0 m
            let dst := dst.store off (box.load 32 chunk)
            readSections flash len turns (i + 1) (pos + (STORAGE_BOX_OVERHEAD + chunk)) dst box
      else (true, dst, box)

def storageRead {n : Nat} (s : Storage) (dst : Region n) (cap : Nat) : Nat × Region n × Storage :=
  if storageAvailable s.flash = false then (0, dst, s)
  else
    let len := min (storedLen s.flash) cap
    let (opened, dst, boxRead) := readSections s.flash len len 0 STORAGE_SECTION_OFF dst s.boxRead
    (if opened then len else 0, dst, { s with boxRead })

/-- The section loop of `storage_write`. -/
def writeSections (src nonce pk sk : Bytes) :
    Nat → Nat → Nat → Region STORAGE_TOTAL_BYTES → Region (32 + STORAGE_SECTION_SIZE) →
      Bool × Region STORAGE_TOTAL_BYTES × Region (32 + STORAGE_SECTION_SIZE)
  | 0, _, _, buf, box => (true, buf, box)
  | turns + 1, i, pos, buf, box =>
      if i * STORAGE_SECTION_SIZE < src.length then
        let off := i * STORAGE_SECTION_SIZE
        let chunk := min (src.length - off) STORAGE_SECTION_SIZE
        let secNonce := storageSectionNonce nonce i
        let box := box.store 0 (List.replicate 32 0)
        let box := box.store 32 ((src.drop off).take chunk)
        match cryptoBox (box.load 0 (32 + chunk)) secNonce pk sk with
        | none => (false, buf, box)
        | some c =>
            let box := box.store 0 c
            let buf := buf.store pos (box.load 16 (STORAGE_BOX_OVERHEAD + chunk))
            writeSections src nonce pk sk turns (i + 1) (pos + (STORAGE_BOX_OVERHEAD + chunk)) buf box
      else (true, buf, box)

def storageWrite (s : Storage) (env : FlashEnv) (src : Bytes) : Outcome (Bool × Storage) :=
  if src.length = 0 ∨ src.length > STORAGE_MAX_PAYLOAD then .done (false, s)
  else
    let (pk, sk, rng) := cryptoBoxKeypair s.rng
    let (nonce, rng) := randombytes STORAGE_NONCE_LEN rng
    let buf := Region.fill STORAGE_TOTAL_BYTES 0xFF
    let buf := buf.store 0 STORAGE_MAGIC
    let buf := buf.store 4 (st32 (UInt32.ofNat src.length))
    let buf := buf.store 8 [STORAGE_FORMAT_VERSION]
    let buf := buf.store 0x0C nonce
    let buf := buf.store 0x24 pk
    let buf := buf.store 0x44 sk
    match writeSections src nonce pk sk src.length 0 STORAGE_SECTION_OFF buf s.boxWrite with
    | (false, storageBuf, boxWrite) => .done (false, { s with rng, storageBuf, boxWrite })
    | (true, buf, boxWrite) =>
        -- the marker goes in last
        let storageBuf := buf.store STORAGE_MARKER_OFF STORAGE_MARKER
        let s := { s with rng, storageBuf, boxWrite }
        match storageErase s.flash env.erase with
        | .cut flash => .cut flash
        | .done (false, flash) => .done (false, { s with flash })
        | .done (true, flash) =>
            match storageProgram storageBuf.bytes flash env.program with
            | .cut flash => .cut flash
            | .done (ok, flash) => .done (ok, { s with flash })

def storageClear (s : Storage) (env : EraseOutcome) : Outcome (Bool × Storage) :=
  match storageErase s.flash env with
  | .cut flash => .cut flash
  | .done (ok, flash) => .done (ok, { s with flash })

end Roman
