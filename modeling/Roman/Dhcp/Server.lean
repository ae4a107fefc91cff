import Roman.Lib.Deadline
import Roman.Lib.Tlv
import Mathlib.Logic.Function.Basic
import Mathlib.Data.Fintype.Basic

/-! # dhcpserver.c

Translation of the DHCP server. The message is built in place over the request, in a
structure on the stack that is not cleared: what the request does not fill, and what lies
behind the structure, is part of the input. The clock may move on between two readings.
-/

namespace Roman.Dhcp

open CMem

def DHCPDISCOVER : UInt8 := 1
def DHCPOFFER : UInt8 := 2
def DHCPREQUEST : UInt8 := 3
def DHCPACK : UInt8 := 5

def DHCP_OPT_SUBNET_MASK : UInt8 := 1
def DHCP_OPT_ROUTER : UInt8 := 3
def DHCP_OPT_DNS : UInt8 := 6
def DHCP_OPT_REQUESTED_IP : UInt8 := 50
def DHCP_OPT_IP_LEASE_TIME : UInt8 := 51
def DHCP_OPT_MSG_TYPE : UInt8 := 53
def DHCP_OPT_SERVER_ID : UInt8 := 54
def DHCP_OPT_END : UInt8 := 255

def DEFAULT_LEASE_TIME_S : Nat := 24 * 60 * 60

def DHCPS_BASE_IP : UInt8 := 16
def DHCPS_MAX_IP : Nat := 8

def DHCP_MIN_SIZE : Nat := 240 + 3

/-- `sizeof(dhcp_msg_t)` -/
def DHCP_MSG_SIZE : Nat := 548

/-- `dhcp_server_lease_t` -/
structure Lease where
  mac : Region 6
  expiry : UInt16
  deriving DecidableEq

/-- `dhcp_server_t`, without its socket. -/
structure DhcpServer where
  ip : Region 4
  nm : Region 4
  setRouterAndDns : Bool
  lease : Fin DHCPS_MAX_IP → Lease

/-- The six zeros that mark a lease as free. -/
def noMac : Region 6 := .fill 6 0

/-- `dhcp_server_init` -/
def dhcpServerInit (ip nm : Region 4) (setRouterAndDns : Bool) : DhcpServer :=
  ⟨ip, nm, setRouterAndDns, fun _ => ⟨noMac, 0⟩⟩

/-- The memory from the message on. -/
abbrev Memory := Nat → UInt8

/-- `n` bytes of it. -/
def load (m : Memory) (off n : Nat) : Region n := ⟨(List.range n).map fun i => m (off + i), by simp⟩

/-- `memcpy` -/
def store (m : Memory) (off : Nat) (b : Bytes) : Memory :=
  fun i => if off ≤ i ∧ i < off + b.length then b.getD (i - off) 0 else m i

/-- `opt_find`, in the options that start at `opt`. -/
def optFind (m : Memory) (opt : Nat) (cmd : UInt8) : Option Nat :=
  (Tlv.find DHCP_OPT_END 308 (fun i => m (opt + i)) cmd 0).map (opt + ·)

/-- `opt_write_n`: the memory and the pointer behind what was written. -/
def optWriteN (m : Memory) (opt : Nat) (cmd : UInt8) (n : Nat) (data : Bytes) : Memory × Nat :=
  (store (store m opt [cmd, UInt8.ofNat n]) (opt + 2) (data.take n), opt + 2 + n)

def optWriteU8 (m : Memory) (opt : Nat) (cmd val : UInt8) : Memory × Nat :=
  (store m opt [cmd, 1, val], opt + 3)

def optWriteU32 (m : Memory) (opt : Nat) (cmd : UInt8) (val : UInt32) : Memory × Nat :=
  (store m opt [cmd, 4, (val >>> 24).toUInt8, (val >>> 16).toUInt8, (val >>> 8).toUInt8, val.toUInt8], opt + 6)

/-- The deadline of a lease, from the half of it that is kept. -/
def fullExpiry (expiry : UInt16) : UInt32 := (expiry.toUInt32 <<< 16) ||| 0xffff

/-- The loop of DHCPDISCOVER over the leases that are left, with the address that was chosen so far. -/
def discover (chaddr : Region 6) (ticks : Nat → UInt32) : List (Fin DHCPS_MAX_IP) → (Fin DHCPS_MAX_IP → Lease) →
    Option (Fin DHCPS_MAX_IP) → (Fin DHCPS_MAX_IP → Lease) × Option (Fin DHCPS_MAX_IP)
  | [], lease, yi => (lease, yi)
  | i :: rest, lease, yi =>
      if (lease i).mac = chaddr then (lease, some i)
      else if yi = none then
        let yi := if (lease i).mac = noMac then some i else yi
        if Deadline.passed (fullExpiry (lease i).expiry) (ticks i) then
          discover chaddr ticks rest (Function.update lease i { lease i with mac := noMac }) (some i)
        else discover chaddr ticks rest lease yi
      else discover chaddr ticks rest lease yi

/-- What DHCPREQUEST sets the expiry to. -/
def leaseExpiry (ticks : UInt32) : UInt16 := ((ticks + UInt32.ofNat (DEFAULT_LEASE_TIME_S * 1000)) >>> 16).toUInt16

/-- The message type is written, then the options that all replies have; the bytes that are sent. -/
def dhcpReply (d : DhcpServer) (m : Memory) (yi : Fin DHCPS_MAX_IP) (kind : UInt8) : Bytes :=
  let m := store m 19 [DHCPS_BASE_IP + UInt8.ofNat yi]
  let (m, opt) := optWriteU8 m 240 DHCP_OPT_MSG_TYPE kind
  let (m, opt) := optWriteN m opt DHCP_OPT_SERVER_ID 4 d.ip.bytes
  let (m, opt) := optWriteN m opt DHCP_OPT_SUBNET_MASK 4 d.nm.bytes
  let (m, opt) :=
    if d.setRouterAndDns then
      let (m, opt) := optWriteN m opt DHCP_OPT_ROUTER 4 d.ip.bytes
      optWriteN m opt DHCP_OPT_DNS 4 d.ip.bytes
    else (m, opt)
  let (m, opt) := optWriteU32 m opt DHCP_OPT_IP_LEASE_TIME (UInt32.ofNat DEFAULT_LEASE_TIME_S)
  let m := store m opt [DHCP_OPT_END]
  (load m 0 (opt + 1)).bytes

/-- The request over what the stack held, with the opcode and the server's address in it. -/
def dhcpMsg (d : DhcpServer) (packet : Bytes) (stack : Memory) : Memory :=
  let m := store stack 0 (packet.take DHCP_MSG_SIZE)
  let m := store m 0 [DHCPOFFER]
  store m 16 d.ip.bytes

/-- `dhcp_server_process`: the server afterwards and what it sends to the broadcast address. -/
def dhcpServerProcess (d : DhcpServer) (packet : Bytes) (stack : Memory) (ticks : Nat → UInt32) :
    DhcpServer × Option Bytes :=
  if packet.length < DHCP_MIN_SIZE then (d, none)
  else
    let m := dhcpMsg d packet stack
    let chaddr := load m 28 6
    match optFind m 240 DHCP_OPT_MSG_TYPE with
    | none => (d, none)
    | some msgtype =>
        if m (msgtype + 2) = DHCPDISCOVER then
          let (lease, yi) := discover chaddr ticks (List.finRange DHCPS_MAX_IP) d.lease none
          let d := { d with lease }
          match yi with
          | none => (d, none)
          | some yi => (d, some (dhcpReply d m yi DHCPOFFER))
        else if m (msgtype + 2) = DHCPREQUEST then
          match optFind m 240 DHCP_OPT_REQUESTED_IP with
          | none => (d, none)
          | some o =>
              if (load m (o + 2) 3).bytes ≠ d.ip.bytes.take 3 then (d, none)
              else
                let yi := (m (o + 5) - DHCPS_BASE_IP).toNat
                if inside : yi < DHCPS_MAX_IP then
                  let yi : Fin DHCPS_MAX_IP := ⟨yi, inside⟩
                  if (d.lease yi).mac = chaddr ∨ (d.lease yi).mac = noMac then
                    let lease := Function.update d.lease yi ⟨chaddr, leaseExpiry (ticks 0)⟩
                    let d := { d with lease }
                    (d, some (dhcpReply d m yi DHCPACK))
                  else (d, none)
                else (d, none)
        else (d, none)

/-- A packet is a question about the leases, or nothing at all. -/
inductive Message where
  | discover (mac : Region 6)
  | request (mac : Region 6) (yi : Fin DHCPS_MAX_IP)

/-- The question of a packet, to the server with this address. -/
def heard (d : DhcpServer) (packet : Bytes) (stack : Memory) : Option Message :=
  let m := dhcpMsg d packet stack
  if packet.length < DHCP_MIN_SIZE then none
  else (optFind m 240 DHCP_OPT_MSG_TYPE).bind fun msgtype =>
    if m (msgtype + 2) = DHCPDISCOVER then some (.discover (load m 28 6))
    else if m (msgtype + 2) = DHCPREQUEST then
      (optFind m 240 DHCP_OPT_REQUESTED_IP).bind fun o =>
        if (load m (o + 2) 3).bytes = d.ip.bytes.take 3 then
          if inside : (m (o + 5) - DHCPS_BASE_IP).toNat < DHCPS_MAX_IP then some (.request (load m 28 6) ⟨_, inside⟩)
          else none
        else none
    else none

/-- The leases afterwards, and the address that is offered or granted. -/
def Message.answer (ticks : Nat → UInt32) (lease : Fin DHCPS_MAX_IP → Lease) :
    Message → (Fin DHCPS_MAX_IP → Lease) × Option (Fin DHCPS_MAX_IP)
  | .discover mac => Dhcp.discover mac ticks (List.finRange DHCPS_MAX_IP) lease none
  | .request mac yi =>
      if (lease yi).mac = mac ∨ (lease yi).mac = noMac then
        (Function.update lease yi ⟨mac, leaseExpiry (ticks 0)⟩, some yi)
      else (lease, none)

/-- The message type of a reply. -/
def Message.kind : Message → UInt8
  | .discover _ => DHCPOFFER
  | .request .. => DHCPACK

/-- The client that asks. -/
def Message.mac : Message → Region 6
  | .discover mac => mac
  | .request mac _ => mac

/-- The server answers the question that it hears. -/
theorem dhcpServerProcess_eq (d : DhcpServer) (packet : Bytes) (stack : Memory) (ticks : Nat → UInt32) :
    dhcpServerProcess d packet stack ticks =
      match heard d packet stack with
      | none => (d, none)
      | some question =>
          ({ d with lease := (question.answer ticks d.lease).1 },
            (question.answer ticks d.lease).2.map fun yi => dhcpReply d (dhcpMsg d packet stack) yi question.kind) := by
  unfold dhcpServerProcess heard
  by_cases short : packet.length < DHCP_MIN_SIZE
  · rw [if_pos short, if_pos short]
  rw [if_neg short, if_neg short]
  dsimp only
  rcases optFind (dhcpMsg d packet stack) 240 DHCP_OPT_MSG_TYPE with _ | msgtype
  · rfl
  dsimp only [Option.bind_some]
  by_cases asks : dhcpMsg d packet stack (msgtype + 2) = DHCPDISCOVER
  · rw [if_pos asks, if_pos asks]
    dsimp only [Message.answer]
    rcases (discover _ _ _ _ _) with ⟨lease, _ | yi⟩ <;> rfl
  rw [if_neg asks, if_neg asks]
  by_cases wants : dhcpMsg d packet stack (msgtype + 2) = DHCPREQUEST
  · rw [if_pos wants, if_pos wants]
    rcases optFind (dhcpMsg d packet stack) 240 DHCP_OPT_REQUESTED_IP with _ | o
    · rfl
    dsimp only [Option.bind_some]
    by_cases ours : (load (dhcpMsg d packet stack) (o + 2) 3).bytes = d.ip.bytes.take 3
    · rw [if_neg (not_not_intro ours), if_pos ours]
      by_cases inside : (dhcpMsg d packet stack (o + 5) - DHCPS_BASE_IP).toNat < DHCPS_MAX_IP
      · rw [dif_pos inside, dif_pos inside]
        dsimp only [Message.answer]
        split <;> rfl
      · rw [dif_neg inside, dif_neg inside]
    · rw [if_pos ours, if_neg ours]
  · rw [if_neg wants, if_neg wants]

end Roman.Dhcp
