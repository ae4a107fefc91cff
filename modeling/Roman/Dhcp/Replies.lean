import Roman.Dhcp.Server

/-! # What the DHCP server sends

The reply is the header of the request, with four bytes changed, and the options, each
of which the reader of the server finds again. Nothing of the stack or of what the
request has behind its header is sent.
-/

namespace Roman.Dhcp

open CMem

theorem store_inside (m : Memory) {off i : Nat} {b : Bytes} (low : off ≤ i) (high : i < off + b.length) :
    store m off b i = b.getD (i - off) 0 := if_pos ⟨low, high⟩

theorem store_outside (m : Memory) {off i : Nat} {b : Bytes} (other : i < off ∨ off + b.length ≤ i) :
    store m off b i = m i := if_neg (by omega)

theorem load_bytes (m : Memory) (off n : Nat) : (load m off n).bytes = (List.range n).map fun i => m (off + i) := rfl

theorem load_add (m : Memory) (off a b : Nat) :
    (load m off (a + b)).bytes = (load m off a).bytes ++ (load m (off + a) b).bytes := by
  simp only [load_bytes, List.range_add, List.map_append, List.map_map, Nat.add_assoc]
  rfl

theorem load_congr {m m' : Memory} {off n : Nat} (same : ∀ i, off ≤ i → i < off + n → m i = m' i) :
    load m off n = load m' off n := by
  ext1
  exact List.map_congr_left fun i member => same _ (Nat.le_add_right ..) (by have := List.mem_range.mp member; omega)

/-- A part of what is stored. -/
theorem load_store_part (m : Memory) (p off : Nat) {n : Nat} {b : Bytes} (fits : off + n ≤ b.length) :
    (load (store m p b) (p + off) n).bytes = (b.drop off).take n := by
  apply List.ext_getElem
  · simp only [load_bytes, List.length_map, List.length_range, List.length_take, List.length_drop]
    omega
  · intro i inside _
    have small : i < n := by simpa [load_bytes] using inside
    have place : p + off + i - p = off + i := by omega
    simp only [load_bytes, List.getElem_map, List.getElem_range, List.getElem_take, List.getElem_drop]
    rw [store_inside m (by omega) (by omega), place, List.getD_eq_getElem?_getD, List.getElem?_eq_getElem (by omega),
      Option.getD_some]

/-- What is stored is loaded. -/
theorem load_store (m : Memory) (off : Nat) (b : Bytes) : (load (store m off b) off b.length).bytes = b := by
  have whole := load_store_part m off 0 (n := b.length) (b := b) (by omega)
  rwa [Nat.add_zero, List.drop_zero, List.take_length] at whole

theorem load_store_other (m : Memory) {off n p : Nat} {b : Bytes} (apart : off + n ≤ p ∨ p + b.length ≤ off) :
    load (store m p b) off n = load m off n :=
  load_congr fun i low high => store_outside m (by omega)

/-- A store at the end of what is loaded. -/
theorem load_store_end (m : Memory) (n : Nat) (b : Bytes) :
    (load (store m n b) 0 (n + b.length)).bytes = (load m 0 n).bytes ++ b := by
  rw [load_add, load_store_other m (.inl (by omega)), Nat.zero_add, load_store]

/-- What has been written from the start of the message on. -/
def Written (w : Memory × Nat) (b : Bytes) : Prop := (load w.1 0 w.2).bytes = b

theorem Written.store {m : Memory} {opt : Nat} {b : Bytes} (written : Written (m, opt) b) (more : Bytes) :
    Written (store m opt more, opt + more.length) (b ++ more) := by
  unfold Written at *
  rw [load_store_end, written]

theorem optWriteN_written {w : Memory × Nat} {b : Bytes} (written : Written w b) (cmd : UInt8) {n : Nat}
    (r : Region n) : Written (optWriteN w.1 w.2 cmd n r.bytes) (b ++ (cmd :: UInt8.ofNat r.bytes.length :: r.bytes)) := by
  have whole : r.bytes.take n = r.bytes := List.take_of_length_le r.size.le
  have both := (written.store [cmd, UInt8.ofNat n]).store r.bytes
  rw [List.append_assoc, r.size] at both
  rw [optWriteN, whole, r.size]
  exact both

theorem optWriteU8_written {w : Memory × Nat} {b : Bytes} (written : Written w b) (cmd val : UInt8) :
    Written (optWriteU8 w.1 w.2 cmd val) (b ++ [cmd, 1, val]) := written.store [cmd, 1, val]

/-- The bytes of a word, the highest first. -/
def wordBytes (val : UInt32) : Bytes :=
  [(val >>> 24).toUInt8, (val >>> 16).toUInt8, (val >>> 8).toUInt8, val.toUInt8]

theorem optWriteU32_written {w : Memory × Nat} {b : Bytes} (written : Written w b) (cmd : UInt8) (val : UInt32) :
    Written (optWriteU32 w.1 w.2 cmd val) (b ++ (cmd :: 4 :: wordBytes val)) := written.store (cmd :: 4 :: wordBytes val)

/-- The header: of the request all but the opcode and the address for the client. -/
def header (d : DhcpServer) (packet : Bytes) (yi : Fin DHCPS_MAX_IP) : Bytes :=
  DHCPOFFER :: (packet.drop 1).take 15 ++ d.ip.bytes.take 3 ++ [DHCPS_BASE_IP + UInt8.ofNat yi] ++
    (packet.drop 20).take 220

/-- The options of a reply. -/
def replyOptions (d : DhcpServer) (kind : UInt8) : List (UInt8 × Bytes) :=
  [(DHCP_OPT_MSG_TYPE, [kind]), (DHCP_OPT_SERVER_ID, d.ip.bytes), (DHCP_OPT_SUBNET_MASK, d.nm.bytes)] ++
    (if d.setRouterAndDns then [(DHCP_OPT_ROUTER, d.ip.bytes), (DHCP_OPT_DNS, d.ip.bytes)] else []) ++
    [(DHCP_OPT_IP_LEASE_TIME, wordBytes (UInt32.ofNat DEFAULT_LEASE_TIME_S))]

section
variable (d : DhcpServer) {packet : Bytes} (long : DHCP_MIN_SIZE ≤ packet.length) (stack : Memory)
include long

theorem header_written (yi : Fin DHCPS_MAX_IP) :
    Written (store (dhcpMsg d packet stack) 19 [DHCPS_BASE_IP + UInt8.ofNat yi], 240) (header d packet yi) := by
  have size : packet.length ≥ 243 := long
  have taken : (packet.take DHCP_MSG_SIZE).length ≥ 243 := by
    rw [List.length_take, DHCP_MSG_SIZE]
    omega
  have ipSize := d.ip.size
  have part : ∀ off n, off + n ≤ 243 → ((packet.take DHCP_MSG_SIZE).drop off).take n = (packet.drop off).take n := by
    intro off n fits
    rw [List.drop_take, List.take_take, DHCP_MSG_SIZE]
    congr 1
    omega
  have op : (load (store (dhcpMsg d packet stack) 19 [DHCPS_BASE_IP + UInt8.ofNat yi]) 0 1).bytes = [DHCPOFFER] := by
    rw [dhcpMsg, load_store_other _ (.inl (by omega)), load_store_other _ (.inl (by omega))]
    exact load_store _ 0 [DHCPOFFER]
  have front : (load (store (dhcpMsg d packet stack) 19 [DHCPS_BASE_IP + UInt8.ofNat yi]) 1 15).bytes =
      (packet.drop 1).take 15 := by
    have kept := load_store_part stack 0 1 (n := 15) (b := packet.take DHCP_MSG_SIZE) (by omega)
    rw [part 1 15 (by omega)] at kept
    rwa [dhcpMsg, load_store_other _ (.inl (by omega)), load_store_other _ (.inl (by omega)),
      load_store_other _ (.inr (by simp))]
  have ip : (load (store (dhcpMsg d packet stack) 19 [DHCPS_BASE_IP + UInt8.ofNat yi]) 16 3).bytes =
      d.ip.bytes.take 3 := by
    rw [dhcpMsg, load_store_other _ (.inl (by omega))]
    exact load_store_part _ 16 0 (by omega)
  have address : (load (store (dhcpMsg d packet stack) 19 [DHCPS_BASE_IP + UInt8.ofNat yi]) 19 1).bytes =
      [DHCPS_BASE_IP + UInt8.ofNat yi] := load_store _ 19 [DHCPS_BASE_IP + UInt8.ofNat yi]
  have rest : (load (store (dhcpMsg d packet stack) 19 [DHCPS_BASE_IP + UInt8.ofNat yi]) 20 220).bytes =
      (packet.drop 20).take 220 := by
    have kept := load_store_part stack 0 20 (n := 220) (b := packet.take DHCP_MSG_SIZE) (by omega)
    rw [part 20 220 (by omega)] at kept
    rwa [dhcpMsg, load_store_other _ (.inr (by simp)), load_store_other _ (.inr (by omega)),
      load_store_other _ (.inr (by simp))]
  have split : 240 = 1 + 15 + 3 + 1 + 220 := rfl
  unfold Written header
  dsimp only
  rw [split, load_add, load_add, load_add, load_add, op, front, ip, address, rest]
  rfl

/-- The whole reply. -/
theorem dhcpReply_eq (yi : Fin DHCPS_MAX_IP) (kind : UInt8) : dhcpReply d (dhcpMsg d packet stack) yi kind =
    header d packet yi ++ Tlv.encode (replyOptions d kind) ++ [DHCP_OPT_END] := by
  have type := optWriteU8_written (header_written d long stack yi) DHCP_OPT_MSG_TYPE kind
  have server := optWriteN_written type DHCP_OPT_SERVER_ID d.ip
  have mask := optWriteN_written server DHCP_OPT_SUBNET_MASK d.nm
  unfold dhcpReply replyOptions
  cases d.setRouterAndDns with
  | false =>
      have lease := optWriteU32_written mask DHCP_OPT_IP_LEASE_TIME (UInt32.ofNat DEFAULT_LEASE_TIME_S)
      refine (lease.store [DHCP_OPT_END]).trans ?_
      simp only [Tlv.encode, Bool.false_eq_true, if_false, List.append_nil, List.append_assoc,
        List.cons_append, List.nil_append]
      rfl
  | true =>
      have router := optWriteN_written mask DHCP_OPT_ROUTER d.ip
      have dns := optWriteN_written router DHCP_OPT_DNS d.ip
      have lease := optWriteU32_written dns DHCP_OPT_IP_LEASE_TIME (UInt32.ofNat DEFAULT_LEASE_TIME_S)
      refine (lease.store [DHCP_OPT_END]).trans ?_
      simp only [Tlv.encode, if_true, List.append_nil, List.append_assoc, List.cons_append,
        List.nil_append]
      rfl

/-- The client's address is where the request has it. -/
theorem load_chaddr : (load (dhcpMsg d packet stack) 28 6).bytes = (packet.drop 28).take 6 := by
  have size : packet.length ≥ 243 := long
  have ipSize := d.ip.size
  have taken : 28 + 6 ≤ (packet.take DHCP_MSG_SIZE).length := by
    rw [List.length_take, DHCP_MSG_SIZE]
    omega
  have copied := load_store_part stack 0 28 taken
  rw [dhcpMsg, load_store_other _ (.inr (by omega)), load_store_other _ (.inr (by simp)), copied, List.drop_take,
    List.take_take]
  rfl

theorem header_length (yi : Fin DHCPS_MAX_IP) : (header d packet yi).length = 240 := by
  have size : packet.length ≥ 243 := long
  have ip := d.ip.size
  simp only [header, List.length_cons, List.length_append, List.length_take, List.length_drop, List.length_nil, ip]
  omega

/-- The reply shows the address and the message type. -/
theorem reply_inj {yi yi' : Fin DHCPS_MAX_IP} {kind kind' : UInt8}
    (same : header d packet yi ++ Tlv.encode (replyOptions d kind) ++ [DHCP_OPT_END] =
      header d packet yi' ++ Tlv.encode (replyOptions d kind') ++ [DHCP_OPT_END]) : yi = yi' ∧ kind = kind' := by
  rw [List.append_assoc, List.append_assoc] at same
  have sizes : (header d packet yi).length = (header d packet yi').length := by
    rw [header_length d long, header_length d long]
  obtain ⟨front, options⟩ := List.append_inj same sizes
  constructor
  · rw [header, header, List.append_left_inj, List.append_right_inj, List.cons.injEq] at front
    have place := front.1
    clear same sizes front options
    revert yi yi'
    decide
  · have third := congrArg (fun l => l.getD 2 0) options
    exact third

end

/-- What is heard is in a packet that is long enough, with the address of the client that asks. -/
theorem heard_mac {d : DhcpServer} {packet : Bytes} {stack : Memory} {question : Message}
    (hears : heard d packet stack = some question) :
    DHCP_MIN_SIZE ≤ packet.length ∧ question.mac.bytes = (packet.drop 28).take 6 := by
  unfold heard at hears
  dsimp only at hears
  split at hears
  · cases hears
  next long =>
    have long : DHCP_MIN_SIZE ≤ packet.length := Nat.le_of_not_lt long
    refine ⟨long, ?_⟩
    rw [← load_chaddr d long stack]
    obtain ⟨msgtype, -, hears⟩ := Option.bind_eq_some_iff.mp hears
    split at hears
    · cases hears
      rfl
    split at hears
    · obtain ⟨o, -, hears⟩ := Option.bind_eq_some_iff.mp hears
      split at hears
      · split at hears <;> cases hears
        rfl
      · cases hears
    · cases hears

/-- What the options in a memory say: each code of the list is found with the data of its first option, and no other. -/
def Tells (m : Memory) (opts : List (UInt8 × Bytes)) : Prop := ∀ code,
  match opts.find? fun o => o.1 = code with
  | none => optFind m 240 code = none
  | some o => ∃ j, optFind m 240 code = some j ∧ Tlv.Stores m j (o.1 :: UInt8.ofNat o.2.length :: o.2)

theorem tells_of_stores {m : Memory} {opts : List (UInt8 × Bytes)} (formed : Tlv.Formed DHCP_OPT_END opts)
    (fits : (Tlv.encode opts).length < 308) (stores : Tlv.Stores m 240 (Tlv.encode opts ++ [DHCP_OPT_END])) :
    Tells m opts := by
  intro code
  have options : Tlv.Stores (fun i => m (240 + i)) 0 (Tlv.encode opts ++ [DHCP_OPT_END]) := fun i inside =>
    (congrArg m (by omega)).trans (stores i inside)
  have found := Tlv.find_encode formed options (Nat.lt_of_le_of_lt (Nat.zero_add _).le fits) code
  unfold optFind
  generalize opts.find? (fun o => decide (o.1 = code)) = first at found ⊢
  cases first with
  | none => exact congrArg (Option.map (240 + ·)) found
  | some o =>
    obtain ⟨j, found, there⟩ := found
    refine ⟨240 + j, by rw [found, Option.map_some], fun i inside => ?_⟩
    rw [Nat.add_assoc]
    exact there i inside

theorem replyOptions_formed (d : DhcpServer) (kind : UInt8) : Tlv.Formed DHCP_OPT_END (replyOptions d kind) := by
  have ip : d.ip.bytes.length < 256 := by rw [d.ip.size]; decide
  have nm : d.nm.bytes.length < 256 := by rw [d.nm.size]; decide
  have common : ∀ o ∈ [(DHCP_OPT_MSG_TYPE, [kind]), (DHCP_OPT_SERVER_ID, d.ip.bytes),
      (DHCP_OPT_SUBNET_MASK, d.nm.bytes), (DHCP_OPT_ROUTER, d.ip.bytes), (DHCP_OPT_DNS, d.ip.bytes),
      (DHCP_OPT_IP_LEASE_TIME, wordBytes (UInt32.ofNat DEFAULT_LEASE_TIME_S))],
      o.1 ≠ DHCP_OPT_END ∧ o.2.length < 256 := by
    simp only [List.forall_mem_cons, ip, nm]
    refine ⟨⟨by decide, by simp⟩, ?_⟩
    decide
  intro o member
  refine common o ?_
  unfold replyOptions at member
  split at member <;> simp only [List.mem_append, List.mem_cons, List.not_mem_nil] at member ⊢ <;> tauto

theorem replyOptions_length (d : DhcpServer) (kind : UInt8) : (Tlv.encode (replyOptions d kind)).length < 308 := by
  have ip := d.ip.size
  have nm := d.nm.size
  unfold replyOptions
  split <;> simp [Tlv.encode, wordBytes, ip, nm]

/-- A packet of a client: the header, the magic cookie included, then options and any padding. -/
def clientPacket (head : Region 240) (opts : List (UInt8 × Bytes)) (padding : Bytes) : Bytes :=
  head.bytes ++ Tlv.encode opts ++ [DHCP_OPT_END] ++ padding

/-- The hardware address in a header. -/
def chaddr (head : Region 240) : Region 6 :=
  ⟨head.load 28 6, by rw [Region.load, List.length_take, List.length_drop, head.size]; rfl⟩

theorem load_eq {m : Memory} {j n : Nat} {b : Bytes} (stores : Tlv.Stores m j b) (fits : n ≤ b.length) :
    (load m j n).bytes = b.take n := by
  apply List.ext_getElem
  · rw [(load m j n).size, List.length_take, Nat.min_eq_left fits]
  · intro i inside _
    have small : i < n := by rwa [(load m j n).size] at inside
    simp only [load_bytes, List.getElem_map, List.getElem_range, List.getElem_take]
    exact stores i (by omega)

theorem clientPacket_long (head : Region 240) (padding : Bytes) {opts : List (UInt8 × Bytes)} {o : UInt8 × Bytes}
    (member : o ∈ opts) : DHCP_MIN_SIZE ≤ (clientPacket head opts padding).length := by
  have size := Tlv.length_encode member
  have headSize := head.size
  simp only [clientPacket, List.length_append, List.length_singleton, DHCP_MIN_SIZE]
  omega

theorem clientPacket_chaddr (head : Region 240) (opts : List (UInt8 × Bytes)) (padding : Bytes) :
    ((clientPacket head opts padding).drop 28).take 6 = (chaddr head).bytes := by
  have size := head.size
  rw [clientPacket, List.append_assoc, List.append_assoc, List.drop_append_of_le_length (by omega),
    List.take_append_of_le_length (by rw [List.length_drop]; omega)]
  rfl

section
variable (d : DhcpServer) (head : Region 240) {opts : List (UInt8 × Bytes)} (padding : Bytes) (stack : Memory)
  (formed : Tlv.Formed DHCP_OPT_END opts) (fits : (Tlv.encode opts).length < 308)
include formed fits

/-- The server reads what the client wrote, over whatever was on its stack. -/
theorem clientPacket_tells : Tells (dhcpMsg d (clientPacket head opts padding) stack) opts := by
  refine tells_of_stores formed fits fun i inside => ?_
  have size : (Tlv.encode opts ++ [DHCP_OPT_END]).length ≤ 308 := by
    rw [List.length_append, List.length_singleton]
    omega
  have headSize := head.size
  have ipSize := d.ip.size
  have there : (clientPacket head opts padding)[240 + i]? = some (Tlv.encode opts ++ [DHCP_OPT_END])[i] := by
    rw [clientPacket, List.append_assoc head.bytes, List.append_assoc head.bytes, List.getElem?_append_right (by omega),
      headSize, Nat.add_sub_cancel_left, List.getElem?_append_left inside, List.getElem?_eq_getElem inside]
  have copied : ((clientPacket head opts padding).take DHCP_MSG_SIZE)[240 + i]? =
      some (Tlv.encode opts ++ [DHCP_OPT_END])[i] := by
    rw [List.getElem?_take_of_lt (by rw [DHCP_MSG_SIZE]; omega), there]
  obtain ⟨taken, -⟩ := List.getElem?_eq_some_iff.mp copied
  rw [dhcpMsg, store_outside _ (.inr (by omega)), store_outside _ (.inr (by simp; omega)),
    store_inside _ (Nat.zero_le _) (by omega), List.getD_eq_getElem?_getD, Nat.sub_zero, copied, Option.getD_some]

/-- The first data byte of an option that was found. -/
theorem optFind_clientPacket {code : UInt8} {data : Bytes} (there : opts.find? (fun o => o.1 = code) = some (code, data)) :
    ∃ j, optFind (dhcpMsg d (clientPacket head opts padding) stack) 240 code = some j ∧
      Tlv.Stores (dhcpMsg d (clientPacket head opts padding) stack) (j + 2) data := by
  have tells := clientPacket_tells d head padding stack formed fits code
  rw [there] at tells
  obtain ⟨j, found, stores⟩ := tells
  exact ⟨j, found, stores.cons.2.cons.2⟩

/-- A question for an address is heard as one. -/
theorem heard_discover {rest : Bytes}
    (type : opts.find? (fun o => o.1 = DHCP_OPT_MSG_TYPE) = some (DHCP_OPT_MSG_TYPE, DHCPDISCOVER :: rest)) :
    heard d (clientPacket head opts padding) stack = some (.discover (chaddr head)) := by
  obtain ⟨j, found, data⟩ := optFind_clientPacket d head padding stack formed fits type
  have long := clientPacket_long head padding (List.mem_of_find?_eq_some type)
  have client := (load_chaddr d long stack).trans (clientPacket_chaddr head opts padding)
  unfold heard
  dsimp only
  rw [if_neg (Nat.not_lt.mpr long), found, Option.bind_some, if_pos data.cons.1, Region.ext client]

/-- A request for an address of the server is heard as one. -/
theorem heard_request {rest more : Bytes} (yi : Fin DHCPS_MAX_IP)
    (type : opts.find? (fun o => o.1 = DHCP_OPT_MSG_TYPE) = some (DHCP_OPT_MSG_TYPE, DHCPREQUEST :: rest))
    (address : opts.find? (fun o => o.1 = DHCP_OPT_REQUESTED_IP) =
      some (DHCP_OPT_REQUESTED_IP, d.ip.bytes.take 3 ++ (DHCPS_BASE_IP + UInt8.ofNat yi) :: more)) :
    heard d (clientPacket head opts padding) stack = some (.request (chaddr head) yi) := by
  obtain ⟨j, found, data⟩ := optFind_clientPacket d head padding stack formed fits type
  obtain ⟨k, wanted, place⟩ := optFind_clientPacket d head padding stack formed fits address
  have long := clientPacket_long head padding (List.mem_of_find?_eq_some type)
  obtain ⟨net, host⟩ := place.append
  have size : (d.ip.bytes.take 3).length = 3 := by rw [List.length_take, d.ip.size]; rfl
  rw [size] at host
  have ours : (load (dhcpMsg d (clientPacket head opts padding) stack) (k + 2) 3).bytes = d.ip.bytes.take 3 := by
    rw [load_eq net size.ge, List.take_take]
    rfl
  have number : (dhcpMsg d (clientPacket head opts padding) stack (k + 5) - DHCPS_BASE_IP).toNat = yi := by
    rw [host.cons.1]
    clear address place host
    revert yi
    decide
  have other : DHCPREQUEST ≠ DHCPDISCOVER := by decide
  have client := (load_chaddr d long stack).trans (clientPacket_chaddr head opts padding)
  unfold heard
  dsimp only
  rw [if_neg (Nat.not_lt.mpr long), found, Option.bind_some, data.cons.1, if_neg other, if_pos rfl, wanted,
    Option.bind_some, if_pos ours, dif_pos (number ▸ yi.isLt), Region.ext client]
  congr 2
  exact Fin.ext number

end

/-- What is sent: to a client that asked, its own header with an address of the server in it, and options that the
client finds and that say no more than the server's address, the mask and the lease. -/
theorem dhcpServerProcess_reply {d : DhcpServer} {packet : Bytes} {stack : Memory} {ticks : Nat → UInt32}
    {reply : Bytes} (sent : (dhcpServerProcess d packet stack ticks).2 = some reply) :
    ∃ question yi, heard d packet stack = some question ∧
      reply = header d packet yi ++ Tlv.encode (replyOptions d question.kind) ++ [DHCP_OPT_END] ∧
      ∀ m : Memory, Tlv.Stores m 0 reply → Tells m (replyOptions d question.kind) := by
  rw [dhcpServerProcess_eq] at sent
  rcases hears : heard d packet stack with _ | question
  · rw [hears] at sent
    cases sent
  rw [hears] at sent
  obtain ⟨yi, -, same⟩ := Option.map_eq_some_iff.mp sent
  have long := (heard_mac hears).1
  rw [dhcpReply_eq d long] at same
  refine ⟨question, yi, rfl, same.symm, fun m stores => ?_⟩
  rw [← same, List.append_assoc] at stores
  have options := stores.append.2
  rw [header_length d long, Nat.zero_add] at options
  exact tells_of_stores (replyOptions_formed d _) (replyOptions_length d _) options

/-- The server as `main` starts it. -/
def mainServer : DhcpServer := dhcpServerInit ⟨[192, 168, 7, 1], rfl⟩ ⟨[255, 255, 255, 0], rfl⟩ false

def host : Region 6 := .fill 6 1

def first : Fin DHCPS_MAX_IP := ⟨0, by decide⟩

/-- The host on the other end of the cable sends this message about the first address. -/
def hostPacket (kind : UInt8) : Bytes :=
  clientPacket (.fill 240 1) [(DHCP_OPT_MSG_TYPE, [kind]), (DHCP_OPT_REQUESTED_IP, [192, 168, 7, DHCPS_BASE_IP])] []

theorem host_formed (kind : UInt8) : Tlv.Formed DHCP_OPT_END
    [(DHCP_OPT_MSG_TYPE, [kind]), (DHCP_OPT_REQUESTED_IP, [192, 168, 7, DHCPS_BASE_IP])] := by
  intro o member
  simp only [List.mem_cons, List.not_mem_nil, or_false] at member
  rcases member with rfl | rfl
  · exact ⟨show DHCP_OPT_MSG_TYPE ≠ DHCP_OPT_END by decide, by simp⟩
  · exact ⟨show DHCP_OPT_REQUESTED_IP ≠ DHCP_OPT_END by decide, by simp⟩

theorem host_heard : heard mainServer (hostPacket DHCPREQUEST) (fun _ => 0) = some (.request host first) :=
  (@heard_request mainServer (.fill 240 1) _ [] _ (host_formed DHCPREQUEST) (by decide) [] [] first rfl rfl).trans
    (by rfl)

theorem dhcpServerProcess_reply_host : ∃ question yi,
    heard mainServer (hostPacket DHCPREQUEST) (fun _ => 0) = some question ∧
      (dhcpServerProcess mainServer (hostPacket DHCPREQUEST) (fun _ => 0) fun _ => 0).2 =
        some (header mainServer (hostPacket DHCPREQUEST) yi ++ Tlv.encode (replyOptions mainServer question.kind) ++
          [DHCP_OPT_END]) := by
  have sent : (dhcpServerProcess mainServer (hostPacket DHCPREQUEST) (fun _ => 0) fun _ => 0).2 =
      some (dhcpReply mainServer (dhcpMsg mainServer (hostPacket DHCPREQUEST) fun _ => 0) first DHCPACK) := by
    rw [dhcpServerProcess_eq, host_heard]
    rfl
  obtain ⟨question, yi, hears, same, -⟩ := dhcpServerProcess_reply sent
  exact ⟨question, yi, hears, sent.trans (congrArg some same)⟩

end Roman.Dhcp
