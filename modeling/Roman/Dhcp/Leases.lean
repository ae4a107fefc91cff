import Roman.Dhcp.Replies
import Roman.Lib.Runs

/-! # Leases over runs

Whatever packets arrive and in whatever order: an address that was granted stays with its
client until the lease ends, and an address that was offered is granted to the client that
asks for it, unless another client was granted it in between. The clock wraps around after
seven weeks and only the upper half of a deadline is kept; the leases do not depend on it.
-/

namespace Roman.Dhcp

open CMem Runs

/-- The lease can be given away: it is free or its time is over. -/
def spare (lease : Fin DHCPS_MAX_IP → Lease) (ticks : Nat → UInt32) (i : Fin DHCPS_MAX_IP) : Bool :=
  (lease i).mac = noMac || Deadline.passed (fullExpiry (lease i).expiry) (ticks i)

/-- The lease after the loop has chosen it: a lease whose time is over is freed. -/
def freed (lease : Fin DHCPS_MAX_IP → Lease) (ticks : Nat → UInt32) (i : Fin DHCPS_MAX_IP) :
    Fin DHCPS_MAX_IP → Lease :=
  if Deadline.passed (fullExpiry (lease i).expiry) (ticks i) then
    Function.update lease i { lease i with mac := noMac }
  else lease

section
variable (mac : Region 6) (ticks : Nat → UInt32)

theorem discover_some (l : List (Fin DHCPS_MAX_IP)) (lease : Fin DHCPS_MAX_IP → Lease) (yi : Fin DHCPS_MAX_IP) :
    discover mac ticks l lease (some yi) = (lease, some ((l.find? fun i => (lease i).mac = mac).getD yi)) := by
  induction l with
  | nil => rfl
  | cons i rest ih =>
      rw [discover, List.find?_cons]
      by_cases own : (lease i).mac = mac
      · rw [if_pos own, decide_eq_true own]
        rfl
      · rw [if_neg own, if_neg (Option.some_ne_none yi), decide_eq_false own, ih]

/-- One pass finds the client's own lease, or else the first that can be given away, and frees at most that one. -/
theorem discover_none {l : List (Fin DHCPS_MAX_IP)} (nodup : l.Nodup) (lease : Fin DHCPS_MAX_IP → Lease) :
    discover mac ticks l lease none =
      (match l.find? fun i => (lease i).mac = mac || spare lease ticks i with
        | some i => if (lease i).mac = mac then lease else freed lease ticks i
        | none => lease,
      (l.find? fun i => (lease i).mac = mac).or (l.find? fun i => spare lease ticks i)) := by
  induction l with
  | nil => rfl
  | cons i rest ih =>
      obtain ⟨fresh, nodup⟩ := List.nodup_cons.mp nodup
      rw [discover, List.find?_cons, List.find?_cons, List.find?_cons]
      by_cases own : (lease i).mac = mac
      · rw [if_pos own, decide_eq_true own, Bool.true_or]
        dsimp only
        rw [if_pos own, Option.some_or]
      rw [if_neg own, if_pos rfl, decide_eq_false own, Bool.false_or]
      dsimp only
      by_cases past : Deadline.passed (fullExpiry (lease i).expiry) (ticks i) = true
      · have here : spare lease ticks i = true := by rw [spare, past, Bool.or_true]
        have later : ∀ j ∈ rest, (Function.update lease i { lease i with mac := noMac }) j = lease j :=
          fun j member => Function.update_of_ne (ne_of_mem_of_not_mem member fresh) ..
        have same : (rest.find? fun j => (Function.update lease i { lease i with mac := noMac } j).mac = mac) =
            rest.find? fun j => (lease j).mac = mac := by
          rw [← List.head?_filter, ← List.head?_filter, List.filter_congr fun j member => by rw [later j member]]
        rw [if_pos past, discover_some, here, same]
        dsimp only
        rw [if_neg own, freed, if_pos past]
        cases rest.find? fun j => (lease j).mac = mac <;> rfl
      rw [if_neg past]
      by_cases free : (lease i).mac = noMac
      · have here : spare lease ticks i = true := by rw [spare, decide_eq_true free, Bool.true_or]
        rw [if_pos free, discover_some, here]
        dsimp only
        rw [if_neg own, freed, if_neg past]
        cases rest.find? fun j => (lease j).mac = mac <;> rfl
      · have here : spare lease ticks i = false := by
          rw [spare, decide_eq_false free, Bool.false_or, Bool.eq_false_iff.mpr past]
        rw [if_neg free, here, ih nodup]

end

/-- What a question can do to a lease: free it when its time is over, or give it to the client that asks for it. -/
theorem answer_lease (question : Message) (ticks : Nat → UInt32) (lease : Fin DHCPS_MAX_IP → Lease)
    (yi : Fin DHCPS_MAX_IP) :
    (question.answer ticks lease).1 yi = lease yi ∨
    (Deadline.passed (fullExpiry (lease yi).expiry) (ticks yi) = true ∧
      ((question.answer ticks lease).1 yi).mac = noMac) ∨
    ∃ mac, question = .request mac yi ∧ ((lease yi).mac = mac ∨ (lease yi).mac = noMac) ∧
      (question.answer ticks lease).1 yi = ⟨mac, leaseExpiry (ticks 0)⟩ := by
  cases question with
  | discover mac =>
      rw [Message.answer, discover_none mac ticks (List.nodup_finRange _)]
      dsimp only
      split
      next i _ =>
        split
        · exact .inl rfl
        · rw [freed]
          split
          next past =>
            by_cases here : yi = i
            · subst here
              rw [Function.update_self]
              exact .inr (.inl ⟨past, rfl⟩)
            · rw [Function.update_of_ne here]
              exact .inl rfl
          · exact .inl rfl
      · exact .inl rfl
  | request mac i =>
      rw [Message.answer]
      split
      next allowed =>
        dsimp only
        by_cases here : yi = i
        · subst here
          exact .inr (.inr ⟨mac, rfl, allowed, Function.update_self ..⟩)
        · rw [Function.update_of_ne here]
          exact .inl rfl
      · exact .inl rfl

/-- An address is offered to its own client, or when it can be given away; then it has no other client afterwards. -/
theorem discover_answer {mac : Region 6} {ticks : Nat → UInt32} {lease : Fin DHCPS_MAX_IP → Lease}
    {yi : Fin DHCPS_MAX_IP} (offered : ((Message.discover mac).answer ticks lease).2 = some yi) :
    ((lease yi).mac = mac ∨ spare lease ticks yi = true) ∧
      ((((Message.discover mac).answer ticks lease).1 yi).mac = mac ∨
        (((Message.discover mac).answer ticks lease).1 yi).mac = noMac) := by
  have pass := discover_none mac ticks (List.nodup_finRange _) lease
  rw [Message.answer, pass] at offered
  rcases known : (List.finRange DHCPS_MAX_IP).find? fun i => (lease i).mac = mac with _ | own
  · rw [known, Option.none_or] at offered
    have able : spare lease ticks yi = true := by simpa using List.find?_some offered
    have others : ∀ i ∈ List.finRange DHCPS_MAX_IP, ((lease i).mac = mac) = False := fun i member =>
      eq_false (by simpa using List.find?_eq_none.mp known i member)
    have first : ((List.finRange DHCPS_MAX_IP).find? fun i => (lease i).mac = mac || spare lease ticks i) = some yi := by
      rw [← offered, ← List.head?_filter, ← List.head?_filter,
        List.filter_congr fun i member => by rw [decide_eq_false (of_eq_false (others i member)), Bool.false_or]]
    refine ⟨.inr able, .inr ?_⟩
    rw [Message.answer, pass, first]
    dsimp only
    rw [if_neg (of_eq_false (others yi (List.mem_finRange yi))), freed]
    split
    · rw [Function.update_self]
    next running =>
      rw [spare, Bool.eq_false_iff.mpr running, Bool.or_false] at able
      exact of_decide_eq_true able
  · rw [known, Option.some_or] at offered
    obtain rfl := Option.some.inj offered
    have mine : (lease own).mac = mac := by simpa using List.find?_some known
    refine ⟨.inl mine, ?_⟩
    rcases answer_lease (.discover mac) ticks lease own with same | ⟨-, free⟩ | ⟨_, other, -⟩
    · exact .inl (same ▸ mine)
    · exact .inr free
    · cases other

/-- An address is granted to its own client, or when it is free. -/
theorem request_answer {mac : Region 6} {ticks : Nat → UInt32} {lease : Fin DHCPS_MAX_IP → Lease}
    {i yi : Fin DHCPS_MAX_IP} : ((Message.request mac i).answer ticks lease).2 = some yi ↔
      i = yi ∧ ((lease yi).mac = mac ∨ (lease yi).mac = noMac) := by
  rw [Message.answer]
  split
  next allowed =>
    rw [Option.some_inj]
    exact ⟨fun same => ⟨same, same ▸ allowed⟩, fun here => here.1⟩
  next refused =>
    exact ⟨(fun granted => by cases granted), fun here => absurd (here.1 ▸ here.2) refused⟩

/-- A packet, the stack at that moment, and the clock at each reading of it, in milliseconds since the start. -/
structure Arrival where
  packet : Bytes
  stack : Memory
  start : Nat
  stop : Nat
  clock : Nat → Nat
  reads : ∀ i, start ≤ clock i ∧ clock i ≤ stop

/-- `get_ticks_ms` -/
def Arrival.ticks (a : Arrival) (i : Nat) : UInt32 := UInt32.ofNat (a.clock i)

/-- The server, and when it was done with the last packet. -/
structure System where
  server : DhcpServer
  now : Nat

/-- What the server sends on a packet. -/
def System.sent (s : System) (a : Arrival) : Option Bytes :=
  (dhcpServerProcess s.server a.packet a.stack a.ticks).2

def System.serve (s : System) (a : Arrival) : System :=
  ⟨(dhcpServerProcess s.server a.packet a.stack a.ticks).1, a.stop⟩

/-- Packets are handled one after the other. -/
def InTurn (s : System) (a : Arrival) : Prop := s.now ≤ a.start

/-- The packet is answered with this type and address, to the client with this hardware address. -/
def Sends (s : System) (a : Arrival) (kind : UInt8) (mac : Region 6) (yi : Fin DHCPS_MAX_IP) : Prop :=
  (a.packet.drop 28).take 6 = mac.bytes ∧
    s.sent a = some (header s.server a.packet yi ++ Tlv.encode (replyOptions s.server kind) ++ [DHCP_OPT_END])

theorem sends_iff {s : System} {a : Arrival} {kind : UInt8} {mac : Region 6} {yi : Fin DHCPS_MAX_IP} :
    Sends s a kind mac yi ↔ ∃ question, heard s.server a.packet a.stack = some question ∧ question.kind = kind ∧
      question.mac = mac ∧ (question.answer a.ticks s.server.lease).2 = some yi := by
  unfold Sends System.sent
  rw [dhcpServerProcess_eq]
  constructor
  · rintro ⟨client, sent⟩
    cases hears : heard s.server a.packet a.stack with
    | none =>
        rw [hears] at sent
        cases sent
    | some question =>
        rw [hears] at sent
        obtain ⟨long, asks⟩ := heard_mac hears
        obtain ⟨i, answered, same⟩ := Option.map_eq_some_iff.mp sent
        rw [dhcpReply_eq s.server long] at same
        obtain ⟨rfl, rfl⟩ := reply_inj s.server long same
        exact ⟨question, rfl, rfl, Region.ext (asks.trans client), answered⟩
  · rintro ⟨question, hears, rfl, rfl, answered⟩
    obtain ⟨long, asks⟩ := heard_mac hears
    rw [hears]
    dsimp only
    rw [answered, Option.map_some, dhcpReply_eq s.server long]
    exact ⟨asks.symm, rfl⟩

/-- The leases change by the question that is heard. -/
theorem serve_lease (s : System) (a : Arrival) : (s.serve a).server.lease = s.server.lease ∨
    ∃ question, heard s.server a.packet a.stack = some question ∧
      (s.serve a).server.lease = (question.answer a.ticks s.server.lease).1 := by
  unfold System.serve
  rw [dhcpServerProcess_eq]
  cases heard s.server a.packet a.stack with
  | none => exact .inl rfl
  | some question => exact .inr ⟨question, rfl, rfl⟩

theorem serve_ip (s : System) (a : Arrival) : (s.serve a).server.ip = s.server.ip := by
  unfold System.serve
  rw [dhcpServerProcess_eq]
  cases heard s.server a.packet a.stack <;> rfl

theorem run_ip (s : System) (as : List Arrival) : (run System.serve s as).server.ip = s.server.ip :=
  run_invariant (fun t : System => t.server.ip = s.server.ip) rfl as fun t a _ same => (serve_ip t a).trans same

/-- A packet that asks for an address of the server, as a client writes it. -/
def Requests (ip : Region 4) (mac : Region 6) (yi : Fin DHCPS_MAX_IP) (packet : Bytes) : Prop :=
  ∃ head opts padding rest more, packet = clientPacket head opts padding ∧ chaddr head = mac ∧
    Tlv.Formed DHCP_OPT_END opts ∧ (Tlv.encode opts).length < 308 ∧
    opts.find? (fun o => o.1 = DHCP_OPT_MSG_TYPE) = some (DHCP_OPT_MSG_TYPE, DHCPREQUEST :: rest) ∧
    opts.find? (fun o => o.1 = DHCP_OPT_REQUESTED_IP) =
      some (DHCP_OPT_REQUESTED_IP, ip.bytes.take 3 ++ (DHCPS_BASE_IP + UInt8.ofNat yi) :: more)

theorem Requests.heard {d : DhcpServer} {mac : Region 6} {yi : Fin DHCPS_MAX_IP} {packet : Bytes}
    (asks : Requests d.ip mac yi packet) (stack : Memory) : heard d packet stack = some (.request mac yi) := by
  obtain ⟨head, opts, padding, rest, more, rfl, rfl, formed, fits, type, address⟩ := asks
  exact heard_request d head padding stack formed fits yi type address

/-- A packet that asks for any address. -/
def Discovers (mac : Region 6) (packet : Bytes) : Prop :=
  ∃ head opts padding rest, packet = clientPacket head opts padding ∧ chaddr head = mac ∧
    Tlv.Formed DHCP_OPT_END opts ∧ (Tlv.encode opts).length < 308 ∧
    opts.find? (fun o => o.1 = DHCP_OPT_MSG_TYPE) = some (DHCP_OPT_MSG_TYPE, DHCPDISCOVER :: rest)

theorem Discovers.heard (d : DhcpServer) {mac : Region 6} {packet : Bytes} (asks : Discovers mac packet)
    (stack : Memory) : heard d packet stack = some (.discover mac) := by
  obtain ⟨head, opts, padding, rest, rfl, rfl, formed, fits, type⟩ := asks
  exact heard_discover d head padding stack formed fits type

/-- What a packet can do to a lease: nothing, free it when its time is over, or grant it. -/
theorem serve_cases (s : System) (a : Arrival) (yi : Fin DHCPS_MAX_IP) :
    (s.serve a).server.lease yi = s.server.lease yi ∨
    (Deadline.passed (fullExpiry (s.server.lease yi).expiry) (a.ticks yi) = true ∧
      ((s.serve a).server.lease yi).mac = noMac) ∨
    ∃ mac, Sends s a DHCPACK mac yi ∧ ((s.server.lease yi).mac = mac ∨ (s.server.lease yi).mac = noMac) ∧
      (s.serve a).server.lease yi = ⟨mac, leaseExpiry (a.ticks 0)⟩ := by
  rcases serve_lease s a with same | ⟨question, hears, changed⟩
  · exact .inl (congrFun same yi)
  rw [changed]
  refine (answer_lease question a.ticks s.server.lease yi).imp_right (Or.imp_right ?_)
  rintro ⟨mac, rfl, allowed, given⟩
  exact ⟨mac, sends_iff.mpr ⟨_, hears, rfl, rfl, request_answer.mpr ⟨rfl, allowed⟩⟩, allowed, given⟩

/-- A grant starts the lease. -/
theorem lease_of_sends {s : System} {a : Arrival} {mac : Region 6} {yi : Fin DHCPS_MAX_IP}
    (grants : Sends s a DHCPACK mac yi) :
    (s.serve a).server.lease yi = ⟨mac, leaseExpiry (UInt32.ofNat (a.clock 0))⟩ := by
  obtain ⟨question, hears, type, rfl, answered⟩ := sends_iff.mp grants
  cases question with
  | discover => cases type
  | request other i =>
      obtain ⟨rfl, allowed⟩ := request_answer.mp answered
      have lease : (s.serve a).server.lease = ((Message.request other i).answer a.ticks s.server.lease).1 := by
        unfold System.serve
        rw [dhcpServerProcess_eq, hears]
      rw [lease, Message.answer, if_pos allowed]
      exact Function.update_self ..

/-- A client that asks for the address that it has, or that nobody has, is granted it. -/
theorem sends_request {s : System} {a : Arrival} {mac : Region 6} {yi : Fin DHCPS_MAX_IP}
    (able : (s.server.lease yi).mac = mac ∨ (s.server.lease yi).mac = noMac)
    (asks : Requests s.server.ip mac yi a.packet) : Sends s a DHCPACK mac yi :=
  sends_iff.mpr ⟨_, asks.heard a.stack, rfl, rfl, request_answer.mpr ⟨rfl, able⟩⟩

def started : System := ⟨mainServer, 0⟩

/-- What a client writes about this address of the server. -/
def askOptions (kind : UInt8) (yi : Fin DHCPS_MAX_IP) : List (UInt8 × Bytes) :=
  [(DHCP_OPT_MSG_TYPE, [kind]), (DHCP_OPT_REQUESTED_IP, [192, 168, 7, DHCPS_BASE_IP + UInt8.ofNat yi])]

theorem askOptions_formed (kind : UInt8) (yi : Fin DHCPS_MAX_IP) : Tlv.Formed DHCP_OPT_END (askOptions kind yi) := by
  intro o member
  simp only [askOptions, List.mem_cons, List.not_mem_nil, or_false] at member
  rcases member with rfl | rfl
  · exact ⟨show DHCP_OPT_MSG_TYPE ≠ DHCP_OPT_END by decide, by simp⟩
  · exact ⟨show DHCP_OPT_REQUESTED_IP ≠ DHCP_OPT_END by decide, by simp⟩

theorem askOptions_length (kind : UInt8) (yi : Fin DHCPS_MAX_IP) : (Tlv.encode (askOptions kind yi)).length < 308 := by
  simp [askOptions, Tlv.encode]

/-- The client whose hardware address repeats this byte asks for this address, at this time. -/
def clientAsks (byte kind : UInt8) (yi : Fin DHCPS_MAX_IP) (t : Nat) : Arrival where
  packet := clientPacket (.fill 240 byte) (askOptions kind yi) []
  stack := fun _ => 0
  start := t
  stop := t
  clock := fun _ => t
  reads := fun _ => ⟨Nat.le_refl _, Nat.le_refl _⟩

theorem clientAsks_requests (byte : UInt8) (yi : Fin DHCPS_MAX_IP) (t : Nat) :
    Requests mainServer.ip (.fill 6 byte) yi (clientAsks byte DHCPREQUEST yi t).packet :=
  ⟨.fill 240 byte, _, [], [], [], rfl, Region.ext rfl, askOptions_formed DHCPREQUEST yi,
    askOptions_length DHCPREQUEST yi, rfl, rfl⟩

theorem clientAsks_discovers (byte : UInt8) (yi : Fin DHCPS_MAX_IP) (t : Nat) :
    Discovers (.fill 6 byte) (clientAsks byte DHCPDISCOVER yi t).packet :=
  ⟨.fill 240 byte, _, [], [], rfl, Region.ext rfl, askOptions_formed DHCPDISCOVER yi,
    askOptions_length DHCPDISCOVER yi, rfl⟩

theorem clientAsks_granted (byte : UInt8) (yi : Fin DHCPS_MAX_IP) (t : Nat) :
    Sends started (clientAsks byte DHCPREQUEST yi t) DHCPACK (.fill 6 byte) yi :=
  sends_request (.inr rfl) (clientAsks_requests byte yi t)

/-- A client that asks for another address is not granted this one. -/
theorem clientAsks_elsewhere {s : System} (ours : s.server.ip = mainServer.ip) {byte : UInt8}
    {yi other : Fin DHCPS_MAX_IP} (apart : yi ≠ other) {t : Nat} (client : Region 6) :
    ¬ Sends s (clientAsks byte DHCPREQUEST yi t) DHCPACK client other := by
  intro grants
  obtain ⟨question, hears, -, -, answered⟩ := sends_iff.mp grants
  have asked : Requests s.server.ip (.fill 6 byte) yi (clientAsks byte DHCPREQUEST yi t).packet := by
    rw [ours]
    exact clientAsks_requests byte yi t
  rw [asked.heard, Option.some.injEq] at hears
  subst hears
  exact apart (request_answer.mp answered).1

/-- The address that the loop chooses. -/
def chosen (s : System) (a : Arrival) (mac : Region 6) : Option (Fin DHCPS_MAX_IP) :=
  ((List.finRange DHCPS_MAX_IP).find? fun i => (s.server.lease i).mac = mac).or
    ((List.finRange DHCPS_MAX_IP).find? fun i => spare s.server.lease a.ticks i)

theorem sends_offer_iff {s : System} {a : Arrival} {mac : Region 6} (asks : Discovers mac a.packet)
    {yi : Fin DHCPS_MAX_IP} : Sends s a DHCPOFFER mac yi ↔ chosen s a mac = some yi := by
  have hears := asks.heard s.server a.stack
  have answer : ((Message.discover mac).answer a.ticks s.server.lease).2 = chosen s a mac := by
    rw [Message.answer, discover_none mac a.ticks (List.nodup_finRange _), chosen]
  rw [sends_iff, ← answer]
  constructor
  · rintro ⟨question, heard, -, -, answered⟩
    obtain rfl := Option.some.inj (hears.symm.trans heard)
    exact answered
  · exact fun answered => ⟨_, hears, rfl, rfl, answered⟩

def leaseMs : Nat := DEFAULT_LEASE_TIME_S * 1000

/-- The address was granted to the client, at this time or later again. -/
def Held (mac : Region 6) (yi : Fin DHCPS_MAX_IP) (granted : Nat) (s : System) : Prop :=
  ∃ since, granted ≤ since ∧ since ≤ s.now ∧ s.server.lease yi = ⟨mac, leaseExpiry (UInt32.ofNat since)⟩

theorem leaseExpiry_ofNat (since : Nat) :
    leaseExpiry (UInt32.ofNat since) = (UInt32.ofNat (since + leaseMs) >>> 16).toUInt16 := by
  rw [UInt32.ofNat_add since leaseMs]
  rfl

theorem fullExpiry_leaseExpiry (since : Nat) :
    fullExpiry (leaseExpiry (UInt32.ofNat since)) = UInt32.ofNat ((since + leaseMs) / 65536 * 65536 + 65535) := by
  rw [leaseExpiry_ofNat, fullExpiry]
  exact Deadline.rounded_eq (since + leaseMs)

section
variable {mac : Region 6} {yi : Fin DHCPS_MAX_IP} {granted : Nat} {s : System} (held : Held mac yi granted s)
include held

theorem Held.mac_eq : (s.server.lease yi).mac = mac := by
  obtain ⟨_, -, -, lease⟩ := held
  rw [lease]

theorem Held.not_passed {t : Nat} (later : s.now ≤ t) (within : t < granted + leaseMs) :
    Deadline.passed (fullExpiry (s.server.lease yi).expiry) (UInt32.ofNat t) = false := by
  obtain ⟨since, after, before, lease⟩ := held
  have size : leaseMs = 86400000 := rfl
  rw [lease, fullExpiry_leaseExpiry]
  exact Deadline.not_passed (by omega) (by omega)

variable {a : Arrival} (turn : InTurn s a) (within : a.stop < granted + leaseMs) (client : mac ≠ noMac)
include turn within client

theorem Held.not_spare : spare s.server.lease a.ticks yi = false := by
  obtain ⟨low, high⟩ := a.reads yi
  have running := held.not_passed (Nat.le_trans turn low) (Nat.lt_of_le_of_lt high within)
  rw [spare, held.mac_eq, decide_eq_false client, Bool.false_or]
  exact running

/-- Whatever arrives, the address stays with its client. -/
theorem Held.serve : Held mac yi granted (s.serve a) := by
  obtain ⟨low, high⟩ := a.reads 0
  have kept : (s.serve a).server.lease yi = s.server.lease yi → Held mac yi granted (s.serve a) := by
    intro same
    obtain ⟨since, after, before, lease⟩ := held
    exact ⟨since, after, Nat.le_trans before (Nat.le_trans turn (Nat.le_trans low high)), same.trans lease⟩
  rcases serve_cases s a yi with same | ⟨past, -⟩ | ⟨other, -, allowed, given⟩
  · exact kept same
  · have spent := held.not_spare turn within client
    rw [spare, past, Bool.or_true] at spent
    cases spent
  · have own : other = mac := by
      rw [held.mac_eq] at allowed
      exact (allowed.resolve_right client).symm
    obtain ⟨since, after, before, -⟩ := held
    refine ⟨a.clock 0, Nat.le_trans after (Nat.le_trans before (Nat.le_trans turn low)), high, ?_⟩
    rw [given, own]
    rfl

/-- Nobody else is told the address. -/
theorem Held.sends {kind : UInt8} {other : Region 6} (sends : Sends s a kind other yi) : other = mac := by
  obtain ⟨question, -, -, rfl, answered⟩ := sends_iff.mp sends
  have owner := held.mac_eq
  cases question with
  | discover other =>
      have spent := held.not_spare turn within client
      rcases (discover_answer answered).1 with own | able
      · exact own.symm.trans owner
      · rw [spent] at able
        cases able
  | request other i =>
      obtain ⟨-, allowed⟩ := request_answer.mp answered
      rw [owner] at allowed
      exact (allowed.resolve_right client).symm

end

/-- The clock at the last packet of a run is no earlier than at its start. -/
theorem now_le_stop {s : System} {as : List Arrival} {b : Arrival} (turns : Along System.serve InTurn s (as ++ [b])) :
    s.now ≤ b.stop := by
  induction as generalizing s with
  | nil =>
      obtain ⟨low, high⟩ := b.reads 0
      exact Nat.le_trans turns.1 (Nat.le_trans low high)
  | cons a as ih =>
      obtain ⟨low, high⟩ := a.reads 0
      exact Nat.le_trans turns.1 (Nat.le_trans low (Nat.le_trans high (ih turns.2)))

/-- A lease lasts through every run that ends before it does. -/
theorem Held.run {mac : Region 6} {yi : Fin DHCPS_MAX_IP} {granted : Nat} {s : System} {as : List Arrival} {b : Arrival}
    (client : mac ≠ noMac) (held : Held mac yi granted s) (turns : Along System.serve InTurn s (as ++ [b]))
    (within : b.stop < granted + leaseMs) :
    InTurn (run System.serve s as) b ∧ Held mac yi granted (run System.serve s as) := by
  induction as generalizing s with
  | nil => exact ⟨turns.1, held⟩
  | cons a as ih =>
      have before : a.stop < granted + leaseMs := Nat.lt_of_le_of_lt (now_le_stop turns.2) within
      exact ih (held.serve turns.1 before client) turns.2

/-- The address has no other client. -/
def Open (mac : Region 6) (yi : Fin DHCPS_MAX_IP) (s : System) : Prop :=
  (s.server.lease yi).mac = mac ∨ (s.server.lease yi).mac = noMac

/-- The packet does not give the address to somebody else. -/
def Spares (mac : Region 6) (yi : Fin DHCPS_MAX_IP) (s : System) (a : Arrival) : Prop :=
  ∀ other, Sends s a DHCPACK other yi → other = mac

theorem open_of_sends {s : System} {a : Arrival} {mac : Region 6} {yi : Fin DHCPS_MAX_IP}
    (offers : Sends s a DHCPOFFER mac yi) : Open mac yi (s.serve a) := by
  obtain ⟨question, hears, type, rfl, answered⟩ := sends_iff.mp offers
  cases question with
  | discover mac =>
      have lease : (s.serve a).server.lease = ((Message.discover mac).answer a.ticks s.server.lease).1 := by
        unfold System.serve
        rw [dhcpServerProcess_eq, hears]
      rw [Open, lease]
      exact (discover_answer answered).2
  | request => cases type

theorem Open.serve {s : System} {a : Arrival} {mac : Region 6} {yi : Fin DHCPS_MAX_IP} (free : Open mac yi s)
    (spares : Spares mac yi s a) : Open mac yi (s.serve a) := by
  rw [Open]
  rcases serve_cases s a yi with same | ⟨-, freed⟩ | ⟨other, grants, -, given⟩
  · rw [same]
    exact free
  · exact .inr freed
  · rw [given]
    exact .inl (spares other grants)

/-- An address that was offered is granted when the client asks for it, however long it takes and whatever else
arrives, unless another client was granted it in between. -/
theorem offered_granted {s : System} {a b : Arrival} {as : List Arrival} {mac : Region 6} {yi : Fin DHCPS_MAX_IP}
    (offers : Sends s a DHCPOFFER mac yi) (others : Along System.serve (Spares mac yi) (s.serve a) as)
    (asks : Requests s.server.ip mac yi b.packet) : Sends (run System.serve s (a :: as)) b DHCPACK mac yi := by
  have free : Open mac yi (run System.serve s (a :: as)) :=
    others.invariant (Open mac yi) (open_of_sends offers) fun t c _ free spares => free.serve spares
  refine sends_request free ?_
  rwa [run_ip]

def second : Fin DHCPS_MAX_IP := ⟨1, by decide⟩

/-- A second client is offered the address too, and takes another one. -/
theorem offered_granted_host :
    Sends (run System.serve started [clientAsks 1 DHCPDISCOVER first 0, clientAsks 2 DHCPDISCOVER first 400,
      clientAsks 2 DHCPREQUEST second 500]) (clientAsks 1 DHCPREQUEST first 1000) DHCPACK host first := by
  have offers : Sends started (clientAsks 1 DHCPDISCOVER first 0) DHCPOFFER host first :=
    (sends_offer_iff (clientAsks_discovers 1 first 0)).mpr rfl
  have discovers : ∀ s, Spares host first s (clientAsks 2 DHCPDISCOVER first 400) := by
    intro s other grants
    obtain ⟨question, hears, kind, -⟩ := sends_iff.mp grants
    rw [(clientAsks_discovers 2 first 400).heard, Option.some.injEq] at hears
    subst hears
    cases kind
  have requests : Spares host first
      (run System.serve started [clientAsks 1 DHCPDISCOVER first 0, clientAsks 2 DHCPDISCOVER first 400])
      (clientAsks 2 DHCPREQUEST second 500) :=
    fun other grants => absurd grants (clientAsks_elsewhere (run_ip _ _) (by decide) other)
  have others : Along System.serve (Spares host first) (started.serve (clientAsks 1 DHCPDISCOVER first 0))
      [clientAsks 2 DHCPDISCOVER first 400, clientAsks 2 DHCPREQUEST second 500] := ⟨discovers _, requests, trivial⟩
  exact offered_granted offers others (clientAsks_requests 1 first 1000)

/-- The address is free, or its lease was granted at this time. -/
def Lapsing (yi : Fin DHCPS_MAX_IP) (since : Nat) (s : System) : Prop :=
  (s.server.lease yi).mac = noMac ∨ (s.server.lease yi).expiry = leaseExpiry (UInt32.ofNat since)

theorem Lapsing.serve {s : System} {a : Arrival} {yi : Fin DHCPS_MAX_IP} {since : Nat} (lapsing : Lapsing yi since s)
    (silent : ∀ other, ¬Sends s a DHCPACK other yi) : Lapsing yi since (s.serve a) := by
  rw [Lapsing]
  rcases serve_cases s a yi with same | ⟨-, freed⟩ | ⟨other, grants, -⟩
  · rw [same]
    exact lapsing
  · exact .inl freed
  · exact absurd grants (silent other)

theorem Lapsing.spare {s : System} {a : Arrival} {yi : Fin DHCPS_MAX_IP} {since : Nat} (lapsing : Lapsing yi since s)
    (past : since + leaseMs + 65536 ≤ a.clock yi) (near : a.clock yi ≤ since + leaseMs + 2 ^ 31) :
    spare s.server.lease a.ticks yi = true := by
  rw [Dhcp.spare]
  rcases lapsing with free | ends
  · rw [decide_eq_true free, Bool.true_or]
  · have passed : Deadline.passed (fullExpiry (s.server.lease yi).expiry) (a.ticks yi) = true := by
      rw [ends, fullExpiry_leaseExpiry]
      exact Deadline.passed_of_lt (by omega) (by omega)
    rw [passed, Bool.or_true]

/-- An address that nobody has renewed is there again: from a minute after the end of the lease, and for 24 days, any
client that asks is answered. -/
theorem lapsed_answered {s : System} {a b : Arrival} {as : List Arrival} {mac other : Region 6}
    {yi : Fin DHCPS_MAX_IP} (grants : Sends s a DHCPACK mac yi)
    (silent : Along System.serve (fun t c => ∀ client, ¬Sends t c DHCPACK client yi) (s.serve a) as)
    (asks : Discovers other b.packet) (past : a.clock 0 + leaseMs + 65536 ≤ b.clock yi)
    (near : b.clock yi ≤ a.clock 0 + leaseMs + 2 ^ 31) :
    ∃ i, Sends (run System.serve s (a :: as)) b DHCPOFFER other i := by
  have lapsing : Lapsing yi (a.clock 0) (run System.serve s (a :: as)) :=
    silent.invariant (Lapsing yi (a.clock 0)) (.inr (congrArg Lease.expiry (lease_of_sends grants)))
      fun t c _ lapsing quiet => lapsing.serve quiet
  have able := List.find?_isSome.mpr ⟨yi, List.mem_finRange yi, lapsing.spare past near⟩
  have given : (chosen (run System.serve s (a :: as)) b other).isSome = true := by
    rw [chosen, Option.isSome_or, able, Bool.or_true]
  obtain ⟨i, answer⟩ := Option.isSome_iff_exists.mp given
  exact ⟨i, (sends_offer_iff asks).mpr answer⟩

/-- Seven other clients take the other addresses, an hour after the host took the first. -/
def othersAsk : List Arrival :=
  ((List.finRange DHCPS_MAX_IP).filter (· ≠ first)).map fun i : Fin DHCPS_MAX_IP =>
    clientAsks (UInt8.ofNat (i + 1)) DHCPREQUEST i 3600000

theorem othersAsk_elsewhere (s : System) (ours : s.server.ip = mainServer.ip) :
    Along System.serve (fun t c => ∀ client, ¬ Sends t c DHCPACK client first) s othersAsk := by
  apply along_of_splits
  intro before a after split client
  have member : a ∈ othersAsk := split ▸ List.mem_append_right before List.mem_cons_self
  obtain ⟨i, other, rfl⟩ := List.mem_map.mp member
  exact clientAsks_elsewhere ((run_ip s before).trans ours) (of_decide_eq_true (List.mem_filter.mp other).2) client

/-- When the lease of the host is over a ninth client is offered an address. -/
theorem lapsed_answered_host :
    ∃ i, Sends (run System.serve started (clientAsks 1 DHCPREQUEST first 0 :: othersAsk))
      (clientAsks 9 DHCPDISCOVER first (leaseMs + 65536)) DHCPOFFER (.fill 6 9) i := by
  have silent := othersAsk_elsewhere (started.serve (clientAsks 1 DHCPREQUEST first 0)) (serve_ip _ _)
  exact lapsed_answered (clientAsks_granted 1 first 0) silent (clientAsks_discovers 9 first _)
    (Nat.le_of_eq (Nat.zero_add _).symm) (Nat.add_le_add (Nat.le_add_left _ _) (by decide))

end Roman.Dhcp
