import Roman.HttpServer.Receiving

/-! # Segmentation

TCP may cut a request anywhere. `http_recv_cb` looks for the Content-Length header
in what has arrived when the first segment is in, and keeps the number it finds
then. A request is dispatched as a whole exactly if that number is the right one.
-/

namespace Roman

open CMem CStr NorFlash

/-- The header name, in the two spellings that are searched for in this order. -/
def upperName : Bytes := ascii "Content-Length:"

def lowerName : Bytes := ascii "content-length:"

def requestText (before name : Bytes) (n : Nat) (after body : Bytes) : Bytes :=
  before ++ (name ++ (0x20 :: (decimal n ++ (ascii "\r\n" ++ after ++ ascii "\r\n" ++ body))))

/-- A complete request with one Content-Length header. -/
structure Request where
  /-- The request line and the header lines in front of the header. -/
  before : Bytes
  name : Bytes
  n : Nat
  /-- The header lines behind it. -/
  after : Bytes
  body : Bytes
  spelled : name = upperName ∨ name = lowerName
  nulFree : NulFree (requestText before name n after body)
  small : (requestText before name n after body).length < HTTP_BUF_SIZE
  counted : body.length = n
  /-- The first blank line is the one in front of the body. -/
  blank : strstr (requestText before name n after body) (ascii "\r\n\r\n") =
    some (ascii "\r\n\r\n" ++ body)
  /-- Nothing in front of the header spells its name, -/
  first : strstr (requestText before name n after body) name =
    some ((requestText before name n after body).drop before.length)
  /-- and nothing anywhere is a second header in the spelling that is preferred. -/
  only : name = upperName ∨ strstr (requestText before name n after body) upperName = none

namespace Request

variable (q : Request)

def text : Bytes := requestText q.before q.name q.n q.after q.body

/-- The end of the header name, and that of its value. -/
def nameEnd : Nat := q.before.length + q.name.length

def valueEnd : Nat := q.nameEnd + 1 + (decimal q.n).length

/-- The other spelling of the header name occurs nowhere. -/
def Plain : Prop := q.name = lowerName ∨ strstr q.text lowerName = none

theorem text_length : q.text.length = q.valueEnd + q.after.length + 4 + q.n := by
  simp only [text, requestText, valueEnd, nameEnd, List.length_append, List.length_cons, q.counted,
    show (ascii "\r\n").length = 2 from rfl]
  omega

/-- The request from its header on, as far as its first `k` bytes behind the name. -/
theorem header_take {m : Nat} (named : q.nameEnd ≤ m) : ∃ rest : Bytes,
    (∀ b, rest.head? = some b → isDigit b = false) ∧
    (q.text.take m).drop q.before.length =
      q.name ++ (0x20 :: (decimal q.n ++ rest)).take (m - q.nameEnd) := by
  refine ⟨ascii "\r\n" ++ q.after ++ ascii "\r\n" ++ q.body, ?_, ?_⟩
  · intro b head
    cases head
    rfl
  · simp only [nameEnd] at named ⊢
    rw [List.drop_take, text, requestText, List.drop_left, List.take_append,
      List.take_of_length_le (by omega), Nat.sub_sub]

/-- A name without its colon. -/
theorem name_colon : ∃ front : Bytes, q.name = front ++ [0x3A] ∧ (0x3A : UInt8) ∉ front := by
  obtain upper | lower := q.spelled
  · exact ⟨ascii "Content-Length", upper, by decide +kernel⟩
  · exact ⟨ascii "content-length", lower, by decide +kernel⟩

end Request

theorem contentLengthOf_found {text cl value : Bytes} (found : strstr text upperName = some cl ∨
    strstr text upperName = none ∧ strstr text lowerName = some cl)
    (colon : strchr cl 0x3A = some (0x3A :: value)) : contentLengthOf text = atoi value := by
  obtain upper | ⟨none, lower⟩ := found
  · rw [upperName] at upper
    simp only [contentLengthOf, upper, colon, List.drop_succ_cons, List.drop_zero]
  · rw [upperName] at none
    rw [lowerName] at lower
    simp only [contentLengthOf, none, lower, colon, List.drop_succ_cons, List.drop_zero]

theorem contentLengthOf_absent {text : Bytes} (upper : strstr text upperName = none)
    (lower : strstr text lowerName = none) : contentLengthOf text = 0 := by
  rw [upperName] at upper
  rw [lowerName] at lower
  simp only [contentLengthOf, upper, lower]

namespace Request

variable (q : Request)

theorem strstr_name (m : Nat) : strstr (q.text.take m) q.name =
    if q.nameEnd ≤ m then some ((q.text.take m).drop q.before.length) else none := by
  have total := q.text_length
  have place : q.text.length - (q.text.drop q.before.length).length = q.before.length := by
    rw [List.length_drop, total, valueEnd, nameEnd]
    omega
  have first : strstr q.text q.name = some (q.text.drop q.before.length) := q.first
  rw [strstr_take first m, place]
  rfl

/-- Once the name has arrived, the value is what has arrived of the digits. -/
theorem contentLengthOf_named {m : Nat} (named : q.nameEnd ≤ m) :
    contentLengthOf (q.text.take m) = digitsValue ((decimal q.n).take (m - q.nameEnd - 1)) := by
  have total := q.text_length
  have size : q.text.length < HTTP_BUF_SIZE := q.small
  rw [HTTP_BUF_SIZE] at size
  have name := q.strstr_name m
  rw [if_pos named] at name
  obtain ⟨rest, stop, header⟩ := q.header_take named
  obtain ⟨front, spelling, colon⟩ := q.name_colon
  have found : strstr (q.text.take m) upperName = some ((q.text.take m).drop q.before.length) ∨
      strstr (q.text.take m) upperName = none ∧
        strstr (q.text.take m) lowerName = some ((q.text.take m).drop q.before.length) := by
    obtain upper | none := q.only
    · exact .inl (upper ▸ name)
    · obtain upper | lower := q.spelled
      · exact .inl (upper ▸ name)
      · exact .inr ⟨strstr_take_none none m, lower ▸ name⟩
  have value : strchr (q.name ++ (0x20 :: (decimal q.n ++ rest)).take (m - q.nameEnd)) 0x3A =
      some (0x3A :: (0x20 :: (decimal q.n ++ rest)).take (m - q.nameEnd)) := by
    rw [spelling, List.append_assoc]
    exact strchr_append_of_notMem colon _
  rw [← header] at value
  rw [contentLengthOf_found found value]
  exact atoi_take (by omega) stop _

/-- Before that there is none, unless the other spelling gives one. -/
theorem contentLengthOf_unnamed (plain : q.Plain) {m : Nat} (unnamed : m < q.nameEnd) :
    contentLengthOf (q.text.take m) = 0 := by
  have name := q.strstr_name m
  rw [if_neg (Nat.not_le.mpr unnamed)] at name
  obtain upper | lower := q.spelled
  · obtain lower | none := plain
    · rw [upper] at lower
      exact absurd lower (by decide +kernel)
    · exact contentLengthOf_absent (upper ▸ name) (strstr_take_none none m)
  · obtain upper | none := q.only
    · rw [lower] at upper
      exact absurd upper (by decide +kernel)
    · exact contentLengthOf_absent (strstr_take_none none m) (lower ▸ name)

/-- The value is the right one when its last digit has arrived, and before that
    only if it is zero. -/
theorem contentLengthOf_eq_iff {m : Nat} (named : q.nameEnd ≤ m) :
    contentLengthOf (q.text.take m) = q.n ↔ q.n = 0 ∨ q.valueEnd ≤ m := by
  rw [q.contentLengthOf_named named, Int.natCast_inj, valueEnd]
  by_cases whole : q.nameEnd + 1 + (decimal q.n).length ≤ m
  · rw [List.take_of_length_le (by omega), digitsValue_decimal]
    exact iff_of_true rfl (.inr whole)
  · have positive := List.length_pos_iff.mpr (decimal_ne_nil q.n)
    have less := @digitsValue_take q.n (m - q.nameEnd - 1) (by omega)
    simp only [whole, or_false]
    omega

theorem contentLengthOf_plain (plain : q.Plain) (m : Nat) :
    contentLengthOf (q.text.take m) = q.n ↔ q.n = 0 ∨ q.valueEnd ≤ m := by
  by_cases named : q.nameEnd ≤ m
  · exact q.contentLengthOf_eq_iff named
  · rw [q.contentLengthOf_unnamed plain (Nat.not_le.mp named), valueEnd]
    omega

theorem contentLengthOf_plain_nonneg (plain : q.Plain) (m : Nat) :
    0 ≤ contentLengthOf (q.text.take m) := by
  by_cases named : q.nameEnd ≤ m
  · rw [q.contentLengthOf_named named]
    omega
  · exact Int.le_of_eq (q.contentLengthOf_unnamed plain (Nat.not_le.mp named)).symm

end Request

/-- The segments of one connection, up to the one on which `http_process_request` is
    called: the state it is called with, and the segments that are still to come. -/
def httpReceiveAll (st : HttpState) : List Bytes → Option (HttpState × List Bytes)
  | [] => none
  | data :: rest =>
      match httpReceive st data with
      | .waiting st => httpReceiveAll st rest
      | .complete st => some (st, rest)
      | .ignored | .tooLarge _ => none

/-- The first length that is looked up and not negative. -/
def lookedUp (seen : Bytes) : List Bytes → Int
  | [] => -1
  | data :: rest =>
      if contentLengthOf (seen ++ data) < 0 then lookedUp (seen ++ data) rest
      else contentLengthOf (seen ++ data)

namespace Request

variable (q : Request)

/-- Where the body begins. -/
def bodyStart : Nat := q.text.length - q.n

/-- A segment of the request, after the others in front of it. -/
theorem receive {seen data : Bytes} (isPrefix : seen ++ data <+: q.text) (contentLength : Int) :
    httpReceive (.received seen contentLength) data =
      let st := HttpState.received (seen ++ data) (frozenLength contentLength (seen ++ data))
      if q.bodyStart ≤ (seen ++ data).length ∧
          (frozenLength contentLength (seen ++ data) ≤ 0 ∨
            frozenLength contentLength (seen ++ data) ≤ ((seen ++ data).length - q.bodyStart : Nat)) then
        .complete st
      else .waiting st := by
  have size : q.text.length < HTTP_BUF_SIZE := q.small
  have longer := isPrefix.length_le
  have eq := List.prefix_iff_eq_take.mp isPrefix
  have free : NulFree (seen ++ data) := by
    rw [eq]
    exact NulFree.take q.nulFree _
  rw [httpReceive_received contentLength free (by omega)]
  generalize seen ++ data = arrived at longer eq
  have start : q.bodyStart = q.text.length - q.n := rfl
  have total := q.text_length
  have place : q.text.length - (ascii "\r\n\r\n" ++ q.body).length = q.bodyStart - 4 := by
    rw [List.length_append, q.counted, start, show (ascii "\r\n\r\n").length = 4 from rfl]
    omega
  have blank : strstr q.text (ascii "\r\n\r\n") = some (ascii "\r\n\r\n" ++ q.body) := q.blank
  have found := strstr_take blank arrived.length
  rw [place, ← eq, show (ascii "\r\n\r\n").length = 4 from rfl,
    Nat.sub_add_cancel (by omega : 4 ≤ q.bodyStart)] at found
  by_cases ended : q.bodyStart ≤ arrived.length
  · have separator : arrived.length - (arrived.drop (q.bodyStart - 4)).length + 4 = q.bodyStart := by
      rw [List.length_drop]
      omega
    rw [if_pos ended] at found
    simp only [found, separator, HttpState.received_contentLength]
    by_cases short : frozenLength contentLength arrived > 0 ∧
        ((arrived.length : Int) - (q.bodyStart : Int)) < frozenLength contentLength arrived
    · rw [if_pos short, if_neg (by omega)]
    · rw [if_neg short, if_pos ⟨ended, by omega⟩]
  · rw [if_neg ended] at found
    simp only [found]
    rw [if_neg fun both => ended both.1]

section
variable {q} {seen : Bytes} {segs : List Bytes}

/-- A length that is not negative is kept. -/
theorem contentLength_kept {contentLength : Int} (known : 0 ≤ contentLength)
    (cut : seen ++ segs.flatten <+: q.text) {st : HttpState} {rest : List Bytes}
    (dispatched : httpReceiveAll (.received seen contentLength) segs = some (st, rest)) :
    st.contentLength = contentLength := by
  induction segs generalizing seen with
  | nil => cases dispatched
  | cons data segs ih =>
      rw [List.flatten_cons, ← List.append_assoc] at cut
      have frozen : frozenLength contentLength (seen ++ data) = contentLength := if_neg (by omega)
      rw [httpReceiveAll, q.receive ((List.prefix_append _ _).trans cut), frozen] at dispatched
      dsimp only at dispatched
      split at dispatched
      · rename_i waiting
        split at waiting <;> cases waiting
        exact ih cut dispatched
      · rename_i complete
        split at complete <;> cases complete
        cases dispatched
        rfl
      · cases dispatched
      · cases dispatched

/-- With the right length the request is dispatched on its last byte, and with any
    other it is not dispatched as it is. -/
theorem dispatched_frozen_iff {contentLength : Int} (known : 0 ≤ contentLength)
    (cut : seen ++ segs.flatten = q.text) (nonempty : ∀ data ∈ segs, data ≠ []) (more : segs ≠ []) :
    httpReceiveAll (.received seen contentLength) segs = some (.received q.text q.n, []) ↔
      contentLength = q.n := by
  constructor
  · intro dispatched
    have kept := contentLength_kept known ⟨[], by rw [List.append_nil, cut]⟩ dispatched
    rw [HttpState.received_contentLength] at kept
    exact kept.symm
  · rintro rfl
    induction segs generalizing seen with
    | nil => exact absurd rfl more
    | cons data segs ih =>
        rw [List.flatten_cons, ← List.append_assoc] at cut
        have isPrefix : seen ++ data <+: q.text := ⟨segs.flatten, cut⟩
        have frozen : frozenLength q.n (seen ++ data) = q.n := if_neg (by omega)
        have total := q.text_length
        have start : q.bodyStart = q.text.length - q.n := rfl
        rw [httpReceiveAll, q.receive isPrefix, frozen]
        dsimp only
        cases segs with
        | nil =>
            rw [List.flatten_nil, List.append_nil] at cut
            rw [cut, if_pos ⟨by omega, by omega⟩]
        | cons next segs =>
            -- something is still to come, and it belongs to the body
            have later : 0 < next.length := List.length_pos_iff.mpr (nonempty next (by simp))
            have shorter : (seen ++ data).length < q.text.length := by
              rw [← cut]
              simp only [List.length_append, List.flatten_cons]
              omega
            rw [if_neg (by omega)]
            exact ih cut (fun d member => nonempty d (List.mem_cons_of_mem data member)) (by simp)

/-- A number that is not there yet is looked up again, and no request is dispatched
    in between. -/
theorem dispatched_iff_lookedUp {contentLength : Int} (unknown : contentLength < 0)
    (cut : seen ++ segs.flatten = q.text) (nonempty : ∀ data ∈ segs, data ≠ []) :
    httpReceiveAll (.received seen contentLength) segs = some (.received q.text q.n, []) ↔
      lookedUp seen segs = q.n := by
  induction segs generalizing seen contentLength with
  | nil => exact iff_of_false nofun (by simp only [lookedUp]; omega)
  | cons data segs ih =>
      have cut' : seen ++ data ++ segs.flatten = q.text := by
        rw [← cut, List.flatten_cons, List.append_assoc]
      have isPrefix : seen ++ data <+: q.text := ⟨segs.flatten, cut'⟩
      have frozen : frozenLength contentLength (seen ++ data) = contentLengthOf (seen ++ data) :=
        if_pos unknown
      rw [lookedUp]
      by_cases missing : contentLengthOf (seen ++ data) < 0
      · have early : ¬ q.bodyStart ≤ (seen ++ data).length := by
          intro ended
          have total := q.text_length
          have start : q.bodyStart = q.text.length - q.n := rfl
          rw [List.prefix_iff_eq_take.mp isPrefix,
            q.contentLengthOf_named (by rw [valueEnd] at total; omega)] at missing
          omega
        rw [httpReceiveAll, q.receive isPrefix, frozen, if_pos missing]
        dsimp only
        rw [if_neg fun both => early both.1]
        exact ih missing cut' fun d member => nonempty d (List.mem_cons_of_mem data member)
      · rw [if_neg missing, ← dispatched_frozen_iff (Int.not_lt.mp missing) cut nonempty (by simp),
          httpReceiveAll, httpReceiveAll, q.receive isPrefix, q.receive isPrefix, frozen,
          show frozenLength (contentLengthOf (seen ++ data)) (seen ++ data) = _ from if_neg missing]

end

end Request

/-- `http_recv_cb` for all segments of a connection. -/
def httpRecvAll (w : World) (st : HttpState) (s : Http) :
    List Bytes → Outcome (List TcpEvent × HttpState × Http)
  | [] => .done ([], st, s)
  | data :: rest =>
      match httpRecvCb w st s data with
      | .cut flash => .cut flash
      | .done (events, st, s) =>
          (httpRecvAll w st s rest).map fun after => (events ++ after.1, after.2)

/-- Segments that dispatch one request at their end are one call of
    `http_process_request` behind acknowledgements. -/
theorem httpRecvAll_dispatched {segs : List Bytes} {st st' : HttpState}
    (dispatched : httpReceiveAll st segs = some (st', [])) (w : World) (s : Http) :
    httpRecvAll w st s segs = (httpProcessRequest w st' s).map fun after =>
      (segs.map (fun data => .recved data.length) ++ after.1, after.2) := by
  induction segs generalizing st with
  | nil => cases dispatched
  | cons data segs ih =>
      rw [httpReceiveAll] at dispatched
      rw [httpRecvAll, httpRecvCb]
      cases received : httpReceive st data with
      | ignored =>
          rw [received] at dispatched
          cases dispatched
      | tooLarge st =>
          rw [received] at dispatched
          cases dispatched
      | waiting st =>
          rw [received] at dispatched
          simp only [ih dispatched, Outcome.map_map]
          exact Outcome.map_congr (fun after => rfl) _
      | complete st =>
          rw [received] at dispatched
          cases dispatched
          dsimp only
          cases httpProcessRequest w st' s with
          | cut f => rfl
          | done after =>
              simp only [httpRecvAll, Outcome.map_done, List.append_nil]
              rfl

namespace Request

/-- A complete request, however it is cut: it is dispatched once, on its last
    segment, with all of it in the buffer and its length, exactly if the first
    length that is looked up is right. Without the other spelling that is so if the
    length is zero or the first segment reaches the end of the value. Then the
    server does what it does with the request in one piece. -/
theorem dispatched_iff (q : Request) {segs : List Bytes} (cut : segs.flatten = q.text)
    (nonempty : ∀ data ∈ segs, data ≠ []) :
    (httpReceiveAll .accepted segs = some (.received q.text q.n, []) ↔ lookedUp [] segs = q.n) ∧
    (q.Plain → ∀ first rest, segs = first :: rest →
      (httpReceiveAll .accepted segs = some (.received q.text q.n, []) ↔
        q.n = 0 ∨ q.valueEnd ≤ first.length)) ∧
    (lookedUp [] segs = q.n → ∀ w s, httpRecvAll w .accepted s segs =
      (httpProcessRequest w (.received q.text q.n) s).map fun after =>
        (segs.map (fun data => .recved data.length) ++ after.1, after.2)) := by
  have looked : httpReceiveAll .accepted segs = some (.received q.text q.n, []) ↔
      lookedUp [] segs = q.n := by
    rw [HttpState.accepted_eq]
    exact dispatched_iff_lookedUp (by decide) cut nonempty
  refine ⟨looked, ?_, fun right w s => httpRecvAll_dispatched (looked.mpr right) w s⟩
  rintro plain first rest rfl
  have isPrefix : first <+: q.text := ⟨rest.flatten, cut⟩
  have eq := List.prefix_iff_eq_take.mp isPrefix
  have known := q.contentLengthOf_plain_nonneg plain first.length
  have right := q.contentLengthOf_plain plain first.length
  rw [← eq] at known right
  rw [looked, lookedUp, List.nil_append, if_neg (Int.not_lt.mpr known), right]

end Request

def signRequest : Request where
  before := ascii "POST /sign HTTP/1.1\r\n"
  name := upperName
  n := 2
  after := []
  body := ascii "\x7b\x7d"
  spelled := .inl rfl
  nulFree := by decide +kernel
  small := by decide +kernel
  counted := by decide +kernel
  blank := by decide +kernel
  first := by decide +kernel
  only := .inl rfl

theorem signRequest_plain : signRequest.Plain := by
  refine .inr ?_
  decide +kernel

/-- The request cut behind its header, inside the blank line and inside the body. -/
def laterCuts : List Bytes :=
  [ascii "POST /sign HTTP/1.1\r\nContent-Length: 2\r\n", ascii "\r\n\x7b", ascii "\x7d"]

theorem Request.dispatched_iff_sample :
    (httpReceiveAll .accepted laterCuts = some (.received signRequest.text signRequest.n, []) ↔
      lookedUp [] laterCuts = signRequest.n) ∧
    (httpReceiveAll .accepted laterCuts = some (.received signRequest.text signRequest.n, []) ↔
      signRequest.n = 0 ∨ signRequest.valueEnd ≤ 40) ∧
    ∀ w s, httpRecvAll w .accepted s laterCuts =
      (httpProcessRequest w (.received signRequest.text signRequest.n) s).map fun after =>
        (laterCuts.map (fun data => .recved data.length) ++ after.1, after.2) := by
  have cut : laterCuts.flatten = signRequest.text := by decide +kernel
  obtain ⟨looked, first, served⟩ := Request.dispatched_iff signRequest cut (by decide +kernel)
  exact ⟨looked, first signRequest_plain _ _ rfl, served (by decide +kernel)⟩

/-- The request cut in front of its header and in front of its body. -/
def earlyCut : List Bytes :=
  [ascii "POST /sign HTTP/1.1\r\n", ascii "Content-Length: 2\r\n\r\n", ascii "\x7b\x7d"]

theorem earlyCut_line :
    httpReceive (.received [] (-1)) (ascii "POST /sign HTTP/1.1\r\n") =
      .waiting (.received (ascii "POST /sign HTTP/1.1\r\n") 0) := by
  have isPrefix : [] ++ ascii "POST /sign HTTP/1.1\r\n" <+: signRequest.text := by decide +kernel
  have length : frozenLength (-1) ([] ++ ascii "POST /sign HTTP/1.1\r\n") = 0 := by decide +kernel
  rw [signRequest.receive isPrefix, length]
  exact if_neg (by decide +kernel)

theorem earlyCut_header :
    httpReceive (.received (ascii "POST /sign HTTP/1.1\r\n") 0) (ascii "Content-Length: 2\r\n\r\n") =
      .complete (.received (ascii "POST /sign HTTP/1.1\r\n" ++ ascii "Content-Length: 2\r\n\r\n") 0) := by
  have isPrefix : ascii "POST /sign HTTP/1.1\r\n" ++ ascii "Content-Length: 2\r\n\r\n" <+:
      signRequest.text := by decide +kernel
  rw [signRequest.receive isPrefix, show frozenLength 0 _ = 0 from rfl]
  exact if_pos (by decide +kernel)

/-- Its length is taken for zero, so it is dispatched without its body. -/
theorem Request.earlyCut_dispatched :
    earlyCut.flatten = signRequest.text ∧ (∀ data ∈ earlyCut, data ≠ []) ∧
      httpReceiveAll .accepted earlyCut ≠ some (.received signRequest.text signRequest.n, []) ∧
      httpReceiveAll .accepted earlyCut = some
        (.received (ascii "POST /sign HTTP/1.1\r\n" ++ ascii "Content-Length: 2\r\n\r\n") 0,
          [ascii "\x7b\x7d"]) := by
  have cut : [] ++ earlyCut.flatten = signRequest.text := by decide +kernel
  have nonempty : ∀ data ∈ earlyCut, data ≠ [] := by decide +kernel
  have wrong : lookedUp [] earlyCut ≠ signRequest.n := by decide +kernel
  refine ⟨cut, nonempty, ?_, ?_⟩
  · rw [HttpState.accepted_eq, ne_eq, Request.dispatched_iff_lookedUp (by decide) cut nonempty]
    exact wrong
  · simp only [HttpState.accepted_eq, earlyCut, httpReceiveAll, earlyCut_line, earlyCut_header]

end Roman
