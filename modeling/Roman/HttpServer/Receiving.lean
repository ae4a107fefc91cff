import Roman.HttpServer.Server

/-! # Receiving a request

A connection that has received some text holds just that text: the state is
computed from the text and the frozen Content-Length, not by replaying the
segments.
-/

namespace Roman

open CMem CStr

/-- A fresh connection that has received this text. -/
def HttpState.received (text : Bytes) (contentLength : Int) : HttpState where
  buf := (Region.fill HTTP_BUF_SIZE 0).store 0 text
  reqLen := text.length
  contentLength
  sent := false
  done := false
  resetAfterSend := false

@[simp] theorem HttpState.received_contentLength (text : Bytes) (contentLength : Int) :
    (received text contentLength).contentLength = contentLength := rfl

theorem HttpState.accepted_eq : HttpState.accepted = .received [] (-1) := by
  simp only [accepted, received, Region.store_nil, List.length_nil]

/-- The text that is seen ends at its first NUL. -/
theorem HttpState.received_content {text : Bytes} {contentLength : Int} (small : text.length < HTTP_BUF_SIZE) :
    (received text contentLength).buf.cstr = content text := by
  rw [received, ← Region.store_fill_zero text small]
  exact Region.cstr_store_content _ small

theorem HttpState.received_cstr {text : Bytes} {contentLength : Int} (free : NulFree text)
    (small : text.length < HTTP_BUF_SIZE) :
    (received text contentLength).buf.cstr = text := by
  rw [received_content small, content_of_nulFree free]

theorem HttpState.received_store {text data : Bytes}
    (small : (text ++ data).length < HTTP_BUF_SIZE) :
    (((Region.fill HTTP_BUF_SIZE 0).store 0 text).store text.length data).store
        (text.length + data.length) [0] =
      (Region.fill HTTP_BUF_SIZE 0).store 0 (text ++ data) := by
  rw [List.length_append] at small
  have joined := Region.store_store (Region.fill HTTP_BUF_SIZE 0) 0 text data (by omega)
  have ended := Region.store_store (Region.fill HTTP_BUF_SIZE 0) 0 (text ++ data) [0]
    (by simp only [List.length_append, List.length_singleton]; omega)
  rw [Nat.zero_add] at joined ended
  rw [joined, ← List.length_append, ended]
  exact Region.store_fill_zero _ (by rw [List.length_append]; omega)

/-- The Content-Length after a segment: looked up only while it is negative. -/
def frozenLength (contentLength : Int) (text : Bytes) : Int :=
  if contentLength < 0 then contentLengthOf text else contentLength

/-- One segment on a connection that has received `text`. -/
theorem httpReceive_content {text data : Bytes} (contentLength : Int) (small : (text ++ data).length < HTTP_BUF_SIZE) :
    httpReceive (.received text contentLength) data =
      let seen := content (text ++ data)
      let st := HttpState.received (text ++ data) (frozenLength contentLength seen)
      match strstr seen (ascii "\r\n\r\n") with
      | none => .waiting st
      | some sep =>
          if st.contentLength > 0 ∧
              (((text ++ data).length : Int) - (seen.length - sep.length + 4 : Nat) : Int) < st.contentLength then
            .waiting st
          else .complete st := by
  have stored := HttpState.received_store small
  have seen : ((Region.fill HTTP_BUF_SIZE 0).store 0 (text ++ data)).cstr = content (text ++ data) :=
    @HttpState.received_content (text ++ data) 0 small
  rw [List.length_append] at small
  have fresh : (HttpState.received text contentLength).done = false := rfl
  have len : (HttpState.received text contentLength).reqLen = text.length := rfl
  have buf : (HttpState.received text contentLength).buf =
      (Region.fill HTTP_BUF_SIZE 0).store 0 text := rfl
  simp only [httpReceive, fresh, Bool.false_eq_true, if_false, len, if_neg (Nat.not_le.mpr small), buf,
    stored, HttpState.received_contentLength, seen, frozenLength]
  cases strstr (content (text ++ data)) (ascii "\r\n\r\n") with
  | none =>
      by_cases look : contentLength < 0
      · simp only [if_pos look, HttpState.received, List.length_append]
      · simp only [if_neg look, HttpState.received, List.length_append]
  | some sep =>
      by_cases look : contentLength < 0
      · simp only [if_pos look, HttpState.received, List.length_append]
      · simp only [if_neg look, HttpState.received, List.length_append]

/-- The same for a text without a NUL. -/
theorem httpReceive_received {text data : Bytes} (contentLength : Int) (free : NulFree (text ++ data))
    (small : (text ++ data).length < HTTP_BUF_SIZE) :
    httpReceive (.received text contentLength) data =
      let st := HttpState.received (text ++ data) (frozenLength contentLength (text ++ data))
      match strstr (text ++ data) (ascii "\r\n\r\n") with
      | none => .waiting st
      | some sep =>
          if st.contentLength > 0 ∧
              (((text ++ data).length : Int) - ((text ++ data).length - sep.length + 4 : Nat) : Int) <
                st.contentLength then .waiting st
          else .complete st := by
  have received := httpReceive_content contentLength small
  rw [content_of_nulFree free] at received
  exact received

/-- A request that arrives in one segment, with no more to come than is there. -/
theorem httpReceive_whole {text body : Bytes} (free : NulFree text) (small : text.length < HTTP_BUF_SIZE)
    (blank : strstr text (ascii "\r\n\r\n") = some (ascii "\r\n\r\n" ++ body))
    (length : contentLengthOf text ≤ body.length) :
    httpReceive .accepted text = .complete (.received text (contentLengthOf text)) := by
  have four : (ascii "\r\n\r\n").length = 4 := by decide +kernel
  obtain ⟨front, split, -⟩ := strstr_eq_some_iff.mp blank
  have size : text.length = front.length + (4 + body.length) := by
    rw [split, List.length_append, List.length_append, four]
  have receive := @httpReceive_received [] text (-1) free small
  have frozen : frozenLength (-1) text = contentLengthOf text := rfl
  have enough : ¬ (contentLengthOf text > 0 ∧
      ((text.length : Int) - (text.length - (4 + body.length) + 4 : Nat) : Int) < contentLengthOf text) := by
    omega
  simp only [List.nil_append, blank, frozen, List.length_append, four, HttpState.received_contentLength] at receive
  rw [HttpState.accepted_eq, receive, if_neg enough]

/-- What the SDK answers on a bench. -/
def benchWorld (flash : FlashEnv) : World where
  debugAvailable := true
  platform := ⟨0, [], 0, [], false, 0, 0, 0, 0, none, 0, []⟩
  flash
  tcpWrites := true

end Roman
