import Roman.HttpServer.Replies
import Roman.HttpServer.Routes

/-! # Every reply fits the buffer of its connection

`http_send_response` closes the connection when header and body are more than its
buffer. With the texts the handlers send this never happens.
-/

namespace Roman

open CMem CStr NorFlash TweetNacl

/-- The statuses the handlers use. -/
def statuses : List Nat := [200, 400, 403, 404, 413, 500, 503]

/-- No body is longer than the longest array a reply is printed to. -/
structure Response.Small (r : Response) : Prop where
  status : r.status ∈ statuses
  body : r.body.length ≤ 1280

theorem reply_small {status : Nat} {text : String} (known : status ∈ statuses)
    (short : (ascii text).length ≤ 1280) : (reply status text).Small := ⟨known, short⟩

theorem text_short (l : List Char) {n : Nat} (short : l.length ≤ n) : (ascii (String.ofList l)).length ≤ n := by
  rwa [ascii_ofList_length]

theorem content_small {s : Bytes} (small : s.length ≤ 1280) : Response.Small ⟨200, content s⟩ :=
  ⟨List.mem_cons_self, Nat.le_trans (content_isPrefix s).length_le small⟩

theorem cstr_small {n : Nat} (r : Region n) (small : n ≤ 1280) : Response.Small ⟨200, r.cstr⟩ :=
  content_small (by rw [r.size]; exact small)

theorem handleSignPost_small (s : Http) (body : Option Bytes) : (handleSignPost s body).1.Small := by
  unfold handleSignPost
  dsimp only
  repeat' split
  all_goals first
    | exact reply_small (by decide) (text_short _ (by decide))
    | exact cstr_small _ (by decide)

theorem handleInfo_small (s : Http) : (handleInfo s).1.Small := by
  unfold handleInfo
  exact cstr_small _ (by decide)

theorem acceptedReply_small (f : Flash) : (acceptedReply f).Small := by
  unfold acceptedReply
  split
  · exact reply_small (by decide) (text_short _ (by decide))
  · apply content_small
    rw [List.length_take]
    omega

theorem writeReply_small {k k' : Keystore} {contentLength : Int} {env : FlashEnv} {body : Bytes}
    {r : Response} (done : writeReply k contentLength env body = .done (r, k')) : r.Small := by
  have small : ∀ p ∈ writeReplies, p.1 ∈ statuses ∧ (ascii p.2).length ≤ 1280 := by
    simp only [writeReplies, List.forall_mem_cons]
    repeat' apply And.intro
    any_goals exact text_short _ (by decide)
    any_goals decide
  rcases writeReply_cases done with ⟨f, rfl⟩ | ⟨p, member, rfl⟩
  · exact acceptedReply_small f
  · exact reply_small (small p member).1 (small p member).2

theorem clearReply_small {k k' : Keystore} {contentLength : Int} {env : FlashEnv} {body : Bytes}
    {r : Response} (done : clearReply k contentLength env body = .done (r, k')) : r.Small := by
  have small : ∀ p ∈ clearReplies, p.1 ∈ statuses ∧ (ascii p.2).length ≤ 1280 := by
    simp only [clearReplies, List.forall_mem_cons]
    repeat' apply And.intro
    any_goals exact text_short _ (by decide)
    any_goals decide
  obtain ⟨p, member, rfl⟩ := clearReply_cases done
  exact reply_small (small p member).1 (small p member).2

theorem debugSnapshot_small (p : Platform) (s : Http) : (debugSnapshot p s).1.Small := by
  unfold debugSnapshot
  dsimp only
  split
  · exact reply_small (by decide) (text_short _ (by decide))
  · exact cstr_small _ (by decide)

theorem handleDebug_small {p : Platform} {s s' : Http} {contentLength : Int} {env : FlashEnv}
    {body : Option Bytes} {r : Response} {reset : Bool}
    (done : handleDebug p s contentLength env body = .done (r, reset, s')) : r.Small := by
  unfold handleDebug at done
  dsimp only at done
  split at done
  · cases done
    exact reply_small (by decide) (text_short _ (by decide))
  split at done
  · cases done
    exact debugSnapshot_small p s
  split at done
  · cases cleared : storageClear s.keystore.store env.erase with
    | cut f =>
        rw [cleared] at done
        cases done
    | done w =>
        obtain ⟨ok, store⟩ := w
        rw [cleared] at done
        cases ok with
        | true | false =>
            cases done
            exact reply_small (by decide) (text_short _ (by decide))
  split at done
  · cases done
    exact reply_small (by decide) (text_short _ (by decide))
  · cases done
    exact reply_small (by decide) (text_short _ (by decide))

theorem rootReply_small : rootReply.Small := by
  constructor
  · decide
  · have front : (ascii "\x7b\"device\":\"pico2\",\"firmware\":\"roman\",\"version\":\"").length = 48 :=
      ascii_ofList_length _
    have version : ROMAN_VERSION.length = 3 := (ascii_ofList_length _ : (ascii "0.2").length = 3)
    have middle : (ascii "\",\"ip\":\"192.168.7.1\",\"status\":\"running\",\"endpoints\":").length = 52 :=
      ascii_ofList_length _
    have back : (ascii "[\"/health\",\"/sign\",\"/info\",\"/write\",\"/clear\",\"/debug\"]\x7d").length = 55 :=
      ascii_ofList_length _
    simp only [rootReply, List.length_append, front, version, middle, back]
    decide

theorem signHelpReply_small : signHelpReply.Small := by
  constructor
  · decide
  · have front : (ascii "\x7b\"endpoint\":\"/sign\",\"method\":\"POST\",").length = 36 :=
      ascii_ofList_length _
    have back : (ascii "\"fields\":[\"challenge\",\"context\",\"timestamp\"]\x7d").length = 45 :=
      ascii_ofList_length _
    simp only [signHelpReply, List.length_append, front, back]
    decide

theorem httpRoute_small {w : World} {st st' : HttpState} {s s' : Http} {r : Response}
    (done : httpRoute w st s = .done (r, st', s')) : r.Small := by
  rw [httpRoute_eq] at done
  cases route : st.route w with
  | malformed | notFound =>
      rw [route] at done
      cases done
      exact reply_small (by decide) (text_short _ (by decide))
  | fixed answer =>
      rw [route] at done
      cases done
      rcases routeOf_fixed route with ⟨rfl, -⟩ | rfl | rfl | rfl
      · exact reply_small (by decide) (text_short _ (by decide))
      · exact rootReply_small
      · exact reply_small (by decide) (text_short _ (by decide))
      · exact signHelpReply_small
  | info =>
      rw [route] at done
      cases done
      exact handleInfo_small _
  | sign =>
      rw [route] at done
      cases done
      exact handleSignPost_small _ _
  | write =>
      rw [route] at done
      obtain ⟨⟨r', s₁⟩, handled, eq⟩ := Outcome.map_done_iff.mp done
      cases eq
      have answer := handleWritePost_spec s.counted st.contentLength w.flash st.body
      rw [handled, Outcome.map_done] at answer
      exact writeReply_small answer.symm
  | clear =>
      rw [route] at done
      obtain ⟨⟨r', s₁⟩, handled, eq⟩ := Outcome.map_done_iff.mp done
      cases eq
      have answer := handleClearPost_spec s.counted st.contentLength w.flash st.body
      rw [handled, Outcome.map_done] at answer
      exact clearReply_small answer.symm
  | debug =>
      rw [route] at done
      obtain ⟨⟨r', reset, s₁⟩, handled, eq⟩ := Outcome.map_done_iff.mp done
      cases eq
      exact handleDebug_small handled

theorem decimal_length {n k : Nat} (small : n < 10 ^ (k + 1)) : (decimal n).length ≤ k + 1 := by
  induction k generalizing n with
  | zero => rw [decimal_small small, List.length_singleton]
  | succ k ih =>
      by_cases one : n < 10
      · rw [decimal_small one, List.length_singleton]
        omega
      · have less : n / 10 < 10 ^ (k + 1) := Nat.div_lt_of_lt_mul (by rw [← Nat.pow_succ']; exact small)
        rw [decimal_step (Nat.not_lt.mp one), List.length_append, List.length_singleton]
        exact Nat.succ_le_succ (ih less)

theorem statuses_small : ∀ status ∈ statuses, status < 10 ^ 3 := by decide

theorem statusText_length {status : Nat} (known : status ∈ statuses) : (statusText status).length ≤ 24 := by
  simp only [statuses, List.mem_cons, List.not_mem_nil, or_false] at known
  rcases known with rfl | rfl | rfl | rfl | rfl | rfl | rfl
  all_goals exact text_short _ (by decide)

/-- A header of a known status, apart from the length in it. -/
theorem header_length {status len : Nat} (known : status ∈ statuses) (small : len ≤ 1280) :
    (headerText status len).length ≤ 300 := by
  have protocol : (ascii "HTTP/1.1 ").length = 9 := ascii_ofList_length _
  have space : (ascii " ").length = 1 := ascii_ofList_length _
  have line : (ascii "\r\n").length = 2 := ascii_ofList_length _
  have type : (ascii "Content-Type: application/json; charset=utf-8\r\n").length = 47 := ascii_ofList_length _
  have field : (ascii "Content-Length: ").length = 16 := ascii_ofList_length _
  have close : (ascii "Connection: close\r\n").length = 19 := ascii_ofList_length _
  have origin : (ascii "Access-Control-Allow-Origin: *\r\n").length = 32 := ascii_ofList_length _
  have methods : (ascii "Access-Control-Allow-Methods: GET, POST, OPTIONS\r\n").length = 50 := ascii_ofList_length _
  have headers : (ascii "Access-Control-Allow-Headers: Content-Type\r\n").length = 44 := ascii_ofList_length _
  have code : (decimal status).length ≤ 3 := decimal_length (statuses_small status known)
  have digits : (decimal len).length ≤ 4 := decimal_length (k := 3) (by omega)
  have text := statusText_length known
  simp only [headerText, List.length_append, protocol, space, line, type, field, close, origin, methods, headers]
  omega

/-- The two together are less than the buffer. -/
theorem Response.Small.fits {r : Response} (small : r.Small) :
    ¬ (headerText r.status r.body.length).length + r.body.length > HTTP_BUF_SIZE := by
  have header := header_length small.status small.body
  have body := small.body
  rw [HTTP_BUF_SIZE]
  omega

end Roman
