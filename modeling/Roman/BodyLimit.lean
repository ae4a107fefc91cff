import Roman.Answers

/-! # The body limit

The handlers compare the number that `http_recv_cb` kept for the Content-Length header,
not the size of the body they read. So they refuse a body that is too large exactly if
that number says so.
-/

namespace Roman

open CMem CStr NorFlash

/-- The connection after these segments, none of which completed a request. -/
inductive Arrived : List Bytes → HttpState → Prop where
  | accepted : Arrived [] .accepted
  | segment {segs : List Bytes} {st st' : HttpState} {data : Bytes} :
    Arrived segs st → httpReceive st data = .waiting st' → Arrived (segs ++ [data]) st'

/-- The number kept for the Content-Length: looked up in what has arrived after each
    segment, until it is not negative. -/
def declaredLength (segs : List Bytes) : Int :=
  (segs.foldl (fun kept data => (kept.1 ++ data, frozenLength kept.2 (content (kept.1 ++ data)))) ([], -1)).2

theorem declaredLength_append (segs : List Bytes) (data : Bytes) :
    declaredLength (segs ++ [data]) = frozenLength (declaredLength segs) (content (segs.flatten ++ data)) := by
  have arrived : ∀ (segs : List Bytes) (kept : Bytes × Int),
      (segs.foldl (fun kept data => (kept.1 ++ data, frozenLength kept.2 (content (kept.1 ++ data)))) kept).1 =
        kept.1 ++ segs.flatten := by
    intro segs
    induction segs with
    | nil =>
        intro kept
        exact (List.append_nil kept.1).symm
    | cons data segs ih =>
        intro kept
        rw [List.foldl_cons, ih, List.flatten_cons, List.append_assoc]
  rw [declaredLength, List.foldl_append, List.foldl_cons, List.foldl_nil, arrived segs, List.nil_append]
  rfl

/-- A segment that is taken. -/
theorem httpReceive_taken {text data : Bytes} {contentLength : Int} {st : HttpState}
    (taken : httpReceive (.received text contentLength) data = .waiting st ∨
      httpReceive (.received text contentLength) data = .complete st) :
    (text ++ data).length < HTTP_BUF_SIZE ∧
      st = .received (text ++ data) (frozenLength contentLength (content (text ++ data))) := by
  have small : (text ++ data).length < HTTP_BUF_SIZE := by
    apply Nat.lt_of_not_le
    intro large
    rw [List.length_append] at large
    have refused : httpReceive (.received text contentLength) data = .tooLarge (.received text contentLength) := by
      unfold httpReceive
      rw [if_neg (by exact Bool.false_ne_true), if_pos (by exact large)]
    rw [refused] at taken
    rcases taken with h | h <;> cases h
  refine ⟨small, ?_⟩
  rw [httpReceive_content contentLength small] at taken
  dsimp only at taken
  repeat' split at taken
  all_goals
    rcases taken with h | h <;> cases h
    rfl

theorem Arrived.received {segs : List Bytes} {st : HttpState} (arrived : Arrived segs st) :
    st = .received segs.flatten (declaredLength segs) := by
  induction arrived with
  | accepted => exact HttpState.accepted_eq
  | segment before receive ih =>
      rw [ih] at receive
      rw [declaredLength_append, List.flatten_append, List.flatten_singleton]
      exact (httpReceive_taken (.inl receive)).2

/-- A request that is dispatched has its blank line in front of the first NUL. -/
theorem dispatched_body {text data body : Bytes} {contentLength : Int} {st : HttpState}
    (complete : httpReceive (.received text contentLength) data = .complete st)
    (blank : strstr (text ++ data) (ascii "\r\n\r\n") = some (ascii "\r\n\r\n" ++ body)) :
    bodyText st.body = content body := by
  obtain ⟨small, rfl⟩ := httpReceive_taken (.inr complete)
  rw [httpReceive_content contentLength small] at complete
  generalize text ++ data = text at small blank complete ⊢
  dsimp only at complete
  rcases strstr_content blank with found | none
  · rw [HttpState.body, HttpState.received_content small, requestBody, found]
    rfl
  · rw [none] at complete
    cases complete

/-- Answered with 413, flash and the keystore as they were. -/
def Refused (s : Http) (a : BoardEvent) : Prop :=
  (∃ r, a.response s = some r ∧ r.status = 413) ∧ (boardStep s a).flash = s.flash ∧
    (boardStep s a).keystore = s.keystore

/-- The same of the outcome of a handler. -/
def RefusedBy (k : Keystore) (o : Outcome (Response × Keystore)) : Prop :=
  ∃ r, o = .done (r, k) ∧ r.status = 413

theorem refused_iff {s : Http} {a : BoardEvent} {o : Outcome (Response × Keystore)} (yields : a.Yields s o) :
    Refused s a ↔ RefusedBy s.keystore o := by
  constructor
  · rintro ⟨⟨r, responds, status⟩, -, kept⟩
    obtain ⟨k, done, after⟩ := yields.status responds
    rw [kept] at after
    exact ⟨r, by rw [done, after], status⟩
  · rintro ⟨r, rfl, status⟩
    obtain ⟨responds, kept⟩ := yields
    exact ⟨⟨r, responds, status⟩, congrArg (fun k => k.store.flash) kept, kept⟩

theorem not_refusedBy {k k' : Keystore} {r : Response} (other : r.status ≠ 413) : ¬ RefusedBy k (.done (r, k')) := by
  rintro ⟨r', eq, status⟩
  cases eq
  exact other status

theorem not_refusedBy_map {α : Type} {k : Keystore} {o : Outcome α} {f : α → Response × Keystore}
    (other : ∀ x, (f x).1.status ≠ 413) : ¬ RefusedBy k (o.map f) := by
  cases o with
  | cut flash => rintro ⟨r, eq, -⟩; cases eq
  | done x => exact not_refusedBy (other x)

theorem provisionReply_status (f : Flash) (status : KeystoreStatus) : (provisionReply f status).status ≠ 413 := by
  cases status with
  | ok =>
      change (acceptedReply f).status ≠ 413
      unfold acceptedReply
      split <;> exact nofun
  | errAlready | errMismatch | errFlash | errArg => exact nofun

theorem writeReply_refused_iff {k : Keystore} (unset : storageWriten k.store.flash = false) (contentLength : Int)
    (env : FlashEnv) (body : Bytes) :
    RefusedBy k (writeReply k contentLength env body) ↔ contentLength > HTTP_FORM_BODY_LIMIT ∧ body ≠ [] := by
  unfold writeReply
  rw [if_neg (by rw [keystoreWriten, unset]; decide)]
  split
  · rename_i empty
    exact iff_of_false (not_refusedBy nofun) fun both => both.2 empty
  rename_i nonempty
  split
  · rename_i large
    exact iff_of_true ⟨_, rfl, rfl⟩ ⟨large, nonempty⟩
  rename_i small
  refine iff_of_false ?_ fun both => small both.1
  repeat' split
  all_goals first
    | exact not_refusedBy nofun
    | exact not_refusedBy_map fun x => provisionReply_status _ _

theorem clearReply_refused_iff (k : Keystore) (contentLength : Int) (env : FlashEnv) (body : Bytes) :
    RefusedBy k (clearReply k contentLength env body) ↔ contentLength > HTTP_FORM_BODY_LIMIT ∧ body ≠ [] := by
  have status : ∀ status, (clearStatusReply status).status ≠ 413 := by
    intro status
    cases status <;> exact nofun
  unfold clearReply
  split
  · rename_i empty
    exact iff_of_false (not_refusedBy nofun) fun both => both.2 empty
  rename_i nonempty
  split
  · rename_i large
    exact iff_of_true ⟨_, rfl, rfl⟩ ⟨large, nonempty⟩
  rename_i small
  refine iff_of_false ?_ fun both => small both.1
  split
  · exact not_refusedBy nofun
  · exact not_refusedBy_map fun x => status _

theorem debugSnapshot_status (p : Platform) (s : Http) : (debugSnapshot p s).1.status ≠ 413 := by
  unfold debugSnapshot
  dsimp only
  split <;> exact nofun

theorem handleDebug_refused_iff (p : Platform) (s : Http) (contentLength : Int) (env : FlashEnv) (body : Option Bytes) :
    RefusedBy s.keystore ((handleDebug p s contentLength env body).map fun x => (x.1, x.2.2.keystore)) ↔
      contentLength > HTTP_DEBUG_BODY_LIMIT := by
  unfold handleDebug
  split
  · rename_i large
    exact iff_of_true ⟨_, rfl, rfl⟩ large
  rename_i small
  refine iff_of_false ?_ small
  dsimp only
  split
  · exact not_refusedBy (debugSnapshot_status p s)
  repeat' split
  all_goals first
    | exact not_refusedBy nofun
    | (rintro ⟨r, eq, -⟩; cases eq)

/-- The requests whose body has a limit. -/
inductive Limited (s : Http) : Route → Int → Prop where
  | write : storageWriten s.flash = false → Limited s .write HTTP_FORM_BODY_LIMIT
  | clear : Limited s .clear HTTP_FORM_BODY_LIMIT
  | debug : Limited s .debug HTTP_DEBUG_BODY_LIMIT

theorem Limited.nonneg {s : Http} {route : Route} {limit : Int} (limited : Limited s route limit) : 0 ≤ limit := by
  cases limited <;> decide

theorem content_ne_nil_iff {body : Bytes} (nonempty : body ≠ []) : content body ≠ [] ↔ body.head? ≠ some 0 := by
  cases body with
  | nil => exact absurd rfl nonempty
  | cons b body =>
      rcases eq_or_ne b 0 with rfl | other
      · simp [content]
      · simp [content, other]

def oversizedBody : Bytes := List.replicate 1025 0x61

def oversized : Bytes := ascii "POST /clear HTTP/1.1\r\n\r\n" ++ oversizedBody

theorem oversized_whole : WholeRequest oversized oversizedBody where
  free := by decide +kernel
  small := by decide +kernel
  blank := by decide +kernel
  length := by decide +kernel

theorem oversized_length : contentLengthOf oversized = 0 := by decide +kernel

theorem oversized_route :
    (HttpState.received oversized (contentLengthOf oversized)).route (benchWorld ⟨.ok, .ok⟩) = .clear := by
  have line : requestLine oversized = some (ascii "POST", ascii "/clear") := by decide +kernel
  rw [HttpState.route, oversized_whole.cstr, line]
  rfl

theorem oversized_complete :
    httpReceive .accepted oversized = .complete (.received oversized (contentLengthOf oversized)) :=
  httpReceive_whole oversized_whole.free oversized_whole.small oversized_whole.blank oversized_whole.length

theorem oversized_large : HTTP_FORM_BODY_LIMIT < oversizedBody.length := by decide +kernel

-- from here on only what was proved about the request matters
attribute [irreducible] oversized oversizedBody

/-- A fresh board is sent this, with 1025 bytes of body and no Content-Length. -/
def oversizedEvent : BoardEvent := .recv (benchWorld ⟨.ok, .ok⟩) .accepted oversized silent

/-- A body above the limit is refused exactly if the number kept for the Content-Length
    is above it too, and, but for POST /debug, the body does not begin with a NUL. -/
theorem bodyLimit_iff {segs : List Bytes} {st st' : HttpState} {data body : Bytes} {w : World} {s : Http} {limit : Int}
    (arrived : Arrived segs st) (complete : httpReceive st data = .complete st') (limited : Limited s (st'.route w) limit)
    (blank : strstr (segs.flatten ++ data) (ascii "\r\n\r\n") = some (ascii "\r\n\r\n" ++ body))
    (large : limit < body.length) (next : Entropy) :
    Refused s (.recv w st data next) ↔
      declaredLength (segs ++ [data]) > limit ∧ (st'.route w = .debug ∨ body.head? ≠ some 0) := by
  have dispatched : (BoardEvent.recv w st data next).dispatched = some (w, st') := by
    simp only [BoardEvent.dispatched, complete]
  have nonempty : body ≠ [] := by
    rintro rfl
    exact absurd limited.nonneg (Int.not_le.mpr large)
  rw [arrived.received] at complete
  have text := dispatched_body complete blank
  have length : st'.contentLength = declaredLength (segs ++ [data]) := by
    rw [(httpReceive_taken (.inr complete)).2, declaredLength_append]
    rfl
  rw [← length, ← content_ne_nil_iff nonempty, ← text]
  generalize route : st'.route w = target at limited ⊢
  cases limited with
  | write unset =>
      rw [refused_iff (BoardEvent.yields_write dispatched s route), writeReply_refused_iff unset]
      simp
  | clear =>
      rw [refused_iff (BoardEvent.yields_clear dispatched s route), clearReply_refused_iff]
      simp
  | debug =>
      have debug := handleDebug_refused_iff w.platform s.counted st'.contentLength w.flash st'.body
      rw [Http.counted_keystore] at debug
      rw [refused_iff (BoardEvent.yields_debug dispatched s route), debug]
      simp

/-- On that request the number is zero, and it is not refused. -/
theorem bodyLimit_iff_oversized : Refused (.boot (fun _ => 0xFF) silent) oversizedEvent ↔
    declaredLength [oversized] > HTTP_FORM_BODY_LIMIT ∧
      ((HttpState.received oversized (contentLengthOf oversized)).route (benchWorld ⟨.ok, .ok⟩) = .debug ∨
        oversizedBody.head? ≠ some 0) := by
  refine bodyLimit_iff .accepted oversized_complete ?_ oversized_whole.blank oversized_large silent
  rw [oversized_route]
  exact .clear

/-- It is answered by the handler as if it were small. -/
theorem oversized_served :
    Arrived [] .accepted ∧
    httpReceive .accepted oversized = .complete (.received oversized (contentLengthOf oversized)) ∧
    (HttpState.received oversized (contentLengthOf oversized)).route (benchWorld ⟨.ok, .ok⟩) = .clear ∧
    strstr oversized (ascii "\r\n\r\n") = some (ascii "\r\n\r\n" ++ oversizedBody) ∧
    HTTP_FORM_BODY_LIMIT < oversizedBody.length ∧ ¬ Refused (.boot (fun _ => 0xFF) silent) oversizedEvent := by
  refine ⟨.accepted, oversized_complete, oversized_route, oversized_whole.blank, oversized_large, ?_⟩
  intro refused
  have dispatched := oversized_whole.dispatched (benchWorld ⟨.ok, .ok⟩) silent
  have yields := BoardEvent.yields_clear dispatched (.boot (fun _ => 0xFF) silent) oversized_route
  have large := ((clearReply_refused_iff ..).mp ((refused_iff yields).mp refused)).1
  rw [HttpState.received_contentLength, oversized_length] at large
  exact absurd large (by decide)

end Roman
