import Roman.Board

/-! # What a dispatched request is answered

The reply of a request and the keystore behind it, read off the connection at the moment
it is dispatched.
-/

namespace Roman

open CMem CStr NorFlash

/-- The route that a command comes by. -/
def Command.route : Command → Option Route
  | .read => none
  | .provision _ _ _ => some .write
  | .clear _ => some .clear
  | .wipe => some .debug

theorem command_route {w : World} {st : HttpState} {route : Route} (comes : (st.command w).route = some route) :
    st.route w = route := by
  unfold HttpState.command at comes
  cases decided : st.route w with
  | write =>
      rw [decided] at comes
      dsimp only at comes
      unfold writeCommand at comes
      repeat' split at comes
      all_goals cases comes
      rfl
  | clear =>
      rw [decided] at comes
      dsimp only at comes
      unfold clearCommand at comes
      repeat' split at comes
      all_goals cases comes
      rfl
  | debug =>
      rw [decided] at comes
      dsimp only at comes
      unfold debugCommand at comes
      repeat' split at comes
      all_goals cases comes
      rfl
  | malformed | notFound | fixed r | info | sign =>
      rw [decided] at comes
      cases comes

namespace BoardEvent

/-- The event is answered, and leaves the keystore, as this outcome says. -/
def Yields (a : BoardEvent) (s : Http) : Outcome (Response × Keystore) → Prop
  | .cut _ => a.response s = none
  | .done (r, k) => a.response s = some r ∧ (boardStep s a).keystore = k

theorem yields_route {a : BoardEvent} {w : World} {st : HttpState} (dispatched : a.dispatched = some (w, st))
    (s : Http) : a.Yields s ((httpRoute w st s).map fun x => (x.1, x.2.2.keystore)) := by
  cases routed : httpRoute w st s with
  | cut f =>
      unfold Yields response
      simp only [Outcome.map_cut, dispatched, routed]
  | done answer =>
      obtain ⟨r, st', s'⟩ := answer
      unfold Yields response
      simp only [Outcome.map_done, dispatched, routed, boardStep_done dispatched routed]
      exact ⟨trivial, trivial⟩

theorem Yields.status {a : BoardEvent} {s : Http} {o : Outcome (Response × Keystore)} (yields : a.Yields s o)
    {r : Response} (responds : a.response s = some r) : ∃ k, o = .done (r, k) ∧ (boardStep s a).keystore = k := by
  cases o with
  | cut f =>
      rw [Yields, responds] at yields
      cases yields
  | done answer =>
      obtain ⟨r', k⟩ := answer
      obtain ⟨same, kept⟩ := yields
      rw [responds] at same
      cases same
      exact ⟨k, rfl, kept⟩

section
variable {a : BoardEvent} {w : World} {st : HttpState} (dispatched : a.dispatched = some (w, st)) (s : Http)
include dispatched

theorem yields_write (route : st.route w = .write) :
    a.Yields s (writeReply s.keystore st.contentLength w.flash (bodyText st.body)) := by
  have yields := yields_route dispatched s
  have reply := handleWritePost_spec s.counted st.contentLength w.flash st.body
  rw [Http.counted_keystore] at reply
  rw [httpRoute_eq, route] at yields
  rw [← reply]
  simp only [onConnection, Outcome.map_map] at yields
  exact yields

theorem yields_clear (route : st.route w = .clear) :
    a.Yields s (clearReply s.keystore st.contentLength w.flash (bodyText st.body)) := by
  have yields := yields_route dispatched s
  have reply := handleClearPost_spec s.counted st.contentLength w.flash st.body
  rw [Http.counted_keystore] at reply
  rw [httpRoute_eq, route] at yields
  rw [← reply]
  simp only [onConnection, Outcome.map_map] at yields
  exact yields

theorem yields_debug (route : st.route w = .debug) :
    a.Yields s ((handleDebug w.platform s.counted st.contentLength w.flash st.body).map
      fun x => (x.1, x.2.2.keystore)) := by
  have yields := yields_route dispatched s
  rw [httpRoute_eq, route] at yields
  simp only [Outcome.map_map] at yields
  exact yields

end

/-- A command that is not to read comes with a request. -/
theorem dispatched_command {a : BoardEvent} {c : Command} (command : a.command = c) (acts : c ≠ .read) :
    ∃ w st, a.dispatched = some (w, st) ∧ st.command w = c := by
  unfold BoardEvent.command at command
  cases target : a.dispatched with
  | none =>
      rw [target] at command
      exact absurd command.symm acts
  | some words =>
      obtain ⟨w, st⟩ := words
      rw [target] at command
      exact ⟨w, st, rfl, command⟩

theorem dispatched_write {a : BoardEvent} {pkB64 skB64 deviceId : Bytes}
    (command : a.command = .provision pkB64 skB64 deviceId) :
    ∃ w st, a.dispatched = some (w, st) ∧ st.route w = .write ∧
      writeCommand st.contentLength (bodyText st.body) = .provision pkB64 skB64 deviceId := by
  obtain ⟨w, st, dispatched, command⟩ := dispatched_command command (by simp)
  have route : st.route w = .write := command_route (by rw [command]; rfl)
  rw [HttpState.command, route] at command
  exact ⟨w, st, dispatched, route, command⟩

theorem dispatched_clear {a : BoardEvent} {key : Bytes} (command : a.command = .clear key) :
    ∃ w st, a.dispatched = some (w, st) ∧ st.route w = .clear ∧
      clearCommand st.contentLength (bodyText st.body) = .clear key := by
  obtain ⟨w, st, dispatched, command⟩ := dispatched_command command (by simp)
  have route : st.route w = .clear := command_route (by rw [command]; rfl)
  rw [HttpState.command, route] at command
  exact ⟨w, st, dispatched, route, command⟩

theorem dispatched_wipe {a : BoardEvent} (command : a.command = .wipe) :
    ∃ w st, a.dispatched = some (w, st) ∧ st.route w = .debug ∧
      ¬ st.contentLength > HTTP_DEBUG_BODY_LIMIT ∧ debugAction (bodyText st.body) = ascii "clear" := by
  obtain ⟨w, st, dispatched, command⟩ := dispatched_command command (by simp)
  have route : st.route w = .debug := command_route (by rw [command]; rfl)
  rw [HttpState.command, route] at command
  dsimp only at command
  unfold debugCommand at command
  split at command
  · cases command
  split at command
  · exact ⟨w, st, dispatched, route, by assumption, by assumption⟩
  · cases command

/-- POST /debug with the clear action, on the keystore. -/
theorem yields_wipe {a : BoardEvent} (command : a.command = .wipe) (s : Http) : a.Yields s
    ((storageClear s.keystore.store a.env.erase).map fun cleared =>
      if cleared.1 then (reply 200 "\x7b\"status\":\"ok\",\"action\":\"clear\",\"writen\":false\x7d",
        keystoreInvalidate { s.keystore with store := cleared.2 })
      else (reply 500 "\x7b\"status\":\"error\",\"error\":\"flash erase failed\"\x7d",
        { s.keystore with store := cleared.2 })) := by
  obtain ⟨w, st, dispatched, route, small, action⟩ := dispatched_wipe command
  have yields := yields_debug dispatched s route
  have other : ascii "clear" ≠ ascii "snapshot" := by
    rw [(ascii_ofList _ : ascii "clear" = _), (ascii_ofList _ : ascii "snapshot" = _)]
    decide
  unfold handleDebug at yields
  rw [if_neg small, if_neg (by rw [action]; exact other), if_pos action] at yields
  rw [dispatched_env dispatched]
  rw [Http.counted_keystore] at yields
  generalize storageClear s.keystore.store w.flash.erase = cleared at yields ⊢
  cases cleared with
  | cut f => exact yields
  | done answer =>
      obtain ⟨ok, store⟩ := answer
      cases ok <;> exact yields

end BoardEvent

/-- The text is one complete request with this body. -/
structure WholeRequest (text body : Bytes) : Prop where
  free : NulFree text
  small : text.length < HTTP_BUF_SIZE
  blank : strstr text (ascii "\r\n\r\n") = some (ascii "\r\n\r\n" ++ body)
  length : contentLengthOf text ≤ body.length

section
variable {text body : Bytes} (whole : WholeRequest text body)
include whole

/-- The connection when it is dispatched. -/
theorem WholeRequest.dispatched (w : World) (next : Entropy) :
    (BoardEvent.recv w .accepted text next).dispatched = some (w, .received text (contentLengthOf text)) := by
  simp only [BoardEvent.dispatched, httpReceive_whole whole.free whole.small whole.blank whole.length]

theorem WholeRequest.cstr : (HttpState.received text (contentLengthOf text)).buf.cstr = text :=
  HttpState.received_cstr whole.free whole.small

theorem WholeRequest.bodyText_eq : bodyText (HttpState.received text (contentLengthOf text)).body = body := by
  have behind : requestBody text = some body := by
    rw [requestBody, whole.blank]
    rfl
  rw [HttpState.body, whole.cstr, behind]
  rfl

end

end Roman
