import Roman.HttpServer.Untruncated

/-! # No reply depends on a secret

Two provisioned boards with the same public record, whatever their secret keys,
nonces, MACs and ciphertexts, are compared over one sequence of requests. A request
that neither signs nor erases gets the same bytes from both and leaves them alike. The
length of the payload belongs to what is public: the self-test shows it.
-/

namespace Roman

open CMem CStr NorFlash

/-- Both records decrypt, to the same device id and the same Ed25519 public key, and come
    with the same X25519 public key. -/
structure SameIdentity (f f' : Flash) : Prop where
  records : ∃ r r', storedRecord f = some r ∧ storedRecord f' = some r' ∧ r.deviceId = r'.deviceId ∧ r.pk = r'.pk
  x25519 : NorFlash.read f 0x24 STORAGE_KEY_LEN = NorFlash.read f' 0x24 STORAGE_KEY_LEN

/-- And they are of one length, which the headers say and /debug shows. -/
structure SamePublic (f f' : Flash) : Prop where
  identity : SameIdentity f f'
  length : storedLen f = storedLen f'

theorem storageAvailable_of_payload {f : Flash} {p : Bytes} (payload : sectionPayload f = some p) :
    storageAvailable f = true := by
  unfold sectionPayload at payload
  split at payload
  · assumption
  · cases payload

theorem storedLen_of_payload {f : Flash} {p : Bytes} (payload : sectionPayload f = some p) : storedLen f = p.length := by
  rw [sectionPayload, if_pos (storageAvailable_of_payload payload)] at payload
  exact (openSection_length payload).symm

theorem sectionPayload_of_record {f : Flash} {r : Record} (stored : storedRecord f = some r) :
    ∃ p, sectionPayload f = some p ∧ p.length = storedLen f := by
  obtain ⟨p, payload, -⟩ := Option.bind_eq_some_iff.mp stored
  exact ⟨p, payload, (storedLen_of_payload payload).symm⟩

section
variable {f f' : Flash} (same : SameIdentity f f')
include same

theorem SameIdentity.shownId : shownId (storedRecord f) = shownId (storedRecord f') := by
  obtain ⟨r, r', stored, stored', id, pk⟩ := same.records
  rw [stored, stored', Roman.shownId, Roman.shownId, id]

theorem SameIdentity.shownKey : shownKey (storedRecord f) = shownKey (storedRecord f') := by
  obtain ⟨r, r', stored, stored', id, pk⟩ := same.records
  rw [stored, stored', Roman.shownKey, Roman.shownKey, pk]

theorem SameIdentity.shownX : shownX f = shownX f' := by
  obtain ⟨r, r', stored, stored', -⟩ := same.records
  obtain ⟨p, payload, -⟩ := sectionPayload_of_record stored
  obtain ⟨p', payload', -⟩ := sectionPayload_of_record stored'
  rw [Roman.shownX, Roman.shownX, storageAvailable_of_payload payload, storageAvailable_of_payload payload',
    same.x25519]

theorem SameIdentity.info (state : storageWriten f = storageWriten f') : infoReply f = infoReply f' := by
  obtain ⟨r, r', stored, stored', id, pk⟩ := same.records
  simp only [infoReply, stateName, servedInfo, servedState, stored, stored', id, state, Option.isSome_some]

/-- Two boards of one identity show the same snapshot but for what the self-test says. -/
theorem SameIdentity.snapshot {shown shown' t t' : Http} (shows : Shows shown t (storedRecord f))
    (shows' : Shows shown' t' (storedRecord f')) (flash : t.flash = f) (flash' : t'.flash = f')
    (writen : storageWriten f = storageWriten f') (stats : t.httpStats = t'.httpStats) (p : Platform)
    (available : Bool) (selftest : Bytes) (len : Nat) :
    snapshotText p shown available selftest len = snapshotText p shown' available selftest len := by
  apply snapshotText_congr
  · rw [shows.stats, shows'.stats, stats]
  · rw [shows.flash, shows'.flash, flash, flash', writen]
  · rw [shows.edB64, shows'.edB64]
    exact congrArg content same.shownKey
  · rw [shows.xB64, shows'.xB64, flash, flash']
    exact congrArg content same.shownX
  · rw [shows.id, shows'.id]
    exact congrArg (fun id => content (id.take (RECORD_MAX_DEVICE_ID + 7))) same.shownId

end

/-- The self-test opens both, and both are of one length. -/
theorem SamePublic.selftest {f f' : Flash} (same : SamePublic f f') : selftestOf f = selftestOf f' := by
  obtain ⟨r, r', stored, stored', -⟩ := same.identity.records
  obtain ⟨p, payload, size⟩ := sectionPayload_of_record stored
  obtain ⟨p', payload', size'⟩ := sectionPayload_of_record stored'
  simp only [selftestOf, storageAvailable_of_payload payload, storageAvailable_of_payload payload',
    payload, payload', size, size', same.length]

/-- Two provisioned boards with the same public record and the same counters. -/
structure PublicAlike (s s' : Http) : Prop where
  writen : storageWriten s.flash = true
  writen' : storageWriten s'.flash = true
  coherent : Coherent s.keystore
  coherent' : Coherent s'.keystore
  record : SamePublic s.flash s'.flash
  stats : s.httpStats = s'.httpStats

/-- They stay so while both only read and count alike. -/
theorem PublicAlike.after {s s' t t' : Http} (alike : PublicAlike s s')
    (quiet : Quiet s.keystore t.keystore) (quiet' : Quiet s'.keystore t'.keystore)
    (stats : t.httpStats = t'.httpStats) : PublicAlike t t' := by
  have flash : t.flash = s.flash := quiet.flash
  have flash' : t'.flash = s'.flash := quiet'.flash
  constructor
  · rw [flash]
    exact alike.writen
  · rw [flash']
    exact alike.writen'
  · exact quiet.coherent alike.coherent
  · exact quiet'.coherent alike.coherent'
  · rw [flash, flash']
    exact alike.record
  · exact stats

theorem PublicAlike.counted {s s' : Http} (alike : PublicAlike s s') : PublicAlike s.counted s'.counted :=
  alike.after (Quiet.refl _) (Quiet.refl _) (by rw [Http.counted, Http.counted, alike.stats])

/-- The answers of two handlers to one request. -/
def SamePublicReply (a b : Response × Http) : Prop := a.1 = b.1 ∧ PublicAlike a.2 b.2

section
variable {s s' : Http} (alike : PublicAlike s s')
include alike

theorem httpSend404_public : SamePublicReply (httpSend404 s) (httpSend404 s') := by
  refine ⟨rfl, alike.after (Quiet.refl _) (Quiet.refl _) ?_⟩
  simp only [httpSend404, alike.stats]

omit alike in
theorem handleInfo_stats (s : Http) : (handleInfo s).2.httpStats = s.httpStats := rfl

theorem handleInfo_public : SamePublicReply (handleInfo s) (handleInfo s') := by
  refine ⟨?_, alike.after (handleInfo_quiet s) (handleInfo_quiet s') ?_⟩
  · rw [handleInfo_spec alike.coherent, handleInfo_spec alike.coherent']
    exact alike.record.identity.info (alike.writen.trans alike.writen'.symm)
  · rw [handleInfo_stats, handleInfo_stats, alike.stats]

/-- POST /write is refused on both, before anything is looked up. -/
theorem handleWritePost_public (contentLength : Int) (env : FlashEnv) (body : Option Bytes) :
    Outcome.BothReturn SamePublicReply (handleWritePost s contentLength env body)
      (handleWritePost s' contentLength env body) := by
  have set : keystoreWriten s.keystore = true := alike.writen
  have setToo : keystoreWriten s'.keystore = true := alike.writen'
  simp only [handleWritePost, set, setToo, if_true]
  refine .done ⟨rfl, alike.after (Quiet.refl _) (Quiet.refl _) ?_⟩
  simp only [alike.stats]

theorem debugSnapshot_public (p : Platform) : SamePublicReply (debugSnapshot p s) (debugSnapshot p s') := by
  obtain ⟨shown, shows, answer, stats⟩ := debugSnapshot_shows alike.coherent.serves p
  obtain ⟨shown', shows', answer', stats'⟩ := debugSnapshot_shows alike.coherent'.serves p
  have text : textShown p shown s.flash = textShown p shown' s'.flash := by
    rw [textShown, textShown, ← alike.record.selftest]
    exact alike.record.identity.snapshot shows shows' rfl rfl (alike.writen.trans alike.writen'.symm) alike.stats
      _ _ _ _
  refine ⟨?_, alike.after (debugSnapshot_quiet p s) (debugSnapshot_quiet p s') ?_⟩
  · rw [answer, answer', text]
  · rw [stats, stats', text, alike.stats]

/-- POST /debug without the clear action. -/
theorem handleDebug_public (p : Platform) (contentLength : Int) (env : FlashEnv) (body : Option Bytes)
    (keeps : debugCommand contentLength (bodyText body) ≠ .wipe) :
    Outcome.BothReturn (fun a b => a.1 = b.1 ∧ a.2.1 = b.2.1 ∧ PublicAlike a.2.2 b.2.2)
      (handleDebug p s contentLength env body) (handleDebug p s' contentLength env body) := by
  simp only [handleDebug]
  by_cases large : contentLength > HTTP_DEBUG_BODY_LIMIT
  · rw [if_pos large, if_pos large]
    refine .done ⟨rfl, rfl, alike.after (Quiet.refl _) (Quiet.refl _) ?_⟩
    simp only [alike.stats]
  rw [if_neg large, if_neg large]
  by_cases snapshot : debugAction (bodyText body) = ascii "snapshot"
  · rw [if_pos snapshot, if_pos snapshot]
    obtain ⟨answer, after⟩ := debugSnapshot_public alike p
    exact .done ⟨answer, rfl, after⟩
  rw [if_neg snapshot, if_neg snapshot]
  by_cases clear : debugAction (bodyText body) = ascii "clear"
  · rw [debugCommand, if_neg large, if_pos clear] at keeps
    exact absurd rfl keeps
  rw [if_neg clear, if_neg clear]
  by_cases reset : debugAction (bodyText body) = ascii "reset"
  · rw [if_pos reset, if_pos reset]
    exact .done ⟨rfl, rfl, alike⟩
  · rw [if_neg reset, if_neg reset]
    exact .done ⟨rfl, rfl, alike⟩

end

/-- What is seen of a request, and what it leaves. -/
def SamePublicOutside {α : Type} (a b : α × HttpState × Http) : Prop :=
  a.1 = b.1 ∧ a.2.1 = b.2.1 ∧ PublicAlike a.2.2 b.2.2

theorem unchanged_public {st : HttpState} {a b : Response × Http} (same : SamePublicReply a b) :
    Outcome.BothReturn SamePublicOutside (unchanged st a) (unchanged st b) :=
  .done ⟨same.1, rfl, same.2⟩

theorem httpRoute_public {s s' : Http} (alike : PublicAlike s s') {w : World} {st : HttpState}
    (sign : st.route w ≠ .sign) (clear : st.route w ≠ .clear) (keeps : st.command w ≠ .wipe) :
    Outcome.BothReturn SamePublicOutside (httpRoute w st s) (httpRoute w st s') := by
  have counted := alike.counted
  rw [HttpState.command] at keeps
  rw [httpRoute_eq, httpRoute_eq]
  cases route : st.route w with
  | malformed => exact unchanged_public (httpSend404_public alike)
  | notFound => exact unchanged_public (httpSend404_public counted)
  | fixed r => exact unchanged_public ⟨rfl, counted⟩
  | info => exact unchanged_public (handleInfo_public counted)
  | sign => exact absurd route sign
  | clear => exact absurd route clear
  | write =>
      refine (handleWritePost_public counted _ _ _).map fun a b same => ?_
      exact ⟨same.1, rfl, same.2⟩
  | debug =>
      rw [route] at keeps
      refine (handleDebug_public counted _ _ _ _ keeps).map fun a b same => ?_
      obtain ⟨answer, reset, after⟩ := same
      exact ⟨answer, by rw [reset], after⟩

/-- The event asks neither for a signature nor for an erase. -/
structure BoardEvent.KeepsSecrets (a : BoardEvent) : Prop where
  sign : ¬ a.Posts (ascii "/sign")
  clear : ¬ a.Posts (ascii "/clear")
  debug : a.command ≠ .wipe

/-- What goes out on the connection of an event, and the connection after it. -/
def boardReply (s : Http) : BoardEvent → Option (List TcpEvent × HttpState)
  | .recv w st data _ =>
      match httpRecvCb w st s data with
      | .done (events, st, _) => some (events, st)
      | .cut _ => none
  | .reboot _ => none

/-- All that goes out in a run. -/
def boardReplies (s : Http) : List BoardEvent → List (Option (List TcpEvent × HttpState))
  | [] => []
  | a :: events => boardReply s a :: boardReplies (boardStep s a) events

/-- One segment on two boards. -/
theorem httpRecvCb_public {s s' : Http} (alike : PublicAlike s s') {w : World} {st : HttpState}
    {data : Bytes} {next : Entropy} (keeps : (BoardEvent.recv w st data next).KeepsSecrets) :
    Outcome.BothReturn SamePublicOutside (httpRecvCb w st s data) (httpRecvCb w st s' data) := by
  obtain ⟨sign, clear, debug⟩ := keeps
  simp only [BoardEvent.Posts, BoardEvent.command, BoardEvent.dispatched] at sign clear debug
  simp only [httpRecvCb]
  cases received : httpReceive st data with
  | ignored => exact .done ⟨rfl, rfl, alike⟩
  | tooLarge st' =>
      refine .done ⟨rfl, rfl, alike.after (Quiet.refl _) (Quiet.refl _) ?_⟩
      simp only [alike.stats]
  | waiting st' => exact .done ⟨rfl, rfl, alike⟩
  | complete st' =>
      simp only [received, Option.some.injEq, Prod.mk.injEq] at sign clear debug
      have noSign : st'.route w ≠ .sign := fun decided =>
        sign ⟨w, st', ⟨rfl, rfl⟩, routeOf_sign decided⟩
      have noClear : st'.route w ≠ .clear := fun decided =>
        clear ⟨w, st', ⟨rfl, rfl⟩, routeOf_clear decided⟩
      have routes := httpRoute_public alike noSign noClear debug
      simp only [httpProcessRequest]
      generalize httpRoute w st' s = one at routes ⊢
      generalize httpRoute w st' s' = other at routes ⊢
      cases routes with
      | done same =>
          obtain ⟨answer, connection, after⟩ := same
          simp only [answer, connection]
          exact .done ⟨rfl, rfl, after⟩

theorem boot_stats (f : Flash) (e : Entropy) :
    (Http.boot f e).httpStats = ⟨0, 0, 0, 0, 0, 0, 0, 0, 0, 0⟩ := rfl

theorem boot_public {f f' : Flash} (writen : storageWriten f = true) (writen' : storageWriten f' = true)
    (same : SamePublic f f') (e : Entropy) : PublicAlike (.boot f e) (.boot f' e) := by
  obtain ⟨flash, coherent⟩ := boot_quiet f e
  obtain ⟨flash', coherent'⟩ := boot_quiet f' e
  constructor
  · rw [flash]
    exact writen
  · rw [flash']
    exact writen'
  · exact coherent
  · exact coherent'
  · rw [flash, flash']
    exact same
  · rw [boot_stats, boot_stats]

/-- One event on two boards. -/
theorem boardStep_public {s s' : Http} (alike : PublicAlike s s') {a : BoardEvent}
    (keeps : a.KeepsSecrets) :
    boardReply s a = boardReply s' a ∧ PublicAlike (boardStep s a) (boardStep s' a) := by
  cases a with
  | reboot e => exact ⟨rfl, boot_public alike.writen alike.writen' alike.record e⟩
  | recv w st data next =>
      have same := httpRecvCb_public alike keeps
      simp only [boardReply, boardStep]
      generalize httpRecvCb w st s data = one at same ⊢
      generalize httpRecvCb w st s' data = other at same ⊢
      cases same with
      | done related =>
          obtain ⟨events, connection, after⟩ := related
          simp only [events, connection]
          exact ⟨trivial, after⟩

theorem boardReplies_public {s s' : Http} (alike : PublicAlike s s') {events : List BoardEvent}
    (keeps : ∀ a ∈ events, a.KeepsSecrets) : boardReplies s events = boardReplies s' events := by
  induction events generalizing s s' with
  | nil => rfl
  | cons a events ih =>
      obtain ⟨reply, after⟩ := boardStep_public alike (keeps a List.mem_cons_self)
      have rest := ih after fun b member => keeps b (List.mem_cons_of_mem a member)
      rw [boardReplies, boardReplies, reply, rest]

/-- Every sequence of requests without a signature and without an erase gets the same
    bytes from two provisioned boards that have the same public record, of one length. -/
theorem boardReplies_secret {s s' : Http} (reachable : Reachable s) (reachable' : Reachable s')
    (provisioned : (keystoreState s.keystore).1 = .provisioned)
    (provisioned' : (keystoreState s'.keystore).1 = .provisioned)
    (record : SamePublic s.flash s'.flash) (stats : s.httpStats = s'.httpStats)
    {events : List BoardEvent} (keeps : ∀ a ∈ events, a.KeepsSecrets) :
    boardReplies s events = boardReplies s' events := by
  have writen := (provisioned_record reachable.settled provisioned).1
  have writen' := (provisioned_record reachable'.settled provisioned').1
  exact boardReplies_public ⟨writen, writen', reachable.settled writen, reachable'.settled writen', record,
    stats⟩ keeps

/-- The sample record under another seed. -/
def otherRecord : Record where
  pk := sampleRecord.pk
  sk := ⟨List.replicate 32 0x55 ++ samplePk, rfl⟩
  deviceId := sampleId
  valid := sampleRecord.valid

/-- Another X25519 secret key and another nonce for the same public key. -/
def otherDraw (d : Draw) : Draw where
  pk := d.pk
  sk := List.replicate STORAGE_KEY_LEN 0x33
  nonce := List.replicate STORAGE_NONCE_LEN 0x77
  pk_size := d.pk_size
  sk_size := List.length_replicate
  nonce_size := List.length_replicate

theorem storedLen_committed (f : Flash) (r : Record) (d : Draw) : storedLen (committed f r d) = r.payload.length :=
  storedLen_of_payload (sectionPayload_committed f r d)

theorem committed_samePublic (f : Flash) (d : Draw) :
    SamePublic (committed f sampleRecord d) (committed f otherRecord (otherDraw d)) := by
  constructor
  · constructor
    · exact ⟨sampleRecord, otherRecord, storedRecord_committed _ _ _, storedRecord_committed _ _ _, rfl, rfl⟩
    · rw [x25519_committed, x25519_committed]
      rfl
  · rw [storedLen_committed, storedLen_committed]
    decide +kernel

theorem writeEvent_keepsSecrets (flash : FlashEnv) : (writeEvent flash).KeepsSecrets := by
  constructor
  · intro posts
    exact absurd ((writeEvent_posts flash).unique posts) (by decide +kernel)
  · intro posts
    exact absurd ((writeEvent_posts flash).unique posts) (by decide +kernel)
  · rw [writeEvent_command]
    nofun

/-- Two boards of the sample identity with different secrets refuse a second provisioning alike. -/
theorem boardReplies_secret_sample :
    boardReplies (.boot (committed (fun _ => 0xFF) sampleRecord (drawn (.boot silent))) silent)
        [writeEvent ⟨.ok, .ok⟩] =
      boardReplies (.boot (committed (fun _ => 0xFF) otherRecord (otherDraw (drawn (.boot silent)))) silent)
        [writeEvent ⟨.ok, .ok⟩] := by
  have same := committed_samePublic (fun _ => 0xFF) (drawn (.boot silent))
  generalize drawn (.boot silent) = d at same ⊢
  have reads := boot_readsBack (storageWriten_committed (fun _ => 0xFF) sampleRecord d)
    (storedRecord_committed _ _ _) silent
  have reads' := boot_readsBack (storageWriten_committed (fun _ => 0xFF) otherRecord (otherDraw d))
    (storedRecord_committed _ _ _) silent
  rw [← (boot_quiet (committed (fun _ => 0xFF) sampleRecord d) silent).1,
    ← (boot_quiet (committed (fun _ => 0xFF) otherRecord (otherDraw d)) silent).1] at same
  have stats := (boot_stats (committed (fun _ => 0xFF) sampleRecord d) silent).trans
    (boot_stats (committed (fun _ => 0xFF) otherRecord (otherDraw d)) silent).symm
  have keeps : ∀ a ∈ [writeEvent ⟨.ok, .ok⟩], a.KeepsSecrets := by
    intro a member
    rw [List.mem_singleton] at member
    rw [member]
    exact writeEvent_keepsSecrets _
  exact boardReplies_secret (.boot _ _) (.boot _ _) reads.state reads'.state same stats keeps

/-- Flash behind a write of this payload. -/
def sealedFlash (src : Bytes) : Flash :=
  program (stagedImage src (drawn (.boot silent))).bytes (erase FLASH_SECTOR_SIZE fun _ => 0xFF)

theorem sealedFlash_opens {src : Bytes} (pos : 0 < src.length) (small : src.length ≤ STORAGE_MAX_PAYLOAD) :
    storageWriten (sealedFlash src) = true ∧ sectionPayload (sealedFlash src) = some src ∧
      NorFlash.read (sealedFlash src) 0x24 STORAGE_KEY_LEN = (drawn (.boot silent)).pk := by
  have size := (stagedImage src (drawn (.boot silent))).size
  have landed : STORAGE_SECTION_OFF + STORAGE_BOX_OVERHEAD + src.length ≤
      (stagedImage src (drawn (.boot silent))).bytes.length := by
    rw [size]
    simp only [STORAGE_MAX_PAYLOAD, STORAGE_SECTION_OFF, STORAGE_BOX_OVERHEAD, STORAGE_TOTAL_BYTES] at small ⊢
    omega
  have marked : 508 ≤ (stagedImage src (drawn (.boot silent))).bytes.length := by
    rw [size]
    decide
  exact ⟨(storageWriten_image (blank_erase _) small).mpr marked, sectionPayload_image (blank_erase _) pos small landed,
    (image_header (blank_erase _) pos small landed).2.2⟩

theorem boot_cacheValid {f : Flash} (writen : storageWriten f = true) (e : Entropy) :
    (Http.boot f e).keystore.cacheValid = (storedRecord f).isSome := by
  have load := (keystoreLoad_serves (Serves.stored (k := Keystore.boot f e) rfl)).2.1
  have loaded : (keystoreState (Keystore.boot f e)).2 = (keystoreLoad (Keystore.boot f e)).2 := by
    rw [keystoreState, if_neg (by rw [show (Keystore.boot f e).store.flash = f from rfl, writen]; decide)]
  change (keystoreState (Keystore.boot f e)).2.cacheValid = _
  rw [loaded, load]
  rfl

def debugRequest : Bytes := ascii "POST /debug HTTP/1.1\r\n\r\n"

def debugEvent : BoardEvent := .recv quietWorld .accepted debugRequest silent

theorem debugRequest_whole : WholeRequest debugRequest [] := by
  constructor <;> decide +kernel

theorem debugRequest_line : requestLine (HttpState.received debugRequest (contentLengthOf debugRequest)).buf.cstr =
    some (ascii "POST", ascii "/debug") := by
  rw [debugRequest_whole.cstr]
  decide +kernel

theorem debugEvent_route :
    (HttpState.received debugRequest (contentLengthOf debugRequest)).route quietWorld = .debug := by
  rw [HttpState.route, debugRequest_line]
  rfl

theorem debugEvent_keepsSecrets : debugEvent.KeepsSecrets := by
  have dispatched := debugRequest_whole.dispatched quietWorld silent
  have posts : debugEvent.Posts (ascii "/debug") := ⟨_, _, dispatched, debugRequest_line⟩
  constructor
  · exact fun other => absurd (posts.unique other) (by decide +kernel)
  · exact fun other => absurd (posts.unique other) (by decide +kernel)
  · have length : contentLengthOf debugRequest = 0 := by decide +kernel
    have action : debugAction [] = ascii "snapshot" := rfl
    have other : ascii "snapshot" ≠ ascii "clear" := by decide +kernel
    simp only [BoardEvent.command, debugEvent, dispatched, HttpState.command, debugEvent_route,
      debugRequest_whole.bodyText_eq]
    simp [debugCommand, length, action, other, HTTP_DEBUG_BODY_LIMIT]

theorem debugEvent_sends {s : Http} {o : Option Record} (serves : Serves s.keystore o) :
    ∃ shown, Shows shown s.counted o ∧ (textShown quietWorld.platform shown s.flash).length < 1280 ∧
      debugEvent.sends s = some ⟨200, textShown quietWorld.platform shown s.flash⟩ := by
  have counted : Serves s.counted.keystore o := serves
  obtain ⟨shown, shows, answer, -⟩ := debugSnapshot_shows counted quietWorld.platform
  rw [snapshotReply_whole quietWorld_sized shows] at answer
  have short := snapshotText_fits quietWorld_sized shows
  refine ⟨shown, shows, short, ?_⟩
  have small : ¬ contentLengthOf debugRequest > HTTP_DEBUG_BODY_LIMIT := by decide +kernel
  have action : debugAction [] = ascii "snapshot" := rfl
  have free := debugRequest_whole
  simp only [debugEvent, BoardEvent.sends, httpReceive_whole free.free free.small free.blank free.length, httpRoute_eq,
    debugEvent_route, handleDebug, HttpState.received_contentLength, if_neg small, free.bodyText_eq, action, if_true, answer,
    Outcome.map]
  rfl

/-- The text of the snapshot behind its header, in one piece. -/
theorem debugEvent_reply {s : Http} {o : Option Record} (serves : Serves s.keystore o) :
    ∃ shown st, Shows shown s.counted o ∧
      boardReply s debugEvent = some ([.recved debugRequest.length,
        .write (headerText 200 (textShown quietWorld.platform shown s.flash).length ++
          textShown quietWorld.platform shown s.flash)], st) := by
  obtain ⟨shown, shows, short, sends⟩ := debugEvent_sends serves
  obtain ⟨st, s', received⟩ := sends_recvCb sends
  have ok : 200 ∈ statuses := by decide
  have small : Response.Small ⟨200, textShown quietWorld.platform shown s.flash⟩ := ⟨ok, Nat.le_of_lt short⟩
  have writes := httpSendResponse_whole small st
  refine ⟨shown, (httpSendResponse st ⟨200, textShown quietWorld.platform shown s.flash⟩ true).1, shows, ?_⟩
  rw [debugEvent, boardReply, received]
  simp only [quietWorld, benchWorld] at writes ⊢
  rw [writes]

theorem headerText_length_mono (status : Nat) {m n : Nat} (less : m ≤ n) :
    (headerText status m).length ≤ (headerText status n).length := by
  have digits := decimal_length_mono less
  simp only [headerText, List.length_append]
  omega

/-- One digit more of the length is one byte more of the text. -/
theorem snapshotText_length (p : Platform) (s : Http) (available : Bool) (selftest : Bytes) :
    (snapshotText p s available selftest 100).length = (snapshotText p s available selftest 99).length + 1 := by
  have three : (decimal 100).length = 3 := rfl
  have two : (decimal 99).length = 2 := rfl
  unfold snapshotText
  simp only [List.length_append, three, two]
  omega

/-- A payload with the sample keys and this id field. -/
def idPayload (id : Bytes) : Bytes :=
  [RECORD_FORMAT_VERSION, UInt8.ofNat id.length] ++ samplePk ++ (sampleSeed ++ samplePk) ++ id

/-- The id is `a`, and behind it there is a NUL or nothing. -/
theorem idPayload_decoded {id : Bytes} (member : id ∈ [[0x61], [0x61, 0]]) :
    ∃ r, decoded (idPayload id) = some r ∧ r.deviceId = [0x61] ∧ r.pk.bytes = samplePk := by
  have well : WellFormed (idPayload id) ∧ content (idField (idPayload id)) = [0x61] ∧
      ((idPayload id).drop 2).take 32 = samplePk := by
    simp only [List.mem_cons, List.not_mem_nil, or_false] at member
    rcases member with rfl | rfl
    all_goals exact ⟨⟨by decide +kernel, by decide +kernel, by decide +kernel, by decide +kernel⟩, by decide +kernel,
      by decide +kernel⟩
  obtain ⟨well, name, key⟩ := well
  obtain ⟨r, decodes⟩ : ∃ r, decoded (idPayload id) = some r := ⟨_, dif_pos well⟩
  exact ⟨r, decodes, (decoded_deviceId decodes).trans name, (decoded_keys decodes).1.trans key⟩

def idBoard (id : Bytes) : Http := .boot (sealedFlash (idPayload id)) silent

/-- A provisioned board of that id, which says how long the payload is. -/
structure ShowsLength (s : Http) (len : Nat) (r : Record) : Prop where
  provisioned : (keystoreState s.keystore).1 = .provisioned
  cached : s.keystore.cacheValid = true
  writen : storageWriten s.flash = true
  serves : Serves s.keystore (storedRecord s.flash)
  stored : storedRecord s.flash = some r
  id : r.deviceId = [0x61]
  pk : r.pk.bytes = samplePk
  x25519 : NorFlash.read s.flash 0x24 STORAGE_KEY_LEN = (drawn (.boot silent)).pk
  stats : s.httpStats = ⟨0, 0, 0, 0, 0, 0, 0, 0, 0, 0⟩
  selftest : selftestOf s.flash = (len, true, ascii "ok")

theorem idBoard_shows {id : Bytes} (member : id ∈ [[0x61], [0x61, 0]]) :
    ∃ r, ShowsLength (idBoard id) (98 + id.length) r := by
  obtain ⟨size, small⟩ : (idPayload id).length = 98 + id.length ∧ id.length ≤ 2 := by
    simp only [List.mem_cons, List.not_mem_nil, or_false] at member
    rcases member with rfl | rfl <;> decide +kernel
  obtain ⟨r, decodes, name, key⟩ := idPayload_decoded member
  obtain ⟨writen, payload, x25519⟩ := sealedFlash_opens (by omega : 0 < (idPayload id).length)
    (by rw [size, STORAGE_MAX_PAYLOAD]; omega)
  have stored : storedRecord (sealedFlash (idPayload id)) = some r := by
    rw [storedRecord, payload, Option.bind_some, decodes]
  obtain ⟨flash, coherent⟩ := boot_quiet (sealedFlash (idPayload id)) silent
  refine ⟨r, (boot_readsBack writen stored silent).state, ?_, ?_, coherent.serves, ?_, name, key, ?_, boot_stats _ _, ?_⟩
  · rw [idBoard, boot_cacheValid writen, stored]
    rfl
  · rw [idBoard, flash, writen]
  · rw [idBoard, flash, stored]
  · rw [idBoard, flash, x25519]
  · rw [idBoard, flash, selftestOf, storageAvailable_of_payload payload, payload, if_neg (by decide), ← size]

theorem ShowsLength.sameIdentity {s s' : Http} {len len' : Nat} {r r' : Record} (shows : ShowsLength s len r)
    (shows' : ShowsLength s' len' r') : SameIdentity s.flash s'.flash where
  records := ⟨r, r', shows.stored, shows'.stored, shows.id.trans shows'.id.symm,
    Region.ext (shows.pk.trans shows'.pk.symm)⟩
  x25519 := shows.x25519.trans shows'.x25519.symm

/-- Of two boards of one identity the one with a digit more to show writes more. -/
theorem ShowsLength.replies_differ {s s' : Http} {r r' : Record} (shows : ShowsLength s 99 r)
    (shows' : ShowsLength s' 100 r') : boardReply s debugEvent ≠ boardReply s' debugEvent := by
  obtain ⟨shown, st, one, reply⟩ := debugEvent_reply shows.serves
  obtain ⟨shown', st', other, reply'⟩ := debugEvent_reply shows'.serves
  have counted : s.counted.httpStats = s'.counted.httpStats := by
    rw [Http.counted, Http.counted, shows.stats, shows'.stats]
  have text : textShown quietWorld.platform shown' s'.flash =
      snapshotText quietWorld.platform shown true (ascii "ok") 100 := by
    rw [textShown, shows'.selftest]
    exact ((shows.sameIdentity shows').snapshot one other rfl rfl (shows.writen.trans shows'.writen.symm) counted
      _ _ _ _).symm
  have longer : (textShown quietWorld.platform shown' s'.flash).length =
      (textShown quietWorld.platform shown s.flash).length + 1 := by
    rw [text, textShown, shows.selftest]
    exact snapshotText_length _ _ _ _
  intro same
  rw [reply, reply'] at same
  simp only [Option.some.injEq, Prod.mk.injEq, List.cons.injEq, TcpEvent.write.injEq] at same
  have lengths := congrArg List.length same.1.2.1
  rw [List.length_append, List.length_append, longer] at lengths
  have header := headerText_length_mono 200 (Nat.le_add_right (textShown quietWorld.platform shown s.flash).length 1)
  omega

/-- The length of the payload is shown, and two payloads of one device id may differ in it. -/
theorem boardReplies_secret_nul : ¬ ∀ {s s' : Http}, Reachable s → Reachable s' →
    (keystoreState s.keystore).1 = .provisioned → (keystoreState s'.keystore).1 = .provisioned →
    SameIdentity s.flash s'.flash → s.httpStats = s'.httpStats → s.keystore.cacheValid = s'.keystore.cacheValid →
    ∀ {events : List BoardEvent}, (∀ a ∈ events, a.KeepsSecrets) → boardReplies s events = boardReplies s' events := by
  intro secret
  have short : [0x61] ∈ ([[0x61], [0x61, 0]] : List Bytes) := List.mem_cons_self
  have long : [0x61, 0] ∈ ([[0x61], [0x61, 0]] : List Bytes) := List.mem_cons_of_mem _ List.mem_cons_self
  obtain ⟨r, shows⟩ := idBoard_shows short
  obtain ⟨r', shows'⟩ := idBoard_shows long
  have keeps : ∀ a ∈ [debugEvent], a.KeepsSecrets := by
    intro a member
    rw [List.mem_singleton.mp member]
    exact debugEvent_keepsSecrets
  have same := secret (.boot _ _) (.boot _ _) shows.provisioned shows'.provisioned (shows.sameIdentity shows')
    (shows.stats.trans shows'.stats.symm) (shows.cached.trans shows'.cached.symm) keeps
  exact shows.replies_differ shows' (List.cons.inj same).1

end Roman
