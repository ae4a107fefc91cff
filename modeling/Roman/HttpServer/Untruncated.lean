import Roman.HttpServer.Fits
import Roman.HttpServer.JsonRuns

/-! # No reply is cut

Every text a handler prints is shorter than the array it is printed to: the fields are
cut to their arrays when they are read, a device id has at most 32 characters, keys and
signatures have a fixed length and counters 32 bits.
-/

namespace Roman

open CMem CStr NorFlash TweetNacl Json

def infoText (o : Option Record) (f : Flash) : Bytes :=
  ascii "\x7b\"device\":\"pico2\",\"firmware\":\"roman\",\"version\":\"" ++ ROMAN_VERSION ++
    ascii "\",\"engine\":\"C/tweetnacl\",\"id\":" ++ shownId o ++ ascii ",\"storage\":\"" ++ servedState o f ++
    ascii "\"\x7d"

def acceptedText (key : Bytes) : Bytes :=
  ascii "\x7b\"status\":\"ok\",\"writen\":true,\"x25519_pk\":\"" ++ base64Encode key ++ ascii "\"\x7d"

/-- The texts of the SDK and of lwIP are C strings of these lengths. -/
structure Platform.Sized (p : Platform) : Prop where
  sdkVersion : NulFree p.sdkVersion ∧ p.sdkVersion.length ≤ 16
  uniqueId : NulFree p.uniqueId ∧ p.uniqueId.length ≤ 16
  ip : ∀ n, p.netif = some n → NulFree n.ip ∧ n.ip.length ≤ 15
  hwaddr : ∀ n, p.netif = some n → n.hwaddr.length = 6
  conns : p.conns ≤ HTTP_MAX_CONN
  bootStage : ∃ stage, p.bootStage = diagStageName stage

theorem diagStageName_length (stage : DiagStage) : (diagStageName stage).length ≤ 14 := by
  cases stage <;> exact text_short _ (by decide)

theorem boolText_length (b : Bool) : (boolText b).length ≤ 5 := by
  cases b with
  | true => exact text_short ['t', 'r', 'u', 'e'] (by decide)
  | false => exact text_short ['f', 'a', 'l', 's', 'e'] (by decide)

theorem uintText_length (n : UInt32) : (uintText n).length ≤ 10 :=
  decimal_length (k := 9) (Nat.lt_trans n.toNat_lt (by decide))

theorem macText_length {hwaddr : Bytes} (size : hwaddr.length = 6) : (macText hwaddr).length = 17 := by
  obtain ⟨a, b, c, d, e, f, rfl⟩ : ∃ a b c d e f, hwaddr = [a, b, c, d, e, f] := by
    match hwaddr, size with
    | [a, b, c, d, e, f], _ => exact ⟨a, b, c, d, e, f, rfl⟩
  rfl

theorem key_length {key : Bytes} (size : key.length = 32) : (base64Encode key).length = 44 := by
  rw [Base64.base64Encode_length, size]

theorem shownKey_length (o : Option Record) : (shownKey o).length ≤ 44 := by
  cases o with
  | none => exact Nat.zero_le _
  | some r => exact Nat.le_of_eq (key_length r.pk.size)

theorem shownX_length (f : Flash) : (shownX f).length ≤ 44 := by
  unfold shownX
  split
  · exact Nat.zero_le _
  · exact Nat.le_of_eq (key_length (read_length _ _ _))

theorem selftestOf_length (f : Flash) : (selftestOf f).2.2.length ≤ 7 ∧ (selftestOf f).1 ≤ STORAGE_MAX_PAYLOAD := by
  unfold selftestOf
  split
  · exact ⟨text_short _ (by decide), Nat.zero_le _⟩
  split
  · exact ⟨text_short _ (by decide), Nat.zero_le _⟩
  · rename_i payload
    exact ⟨text_short _ (by decide), (sectionPayload_length payload).2⟩

theorem infoText_fits (o : Option Record) (f : Flash) : (infoText o f).length < 320 := by
  have sizes : textLength infoTemplate = 95 := by decide +kernel
  have filled := fill_length_le infoTemplate
    (.cons (shownId_cut o).2 (.cons (servedState_printed o f).2 .nil) : Bounded [shownId o, servedState o f] [34, 11])
  have eq : fill infoTemplate [shownId o, servedState o f] = infoText o f := by
    simp only [infoText, infoTemplate, fill, List.append_assoc, List.append_nil]
  rw [eq, sizes] at filled
  exact Nat.lt_of_le_of_lt filled (by decide)

/-- The reply of GET /info is the text that is printed. -/
theorem servedInfo_whole (o : Option Record) (f : Flash) : servedInfo o (servedState o f) = ⟨200, infoText o f⟩ := by
  have short := infoText_fits o f
  have eq : fill infoTemplate [shownId o, servedState o f] = infoText o f := by
    simp only [infoText, infoTemplate, fill, List.append_assoc, List.append_nil]
  have free : NulFree (infoText o f) := by
    obtain ⟨v, id⟩ := shownId_text o
    rw [← eq]
    apply fill_nulFree (by decide +kernel)
    intro c member
    simp only [List.mem_cons, List.not_mem_nil, or_false] at member
    rcases member with rfl | rfl
    · exact nulFree_of_scanAll id.element.scans
    · exact (servedState_printed o f).1.plain.nulFree
  rw [servedInfo_eq, (shownId_cut o).1, eq, List.take_of_length_le (by omega), content_of_nulFree free]

theorem acceptedText_fits {key : Bytes} (size : key.length = 32) : (acceptedText key).length < 160 := by
  have front : (ascii "\x7b\"status\":\"ok\",\"writen\":true,\"x25519_pk\":\"").length = 42 := ascii_ofList_length _
  have last : (ascii "\"\x7d").length = 2 := ascii_ofList_length _
  rw [acceptedText, List.length_append, List.length_append, front, last, key_length size]
  decide

/-- So is the reply of a provisioning. -/
theorem acceptedReply_whole {f : Flash} (available : storageAvailable f = true) :
    acceptedReply f = ⟨200, acceptedText (NorFlash.read f 0x24 STORAGE_KEY_LEN)⟩ := by
  have short := @acceptedText_fits (NorFlash.read f 0x24 STORAGE_KEY_LEN) (read_length _ _ _)
  have key := base64Encode_printed (NorFlash.read f 0x24 STORAGE_KEY_LEN)
  have eq : fill acceptedTemplate [base64Encode (NorFlash.read f 0x24 STORAGE_KEY_LEN)] =
      acceptedText (NorFlash.read f 0x24 STORAGE_KEY_LEN) := by
    simp only [acceptedText, acceptedTemplate, fill, List.append_assoc, List.append_nil]
  have free : NulFree (acceptedText (NorFlash.read f 0x24 STORAGE_KEY_LEN)) := by
    rw [← eq]
    apply fill_nulFree (by decide +kernel)
    intro c member
    rw [List.mem_singleton] at member
    exact member ▸ key.plain.nulFree
  unfold acceptedReply
  rw [if_neg (by rw [available]; decide)]
  dsimp only
  rw [content_of_nulFree key.plain.nulFree]
  change (⟨200, content ((acceptedText (NorFlash.read f 0x24 STORAGE_KEY_LEN)).take 159)⟩ : Response) = _
  rw [List.take_of_length_le (by omega), content_of_nulFree free]

theorem shownIp_length {p : Platform} (sized : p.Sized) : (shownIp p).length ≤ 15 := by
  unfold shownIp
  cases netif : p.netif with
  | none => exact text_short _ (by decide)
  | some n => exact (sized.ip n netif).2

theorem shownMac_length {p : Platform} (sized : p.Sized) : (shownMac p).length ≤ 17 := by
  unfold shownMac
  cases netif : p.netif with
  | none => exact text_short _ (by decide)
  | some n => exact Nat.le_of_eq (macText_length (sized.hwaddr n netif))

theorem snapshotText_fits {p : Platform} (sized : p.Sized) {shown s : Http} {o : Option Record}
    (shows : Shows shown s o) : (textShown p shown s.flash).length < 1280 := by
  have texts : textLength snapshotTemplate = 541 := by decide +kernel
  obtain ⟨selftest, payload⟩ := selftestOf_length s.flash
  have id : shown.debugIdJson.cstr.length ≤ 34 := by
    rw [shows.id, (shownId_cut o).1]
    exact (shownId_cut o).2
  have ed : shown.edB64.cstr.length ≤ 44 := by
    rw [shows.edB64, content_of_nulFree (shownKey_printed o).plain.nulFree]
    exact shownKey_length o
  have x : shown.xB64.cstr.length ≤ 44 := by
    rw [shows.xB64, content_of_nulFree (shownX_printed s.flash).plain.nulFree]
    exact shownX_length s.flash
  have digit : ∀ {n : Nat}, n < 10 → (decimal n).length ≤ 1 := decimal_length (k := 0)
  have conns := digit (Nat.lt_of_le_of_lt sized.conns (by decide))
  have connsMax := digit (n := HTTP_MAX_CONN) (by decide)
  have len : (decimal (selftestOf s.flash).1).length ≤ 3 :=
    decimal_length (k := 2) (Nat.lt_of_le_of_lt payload (by decide))
  have max : (decimal STORAGE_MAX_PAYLOAD).length ≤ 3 := decimal_length (k := 2) (by decide)
  have off : (decimal DEBUG_STORAGE_FLASH_OFFSET).length ≤ 7 := decimal_length (k := 6) (by decide)
  have ip := shownIp_length sized
  have mac := shownMac_length sized
  have sdk := sized.sdkVersion.2
  have unique := sized.uniqueId.2
  obtain ⟨stage, stageText⟩ := sized.bootStage
  have last : p.bootStage.length ≤ 14 := stageText ▸ diagStageName_length stage
  have uint := uintText_length
  have bool := boolText_length
  have bounded : Bounded (snapshotHoles p shown (selftestOf s.flash).2.1 (selftestOf s.flash).2.2 (selftestOf s.flash).1)
      ([10, 16, 10, 16, 5, 10, 10, 10, 10, 15, 17, 5, 1, 1] ++ List.replicate 10 10 ++
        [5, 5, 7, 3, 3, 7, 34, 44, 44, 14, 5]) := by
    simp only [Bounded, snapshotHoles, List.replicate, List.cons_append, List.nil_append, List.forall₂_cons]
    refine ⟨uint _, sdk, uint _, unique, bool _, uint _, uint _, uint _, uint _, ip, mac, bool _, conns, connsMax, ?_⟩
    refine ⟨uint _, uint _, uint _, uint _, uint _, uint _, uint _, uint _, uint _, uint _, ?_⟩
    exact ⟨bool _, bool _, selftest, len, max, off, id, ed, x, last, bool _, .nil⟩
  have filled := fill_length_le snapshotTemplate bounded
  rw [texts] at filled
  rw [textShown, snapshotText_eq]
  exact Nat.lt_of_le_of_lt filled (by decide)

theorem decimal_nulFree (n : Nat) : NulFree (decimal n) := by
  intro b member
  have digit := decimal_isDigit member
  rintro rfl
  cases digit

theorem boolText_nulFree (b : Bool) : NulFree (boolText b) := by
  have words : Printed (ascii "true") ∧ Printed (ascii "false") :=
    ⟨printed_text _ (by decide), printed_text _ (by decide)⟩
  cases b with
  | true => exact words.1.plain.nulFree
  | false => exact words.2.plain.nulFree

theorem snapshotText_nulFree {p : Platform} (sized : p.Sized) (shown : Http) (f : Flash) :
    NulFree (textShown p shown f) := by
  have uint : ∀ n : UInt32, NulFree (uintText n) := fun n => decimal_nulFree n.toNat
  have ip : NulFree (shownIp p) := by
    unfold shownIp
    cases netif : p.netif with
    | none => exact (printed_text _ (by decide) : Printed (ascii "0.0.0.0")).plain.nulFree
    | some n => exact (sized.ip n netif).1
  have mac : NulFree (shownMac p) := by
    unfold shownMac
    cases p.netif with
    | none => exact (printed_text _ (by decide) : Printed (ascii "00:00:00:00:00:00")).plain.nulFree
    | some n => exact (macText_printed n.hwaddr).plain.nulFree
  obtain ⟨stage, stageText⟩ := sized.bootStage
  have last : NulFree p.bootStage := stageText ▸ (diagStageName_printed stage).plain.nulFree
  have cstr : ∀ {n : Nat} (r : Region n), NulFree r.cstr := fun r => content_nulFree r.bytes
  rw [textShown, snapshotText_eq]
  apply fill_nulFree (by decide +kernel)
  simp only [snapshotHoles, List.forall_mem_cons]
  refine ⟨uint _, sized.sdkVersion.1, uint _, sized.uniqueId.1, boolText_nulFree _, uint _, uint _, uint _, uint _, ?_⟩
  refine ⟨ip, mac, boolText_nulFree _, decimal_nulFree _, decimal_nulFree _, ?_⟩
  refine ⟨uint _, uint _, uint _, uint _, uint _, uint _, uint _, uint _, uint _, uint _, ?_⟩
  refine ⟨boolText_nulFree _, boolText_nulFree _, (selftestOf_printed f).plain.nulFree, ?_⟩
  exact ⟨decimal_nulFree _, decimal_nulFree _, decimal_nulFree _, cstr _, cstr _, cstr _, last, boolText_nulFree _, List.forall_mem_nil _⟩

/-- The reply of a snapshot is the text that is printed. -/
theorem snapshotReply_whole {p : Platform} (sized : p.Sized) {shown s : Http} {o : Option Record}
    (shows : Shows shown s o) : snapshotReply (textShown p shown s.flash) = ⟨200, textShown p shown s.flash⟩ := by
  have short := snapshotText_fits sized shows
  rw [snapshotReply, if_neg (by omega), content_of_nulFree (snapshotText_nulFree sized shown s.flash)]

def messageTooLong : Response := reply 400 "\x7b\"error\":\"Message too long\"\x7d"

def debugOverflow : Response := reply 500 "\x7b\"status\":\"error\",\"error\":\"debug overflow\"\x7d"

/-- A signed reply, with the message, the signature and the reply in their arrays. -/
structure SignedWhole (s : Http) (body : Bytes) (r : Response) (stored : Record) (c x t sig : Bytes) : Prop where
  serves : Serves s.keystore (some stored)
  challenge : jsonField body (ascii "challenge") 256 = some c
  context : jsonField body (ascii "context") 128 = some x
  timestamp : jsonField body (ascii "timestamp") 128 = some t
  signature : sig = TweetNacl.signature (signMessage c x t stored.deviceId) stored.sk.bytes
  signBody : (signMessage c x t stored.deviceId).length < 1024
  sigSm : (signMessage c x t stored.deviceId).length + 64 ≤ 2048
  sigB64 : (base64Encode sig).length < 128
  reply : r = signedReply sig t stored.deviceId
  printed : r.body.length < 1024

/-- What each handler prints fits the array it is printed to, and is what is sent. -/
structure PrintsWhole (s : Http) (w : World) (st : HttpState) (r : Response) : Prop where
  sign : st.route w = .sign → r.status = 200 → ∃ stored c x t sig, SignedWhole s (bodyText st.body) r stored c x t sig
  info : st.route w = .info → ∃ o, Serves s.keystore o ∧ (shownId o).length < RECORD_MAX_DEVICE_ID + 8 ∧
    r = ⟨200, infoText o s.flash⟩ ∧ r.body.length < 320
  write : st.route w = .write → r.status = 200 → r = reply 200 "\x7b\"status\":\"ok\",\"writen\":true\x7d" ∨
    ∃ key, key.length = STORAGE_KEY_LEN ∧ (base64Encode key).length < 64 ∧ r = ⟨200, acceptedText key⟩ ∧ r.body.length < 160
  debug : st.route w = .debug → ¬ st.contentLength > HTTP_DEBUG_BODY_LIMIT →
    debugAction (bodyText st.body) = ascii "snapshot" → ∃ o shown, Serves s.keystore o ∧ Shows shown s.counted o ∧
      (shownId o).length < RECORD_MAX_DEVICE_ID + 8 ∧ (shownKey o).length < 64 ∧ (shownX s.flash).length < 64 ∧
      r = ⟨200, textShown w.platform shown s.flash⟩ ∧ r.body.length < 1280

/-- A reply is sent as a whole, behind a header with its length. -/
structure WholeReply (s : Http) (a : BoardEvent) (r : Response) : Prop where
  header : (headerText r.status r.body.length).length < HTTP_BUF_SIZE
  total : (headerText r.status r.body.length).length + r.body.length ≤ HTTP_BUF_SIZE
  sent : ∀ st, (httpSendResponse st r true).2 = [.write (headerText r.status r.body.length ++ r.body)]
  message : r ≠ messageTooLong
  overflow : r ≠ debugOverflow
  printed : ∀ w st, a.dispatched = some (w, st) → PrintsWhole s w st r

theorem httpSendResponse_whole {r : Response} (small : r.Small) (st : HttpState) :
    (httpSendResponse st r true).2 = [.write (headerText r.status r.body.length ++ r.body)] := by
  have header := header_length small.status small.body
  have body := small.body
  have fits : (headerText r.status r.body.length).length + r.body.length ≤ HTTP_BUF_SIZE := Nat.not_lt.mp small.fits
  have short : (headerText r.status r.body.length).length < HTTP_BUF_SIZE := by
    rw [HTTP_BUF_SIZE]
    omega
  have front : ((st.buf.snprintf (headerText r.status r.body.length)).store
      (headerText r.status r.body.length).length r.body).load 0 (headerText r.status r.body.length).length =
      headerText r.status r.body.length := by
    rw [Region.load_store_apart _ _ _ fits (.inl (by omega)), Region.load_snprintf _ short]
  have back : ((st.buf.snprintf (headerText r.status r.body.length)).store
      (headerText r.status r.body.length).length r.body).load (headerText r.status r.body.length).length
        r.body.length = r.body := Region.load_store _ _ _ fits
  unfold httpSendResponse
  dsimp only
  rw [if_neg small.fits, if_pos rfl]
  dsimp only
  rw [Region.load_add, Nat.zero_add, front, back]

/-- None of the two replies to a text that is too long. -/
structure Ordinary (r : Response) : Prop where
  message : r ≠ messageTooLong
  overflow : r ≠ debugOverflow

theorem ordinary_of_ok {r : Response} (ok : r.status = 200) : Ordinary r := by
  constructor
  · rintro rfl
    cases ok
  · rintro rfl
    cases ok

theorem reply_ordinary {status : Nat} (l : List Char)
    (other : (status ≠ 400 ∨ l.length ≠ 28) ∧ (status ≠ 500 ∨ l.length ≠ 43)) : Ordinary (reply status (String.ofList l)) := by
  have body : (reply status (String.ofList l)).body.length = l.length := ascii_ofList_length l
  have message : messageTooLong.body.length = 28 := ascii_ofList_length _
  have overflow : debugOverflow.body.length = 43 := ascii_ofList_length _
  constructor
  · intro same
    rw [same, message] at body
    exact other.1.elim (fun status => status (congrArg Response.status same)) fun length => length body.symm
  · intro same
    rw [same, overflow] at body
    exact other.2.elim (fun status => status (congrArg Response.status same)) fun length => length body.symm

/-- The fields are cut to their arrays, and an id has at most 32 characters. -/
theorem signMessage_fits {body c x t : Bytes} (challenge : jsonField body (ascii "challenge") 256 = some c)
    (context : jsonField body (ascii "context") 128 = some x)
    (timestamp : jsonField body (ascii "timestamp") 128 = some t) (r : Record) :
    (signMessage c x t r.deviceId).length < 1024 := by
  have cSize := (jsonField_text (by decide) challenge).1
  have xSize := (jsonField_text (by decide) context).1
  have tSize := (jsonField_text (by decide) timestamp).1
  have idSize := (idRule_iff.mp r.valid).2.1
  rw [RECORD_MAX_DEVICE_ID] at idSize
  rw [signMessage_length]
  omega

theorem signReply_ordinary (o : Option Record) (body : Bytes) : Ordinary (signReply o body) := by
  unfold signReply
  split
  · exact reply_ordinary _ (by decide)
  split
  · exact reply_ordinary _ (by decide)
  rename_i r
  split
  · exact reply_ordinary _ (by decide)
  rename_i c challenge
  split
  · exact reply_ordinary _ (by decide)
  rename_i x context
  split
  · exact reply_ordinary _ (by decide)
  rename_i t timestamp
  have short := signMessage_fits challenge context timestamp r
  dsimp only
  rw [if_neg (Nat.not_le.mpr short)]
  exact ordinary_of_ok rfl

theorem writeReply_ordinary {k k' : Keystore} {contentLength : Int} {env : FlashEnv} {body : Bytes}
    {r : Response} (done : writeReply k contentLength env body = .done (r, k')) : Ordinary r := by
  have known : ∀ p ∈ writeReplies, Ordinary (reply p.1 p.2) := by
    simp only [writeReplies, List.forall_mem_cons]
    repeat' apply And.intro
    any_goals exact reply_ordinary _ (by decide)
    exact List.forall_mem_nil _
  rcases writeReply_cases done with ⟨f, rfl⟩ | ⟨p, member, rfl⟩
  · apply ordinary_of_ok
    unfold acceptedReply
    split <;> rfl
  · exact known p member

theorem clearReply_ordinary {k k' : Keystore} {contentLength : Int} {env : FlashEnv} {body : Bytes}
    {r : Response} (done : clearReply k contentLength env body = .done (r, k')) : Ordinary r := by
  have known : ∀ p ∈ clearReplies, Ordinary (reply p.1 p.2) := by
    simp only [clearReplies, List.forall_mem_cons]
    repeat' apply And.intro
    any_goals exact reply_ordinary _ (by decide)
    exact List.forall_mem_nil _
  obtain ⟨p, member, rfl⟩ := clearReply_cases done
  exact known p member

theorem handleDebug_ordinary {p : Platform} (sized : p.Sized) {s s' : Http} {o : Option Record}
    (serves : Serves s.keystore o) {contentLength : Int} {env : FlashEnv} {body : Option Bytes} {r : Response}
    {reset : Bool} (done : handleDebug p s contentLength env body = .done (r, reset, s')) : Ordinary r := by
  obtain ⟨shown, shows, answer, -⟩ := debugSnapshot_shows serves p
  unfold handleDebug at done
  dsimp only at done
  split at done
  · cases done
    exact reply_ordinary _ (by decide)
  split at done
  · cases done
    rw [answer, snapshotReply_whole sized shows]
    exact ordinary_of_ok rfl
  repeat' split at done
  all_goals cases done
  all_goals exact reply_ordinary _ (by decide)

theorem httpRoute_ordinary {w : World} (sized : w.platform.Sized) {st st' : HttpState} {s s' : Http} {o : Option Record}
    (serves : Serves s.keystore o) {r : Response} (done : httpRoute w st s = .done (r, st', s')) : Ordinary r := by
  have counted : Serves s.counted.keystore o := serves
  rw [httpRoute_eq] at done
  cases route : st.route w with
  | malformed | notFound =>
      rw [route] at done
      cases done
      exact reply_ordinary _ (by decide)
  | fixed answer =>
      rw [route] at done
      cases done
      apply ordinary_of_ok
      rcases routeOf_fixed route with ⟨rfl, -⟩ | rfl | rfl | rfl <;> rfl
  | info =>
      rw [route] at done
      cases done
      exact ordinary_of_ok rfl
  | sign =>
      rw [route] at done
      cases done
      rw [(handleSignPost_result counted st.body).1]
      exact signReply_ordinary o (bodyText st.body)
  | write =>
      rw [route] at done
      obtain ⟨⟨r', s₁⟩, handled, eq⟩ := Outcome.map_done_iff.mp done
      cases eq
      have answer := handleWritePost_spec s.counted st.contentLength w.flash st.body
      rw [handled, Outcome.map_done] at answer
      exact writeReply_ordinary answer.symm
  | clear =>
      rw [route] at done
      obtain ⟨⟨r', s₁⟩, handled, eq⟩ := Outcome.map_done_iff.mp done
      cases eq
      have answer := handleClearPost_spec s.counted st.contentLength w.flash st.body
      rw [handled, Outcome.map_done] at answer
      exact clearReply_ordinary answer.symm
  | debug =>
      rw [route] at done
      obtain ⟨⟨r', reset, s₁⟩, handled, eq⟩ := Outcome.map_done_iff.mp done
      cases eq
      exact handleDebug_ordinary sized counted handled

section
variable {s : Http} {o : Option Record} (serves : Serves s.keystore o)
include serves

theorem signReply_whole {body : Bytes} (ok : (signReply o body).status = 200) :
    ∃ stored c x t sig, SignedWhole s body (signReply o body) stored c x t sig := by
  obtain ⟨r, c, x, t, rfl, challenge, context, timestamp, short, call⟩ := signReply_signed ok
  have fits := signMessage_fits challenge context timestamp r
  obtain ⟨tSize, tFree, -⟩ := jsonField_text (by decide) timestamp
  have size := signature_length (signMessage c x t r.deviceId) r.sk.bytes
  have sigB64 : (base64Encode (signature (signMessage c x t r.deviceId) r.sk.bytes)).length = 88 := by
    rw [Base64.base64Encode_length, size]
  have idSize := (idRule_iff.mp r.valid).2.1
  rw [RECORD_MAX_DEVICE_ID] at idSize
  have front : (ascii "\x7b\"signature\":\"").length = 14 := ascii_ofList_length _
  have middle : (ascii "\",\"timestamp\":\"").length = 15 := ascii_ofList_length _
  have back : (ascii "\",\"device_id\":\"").length = 15 := ascii_ofList_length _
  have last : (ascii "\"\x7d").length = 2 := ascii_ofList_length _
  have nonempty : body ≠ [] := by
    rintro rfl
    cases ok
  have eq : signReply (some r) body = signedReply (signature (signMessage c x t r.deviceId) r.sk.bytes) t r.deviceId := by
    simp only [signReply, if_neg nonempty, challenge, context, timestamp, if_neg (Nat.not_le.mpr short)]
    rw [signedReply_eq size tFree (by omega)]
    rfl
  refine ⟨r, c, x, t, _, serves, challenge, context, timestamp, rfl, fits, by omega, by omega, eq, ?_⟩
  rw [eq, signedReply]
  simp only [List.length_append, front, middle, back, last, sigB64]
  omega

theorem httpRoute_prints {w : World} (sized : w.platform.Sized) {st st' : HttpState} {s' : Http} {r : Response}
    (done : httpRoute w st s = .done (r, st', s')) : PrintsWhole s w st r := by
  have counted : Serves s.counted.keystore o := serves
  rw [httpRoute_eq] at done
  constructor
  · intro route ok
    rw [route] at done
    cases done
    rw [(handleSignPost_result counted st.body).1] at ok ⊢
    exact signReply_whole serves ok
  · intro route
    rw [route] at done
    cases done
    refine ⟨o, serves, ?_, ?_, ?_⟩
    · exact Nat.lt_of_le_of_lt (shownId_cut o).2 (by decide)
    · rw [handleInfo_serves counted]
      exact servedInfo_whole o s.flash
    · rw [handleInfo_serves counted, servedInfo_whole]
      exact infoText_fits o s.counted.flash
  · intro route ok
    rw [route] at done
    obtain ⟨⟨r', s₁⟩, handled, eq⟩ := Outcome.map_done_iff.mp done
    cases eq
    have answer := handleWritePost_spec s.counted st.contentLength w.flash st.body
    rw [handled, Outcome.map_done] at answer
    rcases writeReply_cases answer.symm with ⟨f, rfl⟩ | ⟨p, member, rfl⟩
    · cases available : storageAvailable f with
      | false => exact .inl (if_pos available)
      | true =>
          have size := read_length f 0x24 STORAGE_KEY_LEN
          have key := key_length size
          refine .inr ⟨_, size, by omega, acceptedReply_whole available, ?_⟩
          rw [acceptedReply_whole available]
          exact acceptedText_fits size
    · have refused : ∀ p ∈ writeReplies, p.1 ≠ 200 := by decide
      exact absurd ok (refused p member)
  · intro route small action
    rw [route] at done
    obtain ⟨⟨r', reset, s₁⟩, handled, eq⟩ := Outcome.map_done_iff.mp done
    cases eq
    obtain ⟨shown, shows, reply, -⟩ := debugSnapshot_shows counted w.platform
    unfold handleDebug at handled
    dsimp only at handled
    rw [if_neg small, if_pos action] at handled
    cases handled
    rw [reply, snapshotReply_whole sized shows]
    refine ⟨o, shown, serves, shows, ?_, ?_, ?_, rfl, snapshotText_fits sized shows⟩
    · exact Nat.lt_of_le_of_lt (shownId_cut o).2 (by decide)
    · exact Nat.lt_of_le_of_lt (shownKey_length o) (by decide)
    · exact Nat.lt_of_le_of_lt (shownX_length s.flash) (by decide)

end

/-- The SDK answers with texts of the lengths it has them in. -/
def BoardEvent.Sized : BoardEvent → Prop
  | .recv w _ _ _ => w.platform.Sized
  | .reboot _ => True

/-- On every reachable board a reply is sent as a whole. -/
theorem replies_whole {s : Http} (reachable : Reachable s) {a : BoardEvent} (sized : a.Sized) {r : Response}
    (sends : a.sends s = some r) : WholeReply s a r := by
  obtain ⟨o, serves, -⟩ := reachable.backed.serves
  have whole : r.Small → Ordinary r → (∀ w st, a.dispatched = some (w, st) → PrintsWhole s w st r) →
      WholeReply s a r := by
    intro small ordinary printed
    have header := header_length small.status small.body
    have total := small.fits
    refine ⟨?_, Nat.not_lt.mp total, httpSendResponse_whole small, ordinary.message, ordinary.overflow, printed⟩
    rw [HTTP_BUF_SIZE]
    omega
  cases a with
  | reboot e => cases sends
  | recv w st data next =>
      cases received : httpReceive st data with
      | ignored => simp [BoardEvent.sends, received] at sends
      | waiting st₁ => simp [BoardEvent.sends, received] at sends
      | tooLarge st₁ =>
          simp only [BoardEvent.sends, received, Option.some.injEq] at sends
          subst sends
          apply whole (reply_small (by decide) (text_short _ (by decide))) (reply_ordinary _ (by decide))
          intro w' st' dispatched
          simp [BoardEvent.dispatched, received] at dispatched
      | complete st₁ =>
          simp only [BoardEvent.sends, received] at sends
          cases route : httpRoute w st₁ s with
          | cut f => simp [route] at sends
          | done answer =>
              obtain ⟨r', st₂, s'⟩ := answer
              simp only [route, Option.some.injEq] at sends
              subst sends
              apply whole (httpRoute_small route) (httpRoute_ordinary sized serves route)
              intro w' st' dispatched
              simp only [BoardEvent.dispatched, received, Option.some.injEq, Prod.mk.injEq] at dispatched
              obtain ⟨rfl, rfl⟩ := dispatched
              exact httpRoute_prints serves sized route

theorem quietWorld_sized : quietWorld.platform.Sized :=
  ⟨⟨nofun, by decide⟩, ⟨nofun, by decide⟩, nofun, nofun, by decide, .idle, rfl⟩

theorem replies_whole_sample :
    WholeReply provisionedBoard (signEvent plainSign) (signReply (some sampleRecord) plainBody) :=
  replies_whole provisionedBoard_reachable (a := signEvent plainSign) quietWorld_sized
    (signEvent_sends plainSign_text provisionedBoard_serves)

end Roman
