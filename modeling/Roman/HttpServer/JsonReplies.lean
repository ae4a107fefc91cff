import Roman.Lib.JsonTemplate
import Roman.HttpServer.Snapshot
import Roman.HttpServer.Signing

/-! # The replies as JSON texts

Every reply is printed by hand. Those without holes are checked as they stand, those
with holes are templates. The device id and the keys need no escapes; the timestamp of
a signed reply is whatever the client has sent up to the first quote, so that reply is
well-formed exactly if this is what may stand between two quotes.
-/

namespace Roman

open CMem CStr NorFlash TweetNacl Json

/-- A well-formed text has no NUL in it, so an array holds all of it. -/
theorem content_of_wellFormed {s : Bytes} (formed : Json.WellFormed s) : content s = s := by
  obtain ⟨v, element⟩ := formed
  exact content_of_nulFree (nulFree_of_scanAll element.scans)

/-- A text is checked character by character. -/
theorem checked_text (l : List Char) (checked : checks [.text (l.map fun c => UInt8.ofNat c.toNat)] = true) :
    checks [.text (ascii (String.ofList l))] = true := by
  rwa [ascii_ofList]

theorem printed_text (l : List Char) (printed : Printed (l.map fun c => UInt8.ofNat c.toNat)) :
    Printed (ascii (String.ofList l)) := by
  rwa [ascii_ofList]

/-- A reply without holes. -/
theorem reply_formed {status : Nat} {text : String} (checked : checks [.text (ascii text)] = true) :
    Json.WellFormed (reply status text).body :=
  wellFormed_text checked

inductive SignedOrRefused (o : Option Record) (body : Bytes) : Prop where
  | refused (call : signCall o body = none) (status : (signReply o body).status ≠ 200)
      (formed : Json.WellFormed (signReply o body).body)
  | signed {r : Record} {m t : Bytes} (record : o = some r)
      (timestamp : jsonField body (ascii "timestamp") 128 = some t)
      (call : signCall o body = some (m, r.sk.bytes))
      (answer : signReply o body = signedReply (signature m r.sk.bytes) t r.deviceId)

theorem signedOrRefused (o : Option Record) (body : Bytes) : SignedOrRefused o body := by
  have refused : ∀ (status : Nat) (text : String), signReply o body = reply status text →
      signCall o body = none → status ≠ 200 → checks [.text (ascii text)] = true → SignedOrRefused o body := by
    intro status text answer call other checked
    apply SignedOrRefused.refused call
    · rw [answer]
      exact other
    · rw [answer]
      exact reply_formed checked
  by_cases empty : body = []
  · apply refused 400 "\x7b\"error\":\"Empty request body\"\x7d"
    · simp only [signReply, empty, if_true]
    · simp only [signCall, empty, if_true]
    · decide
    · exact checked_text _ (by decide +kernel)
  cases o with
  | none =>
      apply refused 503 "\x7b\"error\":\"not provisioned\",\"hint\":\"POST /write first\"\x7d"
      · simp only [signReply, empty, if_false]
      · simp only [signCall, empty, if_false]
      · decide
      · exact checked_text _ (by decide +kernel)
  | some r =>
      cases challenge : jsonField body (ascii "challenge") 256 with
      | none =>
          apply refused 400 "\x7b\"error\":\"Missing field: challenge\"\x7d"
          · simp only [signReply, empty, if_false, challenge]
          · simp only [signCall, empty, if_false, challenge]
          · decide
          · exact checked_text _ (by decide +kernel)
      | some c =>
      cases context : jsonField body (ascii "context") 128 with
      | none =>
          apply refused 400 "\x7b\"error\":\"Missing field: context\"\x7d"
          · simp only [signReply, empty, if_false, challenge, context]
          · simp only [signCall, empty, if_false, challenge, context]
          · decide
          · exact checked_text _ (by decide +kernel)
      | some x =>
      cases timestamp : jsonField body (ascii "timestamp") 128 with
      | none =>
          apply refused 400 "\x7b\"error\":\"Missing field: timestamp\"\x7d"
          · simp only [signReply, empty, if_false, challenge, context, timestamp]
          · simp only [signCall, empty, if_false, challenge, context, timestamp]
          · decide
          · exact checked_text _ (by decide +kernel)
      | some t =>
          by_cases long : (signMessage c x t r.deviceId).length ≥ 1024
          · apply refused 400 "\x7b\"error\":\"Message too long\"\x7d"
            · simp only [signReply, empty, if_false, challenge, context, timestamp, if_pos long]
            · simp only [signCall, empty, if_false, challenge, context, timestamp, if_pos long]
            · decide
            · exact checked_text _ (by decide +kernel)
          · obtain ⟨short, free, -⟩ := jsonField_text (by decide) timestamp
            apply SignedOrRefused.signed (m := signMessage c x t r.deviceId) rfl timestamp
            · simp only [signCall, empty, if_false, challenge, context, timestamp, long]
            · simp only [signReply, empty, if_false, challenge, context, timestamp, long]
              rw [signedReply_eq (signature_length _ _) free (by omega)]
              rfl

/-- The members of a signed reply. -/
def signedMembers (sig t id : Bytes) : List (Bytes × Value) :=
  [(ascii "signature", .str (base64Encode sig)), (ascii "timestamp", .str t), (ascii "device_id", .str id)]

/-- A member with a string for its value. -/
theorem pair_str {k s : Bytes} (name : Chars k) (chars : Chars s) :
    Pair (k, .str s) (0x22 :: (k ++ 0x22 :: 0x3A :: 0x22 :: (s ++ [0x22]))) := by
  have pair := Pair.mk (a := []) (b := []) nofun name nofun (Text.str chars).element
  rwa [List.nil_append, List.nil_append] at pair

theorem signedReply_text (sig t id : Bytes) : (signedReply sig t id).body =
    0x7B :: ((0x22 :: (ascii "signature" ++ 0x22 :: 0x3A :: 0x22 :: (base64Encode sig ++ [0x22]))) ++
      0x2C :: ((0x22 :: (ascii "timestamp" ++ 0x22 :: 0x3A :: 0x22 :: (t ++ [0x22]))) ++
        0x2C :: (0x22 :: (ascii "device_id" ++ 0x22 :: 0x3A :: 0x22 :: (id ++ [0x22]))))) ++ [0x7D] := by
  have first : ascii "\x7b\"signature\":\"" = [0x7B, 0x22] ++ ascii "signature" ++ [0x22, 0x3A, 0x22] := by
    rw [(ascii_ofList _ : ascii "signature" = _)]
    exact ascii_ofList _
  have second : ascii "\",\"timestamp\":\"" = [0x22, 0x2C, 0x22] ++ ascii "timestamp" ++ [0x22, 0x3A, 0x22] := by
    rw [(ascii_ofList _ : ascii "timestamp" = _)]
    exact ascii_ofList _
  have third : ascii "\",\"device_id\":\"" = [0x22, 0x2C, 0x22] ++ ascii "device_id" ++ [0x22, 0x3A, 0x22] := by
    rw [(ascii_ofList _ : ascii "device_id" = _)]
    exact ascii_ofList _
  have last : ascii "\"\x7d" = [0x22, 0x7D] := ascii_ofList _
  rw [signedReply, first, second, third, last]
  simp

theorem signedReply_element {sig t : Bytes} (chars : Chars t) (r : Record) :
    Element (.obj (signedMembers sig t r.deviceId)) (signedReply sig t r.deviceId).body := by
  have names : Printed (ascii "signature") ∧ Printed (ascii "timestamp") ∧ Printed (ascii "device_id") :=
    ⟨printed_text _ (by decide), printed_text _ (by decide), printed_text _ (by decide)⟩
  have inside : Members (signedMembers sig t r.deviceId) _ :=
    .more (pair_str names.1.chars (base64Encode_printed sig).chars)
      (.more (pair_str names.2.1.chars chars) (.last (pair_str names.2.2.chars (deviceId_printed r).chars)))
  rw [signedReply_text]
  exact (Text.obj inside).element

/-- What follows the timestamp in the reply, scanned in the middle of a character. -/
theorem signedTail_scan {q : Mode} (inString : q ≠ .outside) (notInside : q ≠ .inside) (rest : Bytes) :
    scanAll q (ascii "\",\"device_id\":\"" ++ rest) = none := by
  by_cases escape : q = .escape
  · have scanned : scanAll .escape (ascii "\",\"device_id\":\"") = none := by
      rw [(ascii_ofList _ : ascii "\",\"device_id\":\"" = _)]
      decide
    rw [escape, scanAll_append, scanned]
    rfl
  · have quote := scan_quote inString notInside escape
    have first : ascii "\",\"device_id\":\"" = 0x22 :: ascii ",\"device_id\":\"" := by
      rw [(ascii_ofList _ : ascii ",\"device_id\":\"" = _)]
      exact ascii_ofList _
    rw [first, List.cons_append, scanAll_cons, quote]
    rfl

theorem signedReply_formed_iff {sig t : Bytes} (absent : (0x22 : UInt8) ∉ t) (r : Record) :
    Json.WellFormed (signedReply sig t r.deviceId).body ↔ Chars t := by
  constructor
  · rintro ⟨v, element⟩
    have scanned : scanAll .outside (signedReply sig t r.deviceId).body = some .outside := element.scans
    have front : scanAll .outside (ascii "\x7b\"signature\":\"") = some .inside := by
      rw [(ascii_ofList _ : ascii "\x7b\"signature\":\"" = _)]
      decide
    have middle : scanAll .inside (ascii "\",\"timestamp\":\"") = some .inside := by
      rw [(ascii_ofList _ : ascii "\",\"timestamp\":\"" = _)]
      decide
    have body : (signedReply sig t r.deviceId).body = ascii "\x7b\"signature\":\"" ++ (base64Encode sig ++
        (ascii "\",\"timestamp\":\"" ++ (t ++ (ascii "\",\"device_id\":\"" ++
          (r.deviceId ++ ascii "\"\x7d"))))) := by
      rw [signedReply]
      simp only [List.append_assoc]
    rw [body, scanAll_append, front, Option.bind_some, scanAll_append, (base64Encode_printed sig).chars.scan,
      Option.bind_some, scanAll_append, middle, Option.bind_some, scanAll_append] at scanned
    obtain ⟨q, before, after⟩ := Option.bind_eq_some_iff.mp scanned
    apply chars_of_scan absent
    rw [before, Option.some.injEq]
    by_contra still
    have inString : q ≠ .outside := by
      rintro rfl
      exact scanAll_outside_iff (by decide) absent before
    rw [signedTail_scan inString still] at after
    cases after
  · intro chars
    exact ⟨_, signedReply_element chars r⟩

theorem shownId_text (o : Option Record) : ∃ v, Text v (shownId o) := by
  cases o with
  | none => exact ⟨.null, .null⟩
  | some r =>
      have quoted : shownId (some r) = 0x22 :: (r.deviceId ++ [0x22]) := by
        have quote : ascii "\"" = [0x22] := ascii_ofList _
        rw [shownId, quote]
        rfl
      rw [quoted]
      exact ⟨_, .str (deviceId_printed r).chars⟩

/-- The array for the id holds it with its quotes. -/
theorem shownId_cut (o : Option Record) :
    content ((shownId o).take (RECORD_MAX_DEVICE_ID + 7)) = shownId o ∧ (shownId o).length ≤ 34 := by
  obtain ⟨v, text⟩ := shownId_text o
  have size : (shownId o).length ≤ 34 := by
    cases o with
    | none =>
        rw [shownId]
        decide +kernel
    | some r =>
        have quote : (ascii "\"").length = 1 := ascii_ofList_length _
        have idSize := (idRule_iff.mp r.valid).2.1
        rw [RECORD_MAX_DEVICE_ID] at idSize
        simp only [shownId, List.length_append, quote]
        omega
  rw [List.take_of_length_le (by rw [RECORD_MAX_DEVICE_ID]; omega)]
  exact ⟨content_of_wellFormed ⟨v, text.element⟩, size⟩

theorem servedState_printed (o : Option Record) (f : Flash) :
    Printed (servedState o f) ∧ (servedState o f).length ≤ 11 := by
  unfold servedState
  repeat' split
  all_goals decide +kernel

def infoTemplate : List Part :=
  [.text (ascii "\x7b\"device\":\"pico2\",\"firmware\":\"roman\",\"version\":\""), .text ROMAN_VERSION,
    .text (ascii "\",\"engine\":\"C/tweetnacl\",\"id\":"), .value, .text (ascii ",\"storage\":\""), .chars,
    .text (ascii "\"\x7d")]

theorem servedInfo_eq (o : Option Record) (state : Bytes) : servedInfo o state =
    ⟨200, content ((fill infoTemplate
      [content ((shownId o).take (RECORD_MAX_DEVICE_ID + 7)), state]).take 319)⟩ := by
  cases o <;> simp only [servedInfo, shownId, infoTemplate, fill, List.append_assoc, List.append_nil]

theorem servedInfo_formed (o : Option Record) (f : Flash) :
    Json.WellFormed (servedInfo o (servedState o f)).body := by
  obtain ⟨v, id⟩ := shownId_text o
  obtain ⟨state, stateSize⟩ := servedState_printed o f
  obtain ⟨idWhole, idSize⟩ := shownId_cut o
  have formed : Json.WellFormed (fill infoTemplate [shownId o, servedState o f]) :=
    wellFormed_fill (by decide +kernel) (.text (.text (.text (.value id (.text (.chars state.chars (.text .nil)))))))
  have sizes : (fill infoTemplate [[], []]).length = 95 := by decide +kernel
  rw [servedInfo_eq, idWhole]
  dsimp only
  rw [List.take_of_length_le, content_of_wellFormed formed]
  · exact formed
  · simp only [infoTemplate, fill, List.length_append, List.length_nil] at sizes ⊢
    omega

def acceptedTemplate : List Part :=
  [.text (ascii "\x7b\"status\":\"ok\",\"writen\":true,\"x25519_pk\":\""), .chars, .text (ascii "\"\x7d")]

theorem acceptedReply_formed (f : Flash) : Json.WellFormed (acceptedReply f).body := by
  unfold acceptedReply
  split
  · exact reply_formed (checked_text _ (by decide +kernel))
  · have key := base64Encode_printed (NorFlash.read f 0x24 STORAGE_KEY_LEN)
    have size : (base64Encode (NorFlash.read f 0x24 STORAGE_KEY_LEN)).length = 44 := by
      rw [Base64.base64Encode_length, read_length]
      rfl
    have formed : Json.WellFormed
        (fill acceptedTemplate [base64Encode (NorFlash.read f 0x24 STORAGE_KEY_LEN)]) :=
      wellFormed_fill (by decide +kernel) (.text (.chars key.chars (.text .nil)))
    have front : (ascii "\x7b\"status\":\"ok\",\"writen\":true,\"x25519_pk\":\"").length = 42 :=
      ascii_ofList_length _
    have last : (ascii "\"\x7d").length = 2 := ascii_ofList_length _
    have whole := content_of_wellFormed formed
    simp only [acceptedTemplate, fill, List.append_nil, ← List.append_assoc] at formed whole
    dsimp only
    rw [content_of_nulFree key.plain.nulFree, List.take_of_length_le, whole]
    · exact formed
    · simp only [List.length_append, front, last, size]
      omega

theorem writeReply_formed {k k' : Keystore} {contentLength : Int} {env : FlashEnv} {body : Bytes}
    {r : Response} (done : writeReply k contentLength env body = .done (r, k')) : Json.WellFormed r.body := by
  have checked : ∀ p ∈ writeReplies, checks [.text (ascii p.2)] = true := by
    simp only [writeReplies, List.forall_mem_cons]
    repeat' apply And.intro
    any_goals exact checked_text _ (by decide +kernel)
    exact List.forall_mem_nil _
  rcases writeReply_cases done with ⟨f, rfl⟩ | ⟨p, member, rfl⟩
  · exact acceptedReply_formed f
  · exact reply_formed (checked p member)

theorem clearReply_formed {k k' : Keystore} {contentLength : Int} {env : FlashEnv} {body : Bytes}
    {r : Response} (done : clearReply k contentLength env body = .done (r, k')) : Json.WellFormed r.body := by
  have checked : ∀ p ∈ clearReplies, checks [.text (ascii p.2)] = true := by
    simp only [clearReplies, List.forall_mem_cons]
    repeat' apply And.intro
    any_goals exact checked_text _ (by decide +kernel)
    exact List.forall_mem_nil _
  obtain ⟨p, member, rfl⟩ := clearReply_cases done
  exact reply_formed (checked p member)

/-- The texts of the SDK, of lwIP and of diag.c need no escapes. -/
structure Platform.Texts (p : Platform) : Prop where
  sdkVersion : Printed p.sdkVersion
  uniqueId : Printed p.uniqueId
  ip : ∀ n, p.netif = some n → Printed n.ip
  bootStage : ∃ stage, p.bootStage = diagStageName stage

theorem macText_printed (hwaddr : Bytes) : Printed (macText hwaddr) := by
  have digit : ∀ i < 16, Printed [hexDigit i] := by decide
  have high : ∀ b : UInt8, Printed [hexDigit (b.toNat / 16)] := fun b =>
    digit _ (Nat.div_lt_of_lt_mul b.toNat_lt)
  have low : ∀ b : UInt8, Printed [hexDigit (b.toNat % 16)] := fun b =>
    digit _ (Nat.mod_lt _ (by decide))
  have colon : Printed [0x3A] := by decide
  fun_induction macText hwaddr with
  | case1 => exact nofun
  | case2 b => exact (high b).append (low b)
  | case3 b rest last ih => exact (high b).append ((low b).append (colon.append ih))

theorem decimal_text (n : Nat) : Text (.num (decimal n)) (decimal n) := .num (decimal_number n)

theorem boolText_text (b : Bool) : Text (.bool b) (boolText b) := by
  cases b with
  | true => exact .yes
  | false => exact .no

def statsTemplate : List Part :=
  [.text (ascii "\"requests\":"), .value, .text (ascii ",\"sign_ok\":"), .value,
    .text (ascii ",\"sign_bad\":"), .value, .text (ascii ",\"write_ok\":"), .value,
    .text (ascii ",\"write_bad\":"), .value, .text (ascii ",\"clear_ok\":"), .value,
    .text (ascii ",\"clear_bad\":"), .value, .text (ascii ",\"not_found\":"), .value,
    .text (ascii ",\"too_large\":"), .value, .text (ascii ",\"errors\":"), .value]

def snapshotTemplate : List Part :=
  [.text (ascii "\x7b\"status\":\"ok\",\"debug\":\x7b"),
    .text (ascii "\"uptime_ms\":"), .value, .text (ascii ",\"firmware\":\""), .text ROMAN_VERSION,
    .text (ascii "\",\"sdk\":\""), .chars, .text (ascii "\","),
    .text (ascii "\"cpu_mhz\":"), .value, .text (ascii ",\"unique_id\":\""), .chars, .text (ascii "\","),
    .text (ascii "\"reset_by_watchdog\":"), .value, .text (ascii ","),
    .text (ascii "\"stack\":\x7b\"used_now\":"), .value, .text (ascii ",\"total\":"), .value,
    .text (ascii ",\"used_max\":"), .value, .text (ascii ",\"free_min\":"), .value, .text (ascii "\x7d,"),
    .text (ascii "\"net\":\x7b\"ip\":\""), .chars, .text (ascii "\",\"mac\":\""), .chars,
    .text (ascii "\",\"link_up\":"), .value, .text (ascii "\x7d,"),
    .text (ascii "\"web\":\x7b\"conns\":"), .value, .text (ascii ",\"conns_max\":"), .value, .text (ascii ",")] ++
  statsTemplate ++
  [.text (ascii "\x7d,"),
    .text (ascii "\"storage\":\x7b\"writen\":"), .value, .text (ascii ",\"available\":"), .value,
    .text (ascii ",\"selftest\":\""), .chars, .text (ascii "\","),
    .text (ascii "\"plaintext_len\":"), .value, .text (ascii ",\"max_payload\":"), .value,
    .text (ascii ",\"flash_offset\":"), .value, .text (ascii "\x7d,"),
    .text (ascii "\"roman\":\x7b\"device_id\":"), .value, .text (ascii ",\"ed25519_pk\":\""), .chars,
    .text (ascii "\",\"x25519_pk\":\""), .chars, .text (ascii "\","),
    .text (ascii "\"last_stage\":\""), .chars, .text (ascii "\",\"reset_by_watchdog\":"), .value,
    .text (ascii "\x7d"), .text (ascii "\x7d\x7d")]

theorem snapshotTemplate_checked : checks snapshotTemplate = true := by decide +kernel

/-- The address of the interface, or what is shown without one. -/
def shownIp (p : Platform) : Bytes :=
  match p.netif with
  | some netif => netif.ip
  | none => ascii "0.0.0.0"

def shownMac (p : Platform) : Bytes :=
  match p.netif with
  | some netif => macText netif.hwaddr
  | none => ascii "00:00:00:00:00:00"

def shownLink (p : Platform) : Bool :=
  match p.netif with
  | some netif => netif.linkUp
  | none => false

/-- What goes into the holes, in their order. -/
def snapshotHoles (p : Platform) (s : Http) (available : Bool) (selftest : Bytes) (len : Nat) : List Bytes :=
  let w := s.httpStats
  [uintText p.uptimeMs, p.sdkVersion, uintText p.cpuMhz, p.uniqueId, boolText p.watchdogCausedReboot,
    uintText p.stackUsedNow, uintText p.stackTotal, uintText p.stackUsedMax, uintText p.stackFreeMin,
    shownIp p, shownMac p, boolText (shownLink p), decimal p.conns, decimal HTTP_MAX_CONN,
    uintText w.requests, uintText w.signOk, uintText w.signBad, uintText w.writeOk, uintText w.writeBad,
    uintText w.clearOk, uintText w.clearBad, uintText w.notFound, uintText w.tooLarge, uintText w.errors,
    boolText (storageWriten s.flash), boolText available, selftest, decimal len, decimal STORAGE_MAX_PAYLOAD,
    decimal DEBUG_STORAGE_FLASH_OFFSET, s.debugIdJson.cstr, s.edB64.cstr, s.xB64.cstr, p.bootStage,
    boolText p.watchdogCausedReboot]

theorem snapshotText_eq (p : Platform) (s : Http) (available : Bool) (selftest : Bytes) (len : Nat) :
    snapshotText p s available selftest len =
      fill snapshotTemplate (snapshotHoles p s available selftest len) := by
  unfold snapshotText statsText
  cases netif : p.netif <;>
    simp only [snapshotTemplate, statsTemplate, snapshotHoles, shownIp, shownMac, shownLink, netif, fill,
      List.cons_append, List.nil_append, List.append_assoc, List.append_nil]

theorem diagStageName_printed (stage : DiagStage) : Printed (diagStageName stage) := by
  cases stage <;> exact printed_text _ (by decide)

theorem selftestOf_printed (f : Flash) : Printed (selftestOf f).2.2 := by
  have names : Printed (ascii "empty") ∧ Printed (ascii "corrupt") ∧ Printed (ascii "ok") :=
    ⟨printed_text _ (by decide), printed_text _ (by decide), printed_text _ (by decide)⟩
  unfold selftestOf
  repeat' split
  · exact names.1
  · exact names.2.1
  · exact names.2.2

theorem shownKey_printed (o : Option Record) : Printed (shownKey o) := by
  cases o with
  | none => exact nofun
  | some r => exact base64Encode_printed r.pk.bytes

theorem shownX_printed (f : Flash) : Printed (shownX f) := by
  unfold shownX
  split
  · exact nofun
  · exact base64Encode_printed _

theorem snapshotHoles_fitting {p : Platform} (texts : p.Texts) {shown s : Http} {o : Option Record}
    (shows : Shows shown s o) {selftest : Bytes} (result : Printed selftest) (available : Bool) (len : Nat) :
    Fitting snapshotTemplate (snapshotHoles p shown available selftest len) := by
  obtain ⟨v, id⟩ := shownId_text o
  have idShown : shown.debugIdJson.cstr = shownId o := shows.id.trans (shownId_cut o).1
  have edShown : shown.edB64.cstr = shownKey o :=
    shows.edB64.trans (content_of_nulFree (shownKey_printed o).plain.nulFree)
  have xShown : shown.xB64.cstr = shownX s.flash :=
    shows.xB64.trans (content_of_nulFree (shownX_printed s.flash).plain.nulFree)
  have ip : Chars (shownIp p) := by
    unfold shownIp
    cases netif : p.netif with
    | none => exact Printed.chars (printed_text _ (by decide))
    | some n => exact (texts.ip n netif).chars
  have mac : Chars (shownMac p) := by
    unfold shownMac
    cases p.netif with
    | none => exact Printed.chars (printed_text _ (by decide))
    | some n => exact (macText_printed n.hwaddr).chars
  obtain ⟨stage, stageText⟩ := texts.bootStage
  have last : Chars p.bootStage := stageText ▸ (diagStageName_printed stage).chars
  have uint : ∀ n : UInt32, Text (.num (uintText n)) (uintText n) := fun n => decimal_text n.toNat
  simp only [snapshotTemplate, statsTemplate, snapshotHoles, idShown, edShown, xShown, List.cons_append,
    List.nil_append]
  refine .text (.text (.value (uint _) (.text (.text ?_))))
  refine .text (.chars texts.sdkVersion.chars (.text ?_))
  refine .text (.value (uint _) (.text (.chars texts.uniqueId.chars (.text ?_))))
  refine .text (.value (boolText_text _) (.text ?_))
  refine .text (.value (uint _) (.text (.value (uint _) ?_)))
  refine .text (.value (uint _) (.text (.value (uint _) (.text ?_))))
  refine .text (.chars ip (.text (.chars mac ?_)))
  refine .text (.value (boolText_text _) (.text ?_))
  refine .text (.value (decimal_text _) (.text (.value (decimal_text _) (.text ?_))))
  -- the ten counters
  refine .text (.value (uint _) (.text (.value (uint _) ?_)))
  refine .text (.value (uint _) (.text (.value (uint _) ?_)))
  refine .text (.value (uint _) (.text (.value (uint _) ?_)))
  refine .text (.value (uint _) (.text (.value (uint _) ?_)))
  refine .text (.value (uint _) (.text (.value (uint _) (.text ?_))))
  refine .text (.value (boolText_text _) (.text (.value (boolText_text _) ?_)))
  refine .text (.chars result.chars (.text ?_))
  refine .text (.value (decimal_text _) (.text (.value (decimal_text _) ?_)))
  refine .text (.value (decimal_text _) (.text ?_))
  refine .text (.value id (.text (.chars (shownKey_printed o).chars ?_)))
  refine .text (.chars (shownX_printed s.flash).chars (.text ?_))
  exact .text (.chars last (.text (.value (boolText_text _) (.text (.text .nil)))))

/-- A snapshot is a JSON text, be it the one asked for or the error for one that is too long. -/
theorem snapshotReply_formed {p : Platform} (texts : p.Texts) {shown s : Http} {o : Option Record}
    (shows : Shows shown s o) : Json.WellFormed (snapshotReply (textShown p shown s.flash)).body := by
  have formed : Json.WellFormed (textShown p shown s.flash) := by
    rw [textShown, snapshotText_eq]
    exact wellFormed_fill snapshotTemplate_checked
      (snapshotHoles_fitting texts shows (selftestOf_printed s.flash) _ _)
  unfold snapshotReply
  split
  · exact reply_formed (checked_text _ (by decide +kernel))
  · dsimp only
    rw [content_of_wellFormed formed]
    exact formed

theorem handleDebug_formed {p : Platform} (texts : p.Texts) {s s' : Http} {o : Option Record}
    (serves : Serves s.keystore o) {contentLength : Int} {env : FlashEnv} {body : Option Bytes} {r : Response}
    {reset : Bool} (done : handleDebug p s contentLength env body = .done (r, reset, s')) :
    Json.WellFormed r.body := by
  obtain ⟨shown, shows, answer, -⟩ := debugSnapshot_shows serves p
  unfold handleDebug at done
  dsimp only at done
  split at done
  · cases done
    exact reply_formed (checked_text _ (by decide +kernel))
  split at done
  · cases done
    rw [answer]
    exact snapshotReply_formed texts shows
  split at done
  · cases cleared : storageClear s.keystore.store env.erase with
    | cut f =>
        rw [cleared] at done
        cases done
    | done w =>
        obtain ⟨ok, store⟩ := w
        rw [cleared] at done
        cases ok with
        | true | false =>
            cases done
            exact reply_formed (checked_text _ (by decide +kernel))
  split at done
  · cases done
    exact reply_formed (checked_text _ (by decide +kernel))
  · cases done
    exact reply_formed (checked_text _ (by decide +kernel))

end Roman
