import Roman.HttpServer.Simulation

/-! # What the snapshot of /debug shows

The snapshot reads the whole record into an array and formats keys through shared
arrays. What it shows in the end is the counters, the platform, whether the record
opens and how long it is, and three public values: the device id and the two
public keys.
-/

namespace Roman

open CMem CStr NorFlash

/-- Length, availability and the name of the result of the self-test. -/
def selftestOf (f : Flash) : Nat × Bool × Bytes :=
  if storageAvailable f = false then (0, false, ascii "empty")
  else match sectionPayload f with
  | none => (0, true, ascii "corrupt")
  | some p => (p.length, true, ascii "ok")

theorem debugSelftest_eq (s : Http) : ∃ debugReadBuf boxRead, debugSelftest s =
    ((selftestOf s.flash).1, (selftestOf s.flash).2.1, (selftestOf s.flash).2.2,
      { s with debugReadBuf, keystore.store.boxRead := boxRead }) := by
  cases available : storageAvailable s.flash with
  | false =>
      refine ⟨s.debugReadBuf, s.keystore.store.boxRead, ?_⟩
      simp only [debugSelftest, selftestOf, available, if_true]
  | true =>
      obtain ⟨boxRead, eq⟩ := storageRead_eq s.keystore.store s.debugReadBuf
        (Nat.le_refl STORAGE_MAX_PAYLOAD)
      cases payload : sectionPayload s.flash with
      | none =>
          rw [show sectionPayload s.keystore.store.flash = none from payload] at eq
          refine ⟨s.debugReadBuf, boxRead, ?_⟩
          simp only [debugSelftest, selftestOf, available, Bool.true_eq_false, if_false, eq, payload, if_true]
      | some p =>
          have pos := (sectionPayload_length payload).1
          rw [show sectionPayload s.keystore.store.flash = some p from payload] at eq
          refine ⟨s.debugReadBuf.store 0 p, boxRead, ?_⟩
          simp only [debugSelftest, selftestOf, available, Bool.true_eq_false, if_false, eq, payload,
            if_neg (by omega : ¬ p.length = 0)]

/-- The text of the device id. -/
def shownId : Option Record → Bytes
  | none => ascii "null"
  | some r => ascii "\"" ++ r.deviceId ++ ascii "\""

/-- The text of the Ed25519 key. -/
def shownKey : Option Record → Bytes
  | none => []
  | some r => base64Encode r.pk.bytes

/-- The text of the X25519 key. -/
def shownX (f : Flash) : Bytes :=
  if storageAvailable f = false then [] else base64Encode (NorFlash.read f 0x24 STORAGE_KEY_LEN)

/-- What the arrays hold when the snapshot is put together. -/
structure Shows (shown s : Http) (o : Option Record) : Prop where
  stats : shown.httpStats = s.httpStats
  flash : shown.flash = s.flash
  edB64 : shown.edB64.cstr = content (shownKey o)
  xB64 : shown.xB64.cstr = content (shownX s.flash)
  id : shown.debugIdJson.cstr = content ((shownId o).take (RECORD_MAX_DEVICE_ID + 7))

/-- The text depends on what is shown. -/
theorem snapshotText_congr {s s' : Http} (p : Platform) (stats : s.httpStats = s'.httpStats)
    (writen : storageWriten s.flash = storageWriten s'.flash) (edB64 : s.edB64.cstr = s'.edB64.cstr)
    (xB64 : s.xB64.cstr = s'.xB64.cstr) (id : s.debugIdJson.cstr = s'.debugIdJson.cstr)
    (available : Bool) (selftest : Bytes) (len : Nat) :
    snapshotText p s available selftest len = snapshotText p s' available selftest len := by
  unfold snapshotText
  rw [stats, writen, edB64, xB64, id]

theorem cstr_terminated {n : Nat} (r : Region n) (room : 0 < n) : (r.store 0 [0]).cstr = [] :=
  Region.cstr_store r (s := []) nofun room

section
variable {s : Http} {o : Option Record}

theorem debugEdKey_serves : Serves s.keystore o →
    (debugEdKey s).edB64.cstr = (match o with
      | none => s.edB64.cstr
      | some r => content (base64Encode r.pk.bytes)) ∧
    Serves (debugEdKey s).keystore o ∧ (debugEdKey s).httpStats = s.httpStats ∧
    (debugEdKey s).flash = s.flash ∧ (debugEdKey s).xB64 = s.xB64 := by
  intro serves
  have key := keystorePublicKey_serves s.debugPk serves
  have flash : (keystoreLoad s.keystore).2.store.flash = s.flash := (keystoreLoad_quiet s.keystore).flash
  have after := (keystoreLoad_serves serves).2.2.1
  cases o with
  | none =>
      simp only [debugEdKey, key, Bool.false_eq_true, if_false]
      exact ⟨trivial, after, trivial, flash, trivial⟩
  | some r =>
      have text := cstr_base64 s.edB64 r.pk.bytes (by rw [r.pk.size]; decide)
      simp only [debugEdKey, key, if_true]
      exact ⟨text, after, trivial, flash, trivial⟩

theorem debugXKey_eq : ∃ debugPk xB64, debugXKey s = { s with debugPk, xB64 } ∧
    xB64.cstr = if storageAvailable s.flash = false then s.xB64.cstr
      else content (base64Encode (NorFlash.read s.flash 0x24 STORAGE_KEY_LEN)) := by
  cases available : storageAvailable s.flash with
  | false =>
      refine ⟨s.debugPk, s.xB64, ?_, rfl⟩
      simp only [debugXKey, storageX25519Pk, available, if_true, Bool.false_eq_true, if_false]
  | true =>
      have whole := Region.store_whole s.debugPk (NorFlash.read s.flash 0x24 STORAGE_KEY_LEN)
        (read_length _ _ _)
      have text := cstr_base64 s.xB64 (NorFlash.read s.flash 0x24 STORAGE_KEY_LEN)
        (by rw [read_length]; decide)
      refine ⟨s.debugPk.store 0 (NorFlash.read s.flash 0x24 STORAGE_KEY_LEN),
        base64EncodeInto s.xB64 (NorFlash.read s.flash 0x24 STORAGE_KEY_LEN), ?_, ?_⟩
      · simp only [debugXKey, storageX25519Pk, available, Bool.true_eq_false, if_false, if_true, whole]
      · simp only [text, Bool.true_eq_false, if_false]

theorem debugId_serves (serves : Serves s.keystore o) :
    (debugId s).debugIdJson.cstr = content ((shownId o).take (RECORD_MAX_DEVICE_ID + 7)) ∧
    (debugId s).httpStats = s.httpStats ∧ (debugId s).flash = s.flash ∧
    (debugId s).edB64 = s.edB64 ∧ (debugId s).xB64 = s.xB64 := by
  obtain ⟨id, eq, idText⟩ := keystoreDeviceId_serves serves s.debugDeviceId
  have flash : (keystoreLoad s.keystore).2.store.flash = s.flash := (keystoreLoad_quiet s.keystore).flash
  cases served : o with
  | none =>
      rw [served] at eq
      simp only [debugId, eq, Option.isSome_none, Bool.false_eq_true, if_false, shownId,
        Region.cstr_snprintf _ _ (by decide : 0 < RECORD_MAX_DEVICE_ID + 8)]
      exact ⟨rfl, trivial, flash, trivial, trivial⟩
  | some r =>
      rw [served] at eq
      simp only [debugId, eq, Option.isSome_some, if_true, shownId, idText r served,
        Region.cstr_snprintf _ _ (by decide : 0 < RECORD_MAX_DEVICE_ID + 8)]
      exact ⟨rfl, trivial, flash, trivial, trivial⟩

/-- The reply for a snapshot of this text. -/
def snapshotReply (text : Bytes) : Response :=
  if text.length ≥ 1280 then reply 500 "\x7b\"status\":\"error\",\"error\":\"debug overflow\"\x7d"
  else ⟨200, content text⟩

def snapshotStats (text : Bytes) (stats : HttpStats) : HttpStats :=
  if text.length ≥ 1280 then { stats with errors := stats.errors + 1 } else stats

/-- The text of a snapshot of this board, from what its arrays hold in the end. -/
def textShown (p : Platform) (shown : Http) (f : Flash) : Bytes :=
  snapshotText p shown (selftestOf f).2.1 (selftestOf f).2.2 (selftestOf f).1

/-- The end of the handler. -/
theorem snapshot_finish (shown : Http) (text : Bytes) :
    let s := { shown with debugJson := shown.debugJson.snprintf text }
    let r := if text.length ≥ 1280 then
        (reply 500 "\x7b\"status\":\"error\",\"error\":\"debug overflow\"\x7d",
          { s with httpStats.errors := s.httpStats.errors + 1 })
      else (⟨200, s.debugJson.cstr⟩, s)
    r.1 = snapshotReply text ∧ r.2.httpStats = snapshotStats text shown.httpStats := by
  by_cases long : text.length ≥ 1280
  · simp only [if_pos long, snapshotReply, snapshotStats]
    exact ⟨trivial, trivial⟩
  · have cut : text.take 1279 = text := List.take_of_length_le (by omega)
    simp only [if_neg long, snapshotReply, snapshotStats, Region.cstr_snprintf _ _ (by decide : 0 < 1280), cut]
    exact ⟨trivial, trivial⟩

/-- The board once the self-test has run and the two key arrays are empty. -/
def snapshotStart (s : Http) : Http :=
  let tested := (debugSelftest s).2.2.2
  { tested with edB64 := tested.edB64.store 0 [0], xB64 := tested.xB64.store 0 [0] }

/-- The board when the text is put together. -/
def snapshotShown (s : Http) : Http := debugId (debugXKey (debugEdKey (snapshotStart s)))

theorem debugSnapshot_eq (p : Platform) (s : Http) : debugSnapshot p s =
    let text := snapshotText p (snapshotShown s) (debugSelftest s).2.1 (debugSelftest s).2.2.1
      (debugSelftest s).1
    let shown := { snapshotShown s with debugJson := (snapshotShown s).debugJson.snprintf text }
    if text.length ≥ 1280 then
      (reply 500 "\x7b\"status\":\"error\",\"error\":\"debug overflow\"\x7d",
        { shown with httpStats.errors := shown.httpStats.errors + 1 })
    else (⟨200, shown.debugJson.cstr⟩, shown) := by
  unfold debugSnapshot snapshotShown snapshotStart
  generalize debugSelftest s = tested
  obtain ⟨len, available, selftest, s'⟩ := tested
  rfl

theorem snapshotStart_serves (serves : Serves s.keystore o) :
    Serves (snapshotStart s).keystore o ∧ (snapshotStart s).flash = s.flash ∧
      (snapshotStart s).httpStats = s.httpStats ∧ (snapshotStart s).edB64.cstr = [] ∧
      (snapshotStart s).xB64.cstr = [] := by
  obtain ⟨debugReadBuf, boxRead, selftest⟩ := debugSelftest_eq s
  have ed := cstr_terminated s.edB64 (by decide)
  have x := cstr_terminated s.xB64 (by decide)
  unfold snapshotStart
  rw [selftest]
  refine ⟨?_, rfl, rfl, ed, x⟩
  cases serves with
  | cached valid holds => exact .cached valid ⟨holds.pk, holds.sk, holds.id⟩
  | stored invalid =>
      exact Serves.stored (k := { s.keystore with store.boxRead := boxRead }) invalid

theorem snapshotShown_shows (serves : Serves s.keystore o) : Shows (snapshotShown s) s o := by
  obtain ⟨startServes, startFlash, startStats, startEd, startX⟩ := snapshotStart_serves serves
  obtain ⟨edText, edServes, edStats, edFlash, edX⟩ := debugEdKey_serves startServes
  obtain ⟨debugPk, xB64, xEq, xText⟩ := debugXKey_eq (s := debugEdKey (snapshotStart s))
  have xServes : Serves (debugXKey (debugEdKey (snapshotStart s))).keystore o := by
    rw [debugXKey_keystore]
    exact edServes
  obtain ⟨idText, idStats, idFlash, idEd, idX⟩ := debugId_serves xServes
  constructor
  · rw [snapshotShown, idStats, xEq]
    exact edStats.trans startStats
  · rw [snapshotShown, idFlash, xEq]
    exact edFlash.trans startFlash
  · rw [snapshotShown, idEd, xEq]
    refine edText.trans ?_
    cases o with
    | none => exact startEd
    | some r => rfl
  · rw [snapshotShown, idX, xEq]
    rw [edFlash, startFlash, edX, startX] at xText
    refine xText.trans ?_
    unfold shownX
    split <;> rfl
  · exact idText

theorem debugSnapshot_shows (serves : Serves s.keystore o) (p : Platform) :
    ∃ shown, Shows shown s o ∧ (debugSnapshot p s).1 = snapshotReply (textShown p shown s.flash) ∧
      (debugSnapshot p s).2.httpStats = snapshotStats (textShown p shown s.flash) s.httpStats := by
  have shows := snapshotShown_shows serves
  obtain ⟨debugReadBuf, boxRead, selftest⟩ := debugSelftest_eq s
  refine ⟨snapshotShown s, shows, ?_⟩
  have text : snapshotText p (snapshotShown s) (debugSelftest s).2.1 (debugSelftest s).2.2.1
      (debugSelftest s).1 = textShown p (snapshotShown s) s.flash := by
    rw [textShown, selftest]
  rw [debugSnapshot_eq, text, ← shows.stats]
  exact snapshot_finish _ _

end

end Roman
