import Roman.Board

/-! # The cache across runs

A valid cache is what flash holds, in every state of a run, as long as no write
erases the sector under it and then fails to program it: on that path
`keystore_provision` returns without `keystore_invalidate`.
-/

namespace Roman

open CMem CStr NorFlash TweetNacl Base64

/-- The event dispatches a valid provisioning request on an unprovisioned board
    with a valid cache, and its erase succeeds and its program fails. -/
def BoardEvent.Strands (s : Http) (a : BoardEvent) : Prop :=
  a.command.Strands a.env s.keystore

theorem boardStep_coherent_iff {s : Http} (coherent : Coherent s.keystore) (a : BoardEvent) :
    Coherent (boardStep s a).keystore ↔ ¬ a.Strands s := by
  cases boardStep_change (fun _ => coherent) a with
  | moved change quiet => exact quiet.coherent_iff.trans (change.coherent_iff coherent)
  | lostPower cut boots =>
      rw [boots]
      exact iff_of_true (boot_quiet _ _).2 cut.not_strands
  | rebooted reads boots =>
      rw [boots]
      refine iff_of_true (boot_quiet _ _).2 ?_
      rintro ⟨-, ⟨r, writes⟩, -⟩
      rw [reads] at writes
      cases writes

/-- From any flash: the cache is what flash decodes to in every state of a run
    exactly if no step strands it, and then every reply of POST /sign is the one
    for the record in flash at that moment. -/
theorem cacheFresh_run_iff (f : Flash) (e : Entropy) (events : List BoardEvent) :
    (Runs.Along boardStep (fun s a => ¬ a.Strands s) (.boot f e) events ↔
      ∀ before, before <+: events → CacheFresh (boardRun (.boot f e) before).keystore) ∧
    (Runs.Along boardStep (fun s a => ¬ a.Strands s) (.boot f e) events →
      ∀ before, before <+: events → ∀ body,
        (handleSignPost (boardRun (.boot f e) before) body).1 =
          signReply (storedRecord (boardRun (.boot f e) before).flash) (bodyText body)) := by
  have runs := Runs.along_iff (fun s : Http => Coherent s.keystore) (boot_quiet f e).2 events
    (fun _ a _ coherent => boardStep_coherent_iff coherent a)
  simp only [cacheFresh_iff]
  exact ⟨runs, fun along before isPrefix body =>
    handleSignPost_spec (runs.mp along before isPrefix) body⟩

/-- A board as it leaves the factory. -/
def blankBoard : Http := .boot (fun _ => 0xFF) silent

/-- The first write loses power behind the record and in front of the marker; GET
    /info loads the record all the same; the second write erases it and fails. -/
def strandingRun : List BoardEvent :=
  [writeEvent ⟨.ok, .cut 504⟩, infoEvent, writeEvent ⟨.ok, .fail⟩]

theorem writeEvent_writes {s : Http} (unset : storageWriten s.flash = false) (flash : FlashEnv) :
    (writeEvent flash).command.Writes s.keystore sampleRecord := by
  rw [writeEvent_command]
  exact .provision unset sample_names

/-- The flash of an unprovisioned board whose sample write was cut after `n` bytes. -/
theorem writeEvent_cut {s : Http} (unset : storageWriten s.flash = false) (n : Nat) :
    boardStep s (writeEvent ⟨.ok, .cut n⟩) =
      .boot (programPart (stagedImage sampleRecord.payload (drawn s.rng)).bytes n
        (erase FLASH_SECTOR_SIZE s.flash)) silent := by
  obtain ⟨payload, boxWrite, eq⟩ := keystoreProvision_names unset sample_names ⟨.ok, .cut n⟩
  refine boardStep_cut ?_
  rw [← writeEvent, writeEvent_command, Command.run]
  exact congrArg (Outcome.map (·.2)) eq

theorem sampleRecord_landed :
    STORAGE_SECTION_OFF + STORAGE_BOX_OVERHEAD + sampleRecord.payload.length ≤ 504 := by
  decide +kernel

/-- The board after the cut: it boots unprovisioned over a readable record. -/
def tornBoard : Http := boardStep blankBoard (writeEvent ⟨.ok, .cut 504⟩)

theorem blankBoard_unset : storageWriten blankBoard.flash = false := by
  rw [blankBoard, (boot_quiet _ _).1]
  exact blankKeystore_unset

theorem tornBoard_flash : tornBoard.flash =
    programPart (stagedImage sampleRecord.payload (drawn blankBoard.rng)).bytes 504
      (erase FLASH_SECTOR_SIZE blankBoard.flash) := by
  rw [tornBoard, writeEvent_cut blankBoard_unset, (boot_quiet _ _).1]

theorem tornBoard_unset : storageWriten tornBoard.flash = false := by
  rw [tornBoard_flash, ← Bool.not_eq_true,
    storageWriten_image (blank_erase _) sampleRecord.payload_small]
  decide

theorem tornBoard_stored : storedRecord tornBoard.flash = some sampleRecord := by
  rw [tornBoard_flash]
  exact storedRecord_image (blank_erase _) sampleRecord sampleRecord_landed

theorem tornBoard_coherent : Coherent tornBoard.keystore := by
  rw [tornBoard, writeEvent_cut blankBoard_unset]
  exact (boot_quiet _ _).2

/-- The same board once GET /info has read the record. -/
def loadedBoard : Http := boardStep tornBoard infoEvent

theorem loadedBoard_keystore : loadedBoard.keystore = (keystoreLoad tornBoard.keystore).2 :=
  infoEvent_keystore tornBoard_unset

theorem loadedBoard_unset : storageWriten loadedBoard.flash = false := by
  rw [Http.flash, loadedBoard_keystore, (keystoreLoad_quiet _).flash]
  exact tornBoard_unset

theorem loadedBoard_coherent : Coherent loadedBoard.keystore := by
  rw [loadedBoard_keystore]
  exact (keystoreLoad_quiet _).coherent tornBoard_coherent

theorem loadedBoard_valid : loadedBoard.keystore.cacheValid = true := by
  have stored : storedRecord tornBoard.keystore.store.flash = some sampleRecord := tornBoard_stored
  rw [loadedBoard_keystore, (keystoreLoad_spec tornBoard_coherent).2.1, stored]
  rfl

-- from here on only what was proved about the three boards matters
attribute [irreducible] blankBoard tornBoard loadedBoard

/-- What a stranding step leaves: an empty flash under a cache that is still used. -/
theorem boardStep_stranded {s : Http} (coherent : Coherent s.keystore) {a : BoardEvent}
    (strands : a.Strands s) :
    ¬ CacheFresh (boardStep s a).keystore ∧ storedRecord (boardStep s a).flash = none ∧
      ∀ sk64, (keystoreSigningKey (boardStep s a).keystore sk64).1 = true := by
  have incoherent : ¬ Coherent (boardStep s a).keystore := fun after =>
    (boardStep_coherent_iff coherent a).mp after strands
  have valid : (boardStep s a).keystore.cacheValid = true := by
    by_contra invalid
    exact incoherent (.of_invalid ((Bool.not_eq_true _).mp invalid))
  have signs : ∀ sk64, (keystoreSigningKey (boardStep s a).keystore sk64).1 = true := by
    intro sk64
    simp only [keystoreSigningKey, keystoreLoad_valid valid, Bool.true_eq_false, if_false]
  refine ⟨fun fresh => incoherent ((cacheFresh_iff _).mp fresh), ?_, signs⟩
  cases boardStep_change (fun _ => coherent) a with
  | moved change quiet =>
      rw [Http.flash, quiet.storedRecord]
      cases change with
      | kept flash coherent_iff refused =>
          exact absurd (quiet.coherent (coherent_iff.mpr coherent)) incoherent
      | stranded writes erase program flash cache =>
          rw [flash]
          exact storedRecord_blank (blank_erase _)
      | written writes erase program flash invalid =>
          exact absurd (quiet.coherent (.of_invalid invalid)) incoherent
      | erased erases erase flash invalid =>
          exact absurd (quiet.coherent (.of_invalid invalid)) incoherent
  | lostPower cut boots => exact absurd strands cut.not_strands
  | rebooted reads boots =>
      rw [boots] at incoherent
      exact absurd (boot_quiet _ _).2 incoherent

/-- The board of that run holds and uses a key that is no longer in flash. -/
theorem cacheFresh_stranded :
    ¬ CacheFresh (boardRun blankBoard strandingRun).keystore ∧
      storedRecord (boardRun blankBoard strandingRun).flash = none ∧
      ∀ sk64, (keystoreSigningKey (boardRun blankBoard strandingRun).keystore sk64).1 = true := by
  have run : boardRun blankBoard strandingRun = boardStep loadedBoard (writeEvent ⟨.ok, .fail⟩) := by
    rw [strandingRun, boardRun, Runs.run_cons, Runs.run_cons, Runs.run_cons, Runs.run_nil, loadedBoard, tornBoard]
  have writes := writeEvent_writes loadedBoard_unset ⟨.ok, .fail⟩
  have strands : (writeEvent ⟨.ok, .fail⟩).Strands loadedBoard :=
    ⟨loadedBoard_valid, ⟨_, writes⟩, rfl, rfl⟩
  rw [run]
  exact boardStep_stranded loadedBoard_coherent strands

end Roman
