import Roman.CacheRuns

/-! # Usable exactly when provisioned

Two predicates over flash say whether there is a record. `keystore_state` asks for
the marker first, while `keystore_load`, and so every getter, asks for magic and
length and opens the section. They agree unless a record reads back without its
marker, and a program that lost power behind the record leaves just that.
-/

namespace Roman

open CMem CStr NorFlash TweetNacl

/-- A record that opens, on a board that counts as unprovisioned. -/
def Torn (f : Flash) : Prop :=
  storageWriten f = false ∧ (storedRecord f).isSome = true

theorem not_torn_blank {f : Flash} (blank : Blank f) : ¬ Torn f := by
  rintro ⟨-, stored⟩
  rw [storedRecord_blank blank] at stored
  cases stored

theorem not_torn_set {f : Flash} (set : storageWriten f = true) : ¬ Torn f := by
  rintro ⟨unset, -⟩
  rw [set] at unset
  cases unset

/-- The reply of GET /info for an empty store. -/
def emptyInfo : Response :=
  ⟨200, ascii "\x7b\"device\":\"pico2\",\"firmware\":\"roman\",\"version\":\"" ++ ROMAN_VERSION ++
    ascii "\",\"engine\":\"C/tweetnacl\",\"id\":null,\"storage\":\"empty\"\x7d"⟩

/-- Nothing gets a record out of the server. -/
structure Dormant (s : Http) : Prop where
  signingKey : ∀ sk64, (keystoreSigningKey s.keystore sk64).1 = false
  deviceId : ∀ out : Region (RECORD_MAX_DEVICE_ID + 1),
    (keystoreDeviceId s.keystore out (RECORD_MAX_DEVICE_ID + 1)).1 = false
  publicKey : ∀ pk, (keystorePublicKey s.keystore pk).1 = false
  sign : ∀ body, bodyText body ≠ [] → (handleSignPost s body).1.status = 503
  info : (handleInfo s).1 = emptyInfo

/-- The getters and `keystore_state` agree on whether there is a record, and
    without the marker there is none. -/
structure Usable (s : Http) : Prop where
  signingKey : ∀ sk64, (keystoreSigningKey s.keystore sk64).1 = true ↔
    (keystoreState s.keystore).1 = .provisioned
  deviceId : ∀ out : Region (RECORD_MAX_DEVICE_ID + 1),
    (keystoreDeviceId s.keystore out (RECORD_MAX_DEVICE_ID + 1)).1 = true ↔
      (keystoreState s.keystore).1 = .provisioned
  publicKey : ∀ pk, (keystorePublicKey s.keystore pk).1 = true ↔
    (keystoreState s.keystore).1 = .provisioned
  unset : storageWriten s.flash = false → Dormant s

section
variable {s : Http}

/-- Every getter succeeds exactly if flash holds a record. -/
theorem getters_spec (coherent : Coherent s.keystore) :
    (∀ sk64, (keystoreSigningKey s.keystore sk64).1 = (storedRecord s.flash).isSome) ∧
    (∀ out : Region (RECORD_MAX_DEVICE_ID + 1),
      (keystoreDeviceId s.keystore out (RECORD_MAX_DEVICE_ID + 1)).1 = (storedRecord s.flash).isSome) ∧
    (∀ pk, (keystorePublicKey s.keystore pk).1 = (storedRecord s.flash).isSome) := by
  refine ⟨fun sk64 => ?_, fun out => ?_, fun pk => ?_⟩
  · rw [keystoreSigningKey_spec coherent sk64, Http.flash]
    cases storedRecord s.keystore.store.flash <;> rfl
  · obtain ⟨out', eq, -⟩ := keystoreDeviceId_spec coherent out
    rw [eq, Http.flash]
  · rw [keystorePublicKey_spec coherent pk, Http.flash]
    cases storedRecord s.keystore.store.flash <;> rfl

theorem infoReply_empty {f : Flash} (unset : storageWriten f = false) (none : storedRecord f = none) :
    infoReply f = emptyInfo := by
  simp only [infoReply, stateName, servedInfo, servedState, unset, none, if_true]
  decide +kernel

theorem dormant_of_none (coherent : Coherent s.keystore) (unset : storageWriten s.flash = false)
    (none : storedRecord s.flash = none) : Dormant s := by
  obtain ⟨signingKey, deviceId, publicKey⟩ := getters_spec coherent
  simp only [none, Option.isSome_none] at signingKey deviceId publicKey
  refine ⟨signingKey, deviceId, publicKey, fun body nonempty => ?_, ?_⟩
  · rw [handleSignPost_spec coherent body, none, signReply, if_neg nonempty]
    rfl
  · rw [handleInfo_spec coherent, infoReply_empty unset none]

/-- The two predicates agree on a settled board exactly if its cache is coherent
    and its flash not torn. -/
theorem usable_iff (settled : Settled s.keystore) :
    Usable s ↔ Coherent s.keystore ∧ ¬ Torn s.flash := by
  constructor
  · intro usable
    have coherent : Coherent s.keystore := by
      cases writen : storageWriten s.flash with
      | true => exact settled writen
      | false =>
          -- a valid cache would give the key away
          have refused := (usable.unset writen).signingKey (.fill _ 0)
          refine .of_invalid ?_
          by_contra valid
          rw [Bool.not_eq_false] at valid
          simp only [keystoreSigningKey, keystoreLoad_valid valid, Bool.true_eq_false, if_false]
            at refused
    refine ⟨coherent, ?_⟩
    rintro ⟨unset, stored⟩
    have refused := (usable.unset unset).signingKey (.fill _ 0)
    rw [(getters_spec coherent).1, stored] at refused
    cases refused
  · rintro ⟨coherent, whole⟩
    obtain ⟨signingKey, deviceId, publicKey⟩ := getters_spec coherent
    have agree : (storedRecord s.flash).isSome = true ↔ (keystoreState s.keystore).1 = .provisioned := by
      rw [keystoreState_spec coherent, ← Http.flash]
      cases writen : storageWriten s.flash with
      | false =>
          have none : ¬ (storedRecord s.flash).isSome = true := fun stored => whole ⟨writen, stored⟩
          simp [none]
      | true => cases storedRecord s.flash <;> simp
    refine ⟨fun sk64 => ?_, fun out => ?_, fun pk => ?_, fun unset => ?_⟩
    · rw [signingKey, agree]
    · rw [deviceId, agree]
    · rw [publicKey, agree]
    · refine dormant_of_none coherent unset ?_
      by_contra stored
      exact whole ⟨unset, Option.isSome_iff_ne_none.mpr stored⟩

end

/-- The event dispatches a valid provisioning request on an unprovisioned board, its
    erase succeeds, and the program loses power short of the marker but with
    enough of the section in flash for it to open. -/
def BoardEvent.Tears (s : Http) (a : BoardEvent) : Prop :=
  ∃ r n, a.command.Writes s.keystore r ∧ a.env.erase = .ok ∧ a.env.program = .cut n ∧ n < 508 ∧
    (storedRecord (programPart (stagedImage r.payload (drawn s.rng)).bytes n
      (erase FLASH_SECTOR_SIZE s.flash))).isSome = true

/-- Every cut between the end of the section and the end of the marker is one. -/
theorem BoardEvent.Tears.of_landed {s : Http} {a : BoardEvent} {r : Record} {n : Nat}
    (writes : a.command.Writes s.keystore r) (erase : a.env.erase = .ok)
    (program : a.env.program = .cut n) (short : n < 508)
    (landed : STORAGE_SECTION_OFF + STORAGE_BOX_OVERHEAD + r.payload.length ≤ n) : a.Tears s := by
  refine ⟨r, n, writes, erase, program, short, ?_⟩
  rw [storedRecord_image (blank_erase _) r landed]
  rfl

theorem torn_image_iff {f : Flash} {r : Record} {d : Draw} {n : Nat} (blank : Blank f) :
    Torn (programPart (stagedImage r.payload d).bytes n f) ↔
      n < 508 ∧ (storedRecord (programPart (stagedImage r.payload d).bytes n f)).isSome = true := by
  rw [Torn, ← Bool.not_eq_true, storageWriten_image blank r.payload_small, Nat.not_le]

/-- A command that returns neither tears flash nor mends it. -/
theorem Change.not_torn {k k' : Keystore} {env : FlashEnv} {c : Command} (change : Change k env c k')
    (whole : ¬ Torn k.store.flash) : ¬ Torn k'.store.flash := by
  cases change with
  | kept flash coherent_iff refused =>
      rw [flash]
      exact whole
  | stranded writes erase program flash cache =>
      rw [flash]
      exact not_torn_blank (blank_erase _)
  | written writes erase program flash invalid =>
      rw [flash]
      exact not_torn_set (storageWriten_committed _ _ _)
  | erased erases erase flash invalid =>
      rw [flash]
      exact not_torn_blank (blank_erase _)

/-- A command that returns was not cut. -/
theorem Change.not_tears {s : Http} {a : BoardEvent} {k : Keystore}
    (change : Change s.keystore a.env a.command k) : ¬ a.Tears s := by
  rintro ⟨r, n, writes, erased, cut, -⟩
  cases change with
  | kept flash coherent_iff refused =>
      rw [refused r writes] at erased
      cases erased
  | stranded writes' erase program flash cache =>
      rw [program] at cut
      cases cut
  | written writes' erase program flash invalid =>
      rw [program] at cut
      cases cut
  | erased erases erase flash invalid => exact writes.not_erases erases

theorem Command.Writes.unique {k : Keystore} {c : Command} {r r' : Record} (writes : c.Writes k r)
    (writes' : c.Writes k r') : r = r' := by
  cases writes with
  | provision unset names =>
      cases writes' with
      | provision unset' names' => exact names.unique names'

/-- The flash a cut leaves is torn exactly if the event tears it. -/
theorem CutShort.torn_iff {s : Http} {a : BoardEvent} {f : Flash}
    (cut : CutShort s.keystore a.env a.command f) (whole : ∀ reached, a.env.erase ≠ .cut reached) :
    Torn f ↔ a.Tears s := by
  cases cut with
  | inErase reached erase flash => exact absurd erase (whole reached)
  | inProgram n writes erase program flash =>
      rename_i r
      rw [flash, torn_image_iff (blank_erase _)]
      constructor
      · rintro ⟨short, reads⟩
        exact ⟨r, n, writes, erase, program, short, reads⟩
      · rintro ⟨r', n', writes', -, program', short, reads⟩
        rw [program, ProgramOutcome.cut.injEq] at program'
        subst program'
        rw [writes'.unique writes] at reads
        exact ⟨short, reads⟩

theorem boardStep_usable_iff {s : Http} (coherent : Coherent s.keystore) (untorn : ¬ Torn s.flash)
    {a : BoardEvent} (whole : ∀ reached, a.env.erase ≠ .cut reached) :
    Coherent (boardStep s a).keystore ∧ ¬ Torn (boardStep s a).flash ↔
      ¬ a.Strands s ∧ ¬ a.Tears s := by
  refine and_congr (boardStep_coherent_iff coherent a) ?_
  cases boardStep_change (fun _ => coherent) a with
  | moved change quiet =>
      rw [Http.flash, quiet.flash]
      exact iff_of_true (change.not_torn untorn) change.not_tears
  | lostPower cut boots =>
      rw [boots, (boot_quiet _ _).1]
      exact not_congr (cut.torn_iff whole)
  | rebooted reads boots =>
      rw [boots, (boot_quiet _ _).1]
      refine iff_of_true untorn ?_
      rintro ⟨r, n, writes, -⟩
      rw [reads] at writes
      cases writes

/-- From any flash that is not torn, and with no power cut inside an erase: the
    getters agree with `keystore_state` in every state of a run exactly if no step
    strands the cache and no step tears flash. Every program that loses power between the
    end of the section and the end of the marker tears flash. -/
theorem usable_run_iff {f : Flash} (untorn : ¬ Torn f) (e : Entropy) {events : List BoardEvent}
    (whole : ∀ a ∈ events, ∀ reached, a.env.erase ≠ .cut reached) :
    (Runs.Along boardStep (fun s a => ¬ a.Strands s ∧ ¬ a.Tears s) (.boot f e) events ↔
      ∀ before, before <+: events → Usable (boardRun (.boot f e) before)) ∧
    ∀ {s : Http} {a : BoardEvent} {r : Record} {n : Nat}, a.command.Writes s.keystore r → a.env.erase = .ok →
      a.env.program = .cut n → n < 508 →
      STORAGE_SECTION_OFF + STORAGE_BOX_OVERHEAD + r.payload.length ≤ n → a.Tears s := by
  refine ⟨?_, BoardEvent.Tears.of_landed⟩
  obtain ⟨flash, coherent⟩ := boot_quiet f e
  rw [Runs.along_iff (fun s : Http => Coherent s.keystore ∧ ¬ Torn s.flash)
    ⟨coherent, by rwa [flash]⟩ events
    fun _ a member good => boardStep_usable_iff good.1 good.2 (whole a member)]
  refine forall_congr' fun before => imp_congr_right fun _ => ?_
  exact (usable_iff (boardRun_settled f e before)).symm

theorem usable_run_iff_blank :
    (Runs.Along boardStep (fun s a => ¬ a.Strands s ∧ ¬ a.Tears s) blankBoard strandingRun ↔
      ∀ before, before <+: strandingRun → Usable (boardRun blankBoard before)) ∧
    (writeEvent ⟨.ok, .cut 504⟩).Tears blankBoard := by
  have run := usable_run_iff (not_torn_blank (f := fun _ => 0xFF) fun _ _ => rfl) silent
    (show ∀ a ∈ strandingRun, ∀ reached, a.env.erase ≠ .cut reached by
      simp [strandingRun, writeEvent_env, infoEvent_env])
  have tears := run.2 (writeEvent_writes blankBoard_unset ⟨.ok, .cut 504⟩) (by rw [writeEvent_env])
    (by rw [writeEvent_env]) (by decide) sampleRecord_landed
  refine ⟨?_, tears⟩
  rw [blankBoard]
  exact run.1

/-- A first provisioning that lost power behind the record: the board is empty and
    signs with its key. -/
theorem usable_torn :
    (keystoreState (boardRun blankBoard [writeEvent ⟨.ok, .cut 504⟩]).keystore).1 = .empty ∧
      (∀ sk64, (keystoreSigningKey
        (boardRun blankBoard [writeEvent ⟨.ok, .cut 504⟩]).keystore sk64).1 = true) ∧
      ¬ Usable (boardRun blankBoard [writeEvent ⟨.ok, .cut 504⟩]) := by
  have run : boardRun blankBoard [writeEvent ⟨.ok, .cut 504⟩] = tornBoard := by
    rw [boardRun, Runs.run_cons, Runs.run_nil, tornBoard]
  have stored : (storedRecord tornBoard.flash).isSome = true := by
    rw [tornBoard_stored]
    rfl
  rw [run]
  refine ⟨?_, fun sk64 => ?_, fun usable => ?_⟩
  · rw [keystoreState_spec tornBoard_coherent,
      show storageWriten tornBoard.keystore.store.flash = false from tornBoard_unset]
    rfl
  · rw [(getters_spec tornBoard_coherent).1, stored]
  · have split := (usable_iff fun _ => tornBoard_coherent).mp usable
    exact split.2 ⟨tornBoard_unset, stored⟩

end Roman
