import Roman.Erasing

/-! # Commands to the keystore

What a request can do to flash and to the cache is to read, provision, clear or
wipe. `Effect` lists the ways a command can end, and every invariant of the board
is a case analysis over it.
-/

namespace Roman

open CMem NorFlash

inductive Command where
  /-- Nothing but loading the record. -/
  | read
  /-- POST /write with all three fields. -/
  | provision (pkB64 skB64 deviceId : Bytes)
  /-- POST /clear with a key. -/
  | clear (key : Bytes)
  /-- POST /debug with the clear action. -/
  | wipe

/-- What is left of the keystore once the sector is erased, or not. -/
def Keystore.wiped (k : Keystore) (w : Bool × Flash) : Keystore :=
  let k := { k with store.flash := w.2 }
  if w.1 then keystoreInvalidate k else k

def Command.run (env : FlashEnv) (k : Keystore) : Command → Outcome Keystore
  | .read => .done k
  | .provision pkB64 skB64 deviceId => (keystoreProvision k env pkB64 skB64 deviceId).map (·.2)
  | .clear key => (keystoreClear k env.erase key).map (·.2)
  | .wipe => (storageErase k.store.flash env.erase).map k.wiped

/-- The command is a valid request for this record, and the board is unprovisioned. -/
inductive Command.Writes (k : Keystore) (r : Record) : Command → Prop where
  | provision {pkB64 skB64 deviceId : Bytes} (unset : storageWriten k.store.flash = false)
      (names : Names pkB64 skB64 deviceId r) : Writes k r (.provision pkB64 skB64 deviceId)

/-- The command erases: it comes with the key of the stored record, or from the debug route. -/
inductive Command.Erases (k : Keystore) : Command → Prop where
  | clear {key : Bytes} {r : Record} (set : storageWriten k.store.flash = true)
      (stored : storedRecord k.store.flash = some r) (opens : OpensErase r key) : Erases k (.clear key)
  | wipe : Erases k .wipe

/-- What a command does: nothing but reading, the write of a record, or an erase. -/
inductive Effect (k : Keystore) (env : FlashEnv) (c : Command) : Outcome Keystore → Prop where
  | quiet {k' : Keystore} (quiet : Quiet k k') (reads : ∀ r, ¬ c.Writes k r) (keeps : ¬ c.Erases k) :
      Effect k env c (.done k')
  | wrote {r : Record} (writes : c.Writes k r) (after : Bool × Flash → Keystore)
      (flash : ∀ w, (after w).store.flash = w.2)
      (invalid : ∀ f, (after (true, f)).cacheValid = false)
      (cache : ∀ f, SameCache k (after (false, f))) :
      Effect k env c ((eraseThenProgram k.store.flash env
        (stagedImage r.payload (drawn k.store.rng)).bytes).map after)
  | erased {k' : Keystore} (quiet : Quiet k k') (erases : c.Erases k) :
      Effect k env c ((storageErase k.store.flash env.erase).map k'.wiped)

theorem Command.effect {k : Keystore} (settled : Settled k) (env : FlashEnv) (c : Command) :
    Effect k env c (c.run env k) := by
  cases c with
  | read => exact .quiet (.refl k) nofun nofun
  | provision pkB64 skB64 deviceId =>
      by_cases named : storageWriten k.store.flash = false ∧ ∃ r, Names pkB64 skB64 deviceId r
      · obtain ⟨unset, r, names⟩ := named
        obtain ⟨payload, boxWrite, eq⟩ := keystoreProvision_names unset names env
        rw [run, eq, Outcome.map_map]
        exact .wrote (.provision unset names) _ (fun ⟨ok, f⟩ => by cases ok <;> rfl)
          (fun _ => rfl) (fun _ => ⟨rfl, rfl, rfl, rfl⟩)
      · have reads : ∀ r, ¬ (provision pkB64 skB64 deviceId).Writes k r := by
          rintro r ⟨unset, names⟩
          exact named ⟨unset, r, names⟩
        rw [not_and_or, Bool.not_eq_false, not_exists] at named
        obtain ⟨status, pk, sk, eq, -⟩ := keystoreProvision_refused named env
        rw [run, eq]
        exact .quiet (.of_sameCache rfl rfl ⟨rfl, rfl, rfl, rfl⟩) reads nofun
  | clear key =>
      cases set : storageWriten k.store.flash with
      | false =>
          have keeps : ¬ (clear key).Erases k := by
            rintro ⟨marked, -, -⟩
            rw [set] at marked
            cases marked
          rw [run, keystoreClear_unset set]
          exact .quiet (.refl k) nofun keeps
      | true =>
          have coherent := settled set
          cases stored : storedRecord k.store.flash with
          | none =>
              have keeps : ¬ (clear key).Erases k := by
                rintro ⟨-, some, -⟩
                rw [stored] at some
                cases some
              rw [run, keystoreClear_unreadable coherent set stored]
              exact .quiet (keystoreLoad_quiet k) nofun keeps
          | some r =>
              obtain ⟨k', quiet, opened, refused⟩ := keystoreClear_eq coherent set stored key
              by_cases opens : OpensErase r key
              · have wiped : (keystoreClear k env.erase key).map (·.2) =
                    (storageErase k.store.flash env.erase).map k'.wiped := by
                  rw [opened opens env.erase, Outcome.map_map]
                  exact Outcome.map_congr (fun ⟨ok, f⟩ => by cases ok <;> rfl) _
                rw [run, wiped]
                exact .erased quiet (.clear set stored opens)
              · have keeps : ¬ (clear key).Erases k := by
                  rintro ⟨-, stored', opens'⟩
                  rw [stored, Option.some.injEq] at stored'
                  exact opens (stored' ▸ opens')
                rw [run, refused opens env.erase]
                exact .quiet quiet nofun keeps
  | wipe => exact .erased (.refl k) .wipe

/-- The write that erases under a valid cache and then fails. -/
def Command.Strands (env : FlashEnv) (k : Keystore) (c : Command) : Prop :=
  k.cacheValid = true ∧ (∃ r, c.Writes k r) ∧ env.erase = .ok ∧ env.program = .fail

theorem Command.Writes.unset {k : Keystore} {r : Record} {c : Command} (writes : c.Writes k r) :
    storageWriten k.store.flash = false := by
  cases writes with
  | provision unset names => exact unset

/-- A command that writes does not erase. -/
theorem Command.Writes.not_erases {k : Keystore} {r : Record} {c : Command} (writes : c.Writes k r) :
    ¬ c.Erases k := by
  cases writes with
  | provision unset names => exact nofun

/-- The states a command that returns can leave. -/
inductive Change (k : Keystore) (env : FlashEnv) (c : Command) (k' : Keystore) : Prop where
  /-- Flash is as it was, and so is the cache: a write was refused by the erase. -/
  | kept (flash : k'.store.flash = k.store.flash) (coherent_iff : Coherent k' ↔ Coherent k)
      (refused : ∀ r, c.Writes k r → env.erase = .fail)
  /-- The sector is erased and the write failed. -/
  | stranded {r : Record} (writes : c.Writes k r) (erase : env.erase = .ok) (program : env.program = .fail)
      (flash : k'.store.flash = NorFlash.erase FLASH_SECTOR_SIZE k.store.flash) (cache : SameCache k k')
  | written {r : Record} (writes : c.Writes k r) (erase : env.erase = .ok) (program : env.program = .ok)
      (flash : k'.store.flash = committed k.store.flash r (drawn k.store.rng))
      (invalid : k'.cacheValid = false)
  | erased (erases : c.Erases k) (erase : env.erase = .ok)
      (flash : k'.store.flash = NorFlash.erase FLASH_SECTOR_SIZE k.store.flash)
      (invalid : k'.cacheValid = false)

theorem Effect.change {k k' : Keystore} {env : FlashEnv} {c : Command} {o : Outcome Keystore}
    (effect : Effect k env c o) (done : o = .done k') : Change k env c k' := by
  cases effect with
  | quiet quiet reads keeps =>
      cases done
      exact .kept quiet.flash quiet.coherent_iff fun r writes => absurd writes (reads r)
  | wrote writes after flash invalid cache =>
      rename_i r
      have ends := written k.store.flash env (stagedImage r.payload (drawn k.store.rng)).bytes
      generalize eraseThenProgram _ _ _ = ended at ends done
      cases ends with
      | eraseCut reached => cases done
      | eraseFailed =>
          cases done
          have same : (after (false, k.store.flash)).store.flash = k.store.flash := flash _
          have cached := cache k.store.flash
          exact .kept same ⟨fun set => set.transport same.symm cached.symm,
            fun set => set.transport same cached⟩ fun _ _ => rfl
      | programCut n => cases done
      | programFailed =>
          cases done
          exact .stranded writes rfl rfl (flash _) (cache _)
      | ok =>
          cases done
          exact .written writes rfl rfl (flash _) (invalid _)
  | erased quiet erases =>
      obtain ⟨eraseEnv, programEnv⟩ := env
      cases eraseEnv with
      | cut reached => cases done
      | fail =>
          cases done
          rename_i k₁
          have wiped : k₁.wiped (false, k.store.flash) = k₁ := by
            rw [Keystore.wiped, ← quiet.flash]
            rfl
          rw [wiped]
          exact .kept quiet.flash quiet.coherent_iff fun _ _ => rfl
      | ok =>
          cases done
          exact .erased erases rfl rfl rfl

/-- A command keeps a coherent cache coherent, except when it strands it. -/
theorem Change.coherent_iff {k k' : Keystore} {env : FlashEnv} {c : Command}
    (change : Change k env c k') (coherent : Coherent k) : Coherent k' ↔ ¬ c.Strands env k := by
  cases change with
  | kept flash coherent_iff refused =>
      refine iff_of_true (coherent_iff.mpr coherent) ?_
      rintro ⟨-, ⟨r, writes⟩, erase, -⟩
      rw [refused r writes] at erase
      cases erase
  | stranded writes erase program flash cache =>
      have gone : storedRecord k'.store.flash = none := by
        rw [flash]
        exact storedRecord_blank (blank_erase _)
      constructor
      · rintro coherent' ⟨valid, -⟩
        obtain ⟨r, stored, -⟩ := coherent' (cache.valid.trans valid)
        rw [gone] at stored
        cases stored
      · intro safe
        refine .of_invalid ?_
        rw [cache.valid, ← Bool.not_eq_true]
        exact fun valid => safe ⟨valid, ⟨_, writes⟩, erase, program⟩
  | written writes erase program flash invalid =>
      refine iff_of_true (.of_invalid invalid) ?_
      rintro ⟨-, -, -, failed⟩
      rw [program] at failed
      cases failed
  | erased erases erase flash invalid =>
      exact iff_of_true (.of_invalid invalid) fun ⟨_, ⟨r, writes⟩, _⟩ => writes.not_erases erases

theorem Change.settled {k k' : Keystore} {env : FlashEnv} {c : Command} (change : Change k env c k')
    (settled : Settled k) : Settled k' := by
  intro set
  cases change with
  | kept flash coherent_iff refused =>
      rw [flash] at set
      exact coherent_iff.mpr (settled set)
  | stranded writes erase program flash cache =>
      rw [flash, storageWriten_blank (blank_erase _)] at set
      cases set
  | written writes erase program flash invalid => exact .of_invalid invalid
  | erased erases erase flash invalid => exact .of_invalid invalid

/-- The flash a command can leave when the power fails in it. -/
inductive CutShort (k : Keystore) (env : FlashEnv) (c : Command) (f : Flash) : Prop where
  | inErase (reached : Nat → Bool) (erase : env.erase = .cut reached)
      (flash : f = erasePart FLASH_SECTOR_SIZE reached k.store.flash)
  | inProgram {r : Record} (n : Nat) (writes : c.Writes k r) (erase : env.erase = .ok)
      (program : env.program = .cut n)
      (flash : f = programPart (stagedImage r.payload (drawn k.store.rng)).bytes n
        (NorFlash.erase FLASH_SECTOR_SIZE k.store.flash))

theorem Effect.cutShort {k : Keystore} {env : FlashEnv} {c : Command} {o : Outcome Keystore} {f : Flash}
    (effect : Effect k env c o) (cut : o = .cut f) : CutShort k env c f := by
  cases effect with
  | quiet quiet reads keeps => cases cut
  | wrote writes after flash invalid cache =>
      rename_i r
      have ends := written k.store.flash env (stagedImage r.payload (drawn k.store.rng)).bytes
      generalize eraseThenProgram _ _ _ = ended at ends cut
      cases ends with
      | eraseCut reached =>
          cases cut
          exact .inErase reached rfl rfl
      | eraseFailed => cases cut
      | programCut n =>
          cases cut
          exact .inProgram n writes rfl rfl rfl
      | programFailed => cases cut
      | ok => cases cut
  | erased quiet erases =>
      obtain ⟨eraseEnv, programEnv⟩ := env
      cases eraseEnv with
      | cut reached =>
          cases cut
          exact .inErase reached rfl rfl
      | fail => cases cut
      | ok => cases cut

/-- A command whose program is cut does not strand the cache. -/
theorem CutShort.not_strands {k : Keystore} {env : FlashEnv} {c : Command} {f : Flash}
    (cut : CutShort k env c f) : ¬ c.Strands env k := by
  rintro ⟨-, -, erase, program⟩
  cases cut with
  | inErase reached cutErase flash =>
      rw [erase] at cutErase
      cases cutErase
  | inProgram n writes whole cutProgram flash =>
      rw [program] at cutProgram
      cases cutProgram

/-- What a keystore serves is the record in flash, or flash holds none. -/
structure Backed (k : Keystore) : Prop where
  cached : Cached k
  stored : Coherent k ∨ storedRecord k.store.flash = none

theorem Coherent.backed {k : Keystore} (coherent : Coherent k) : Backed k := by
  refine ⟨?_, .inl coherent⟩
  intro valid
  obtain ⟨r, -, holds⟩ := coherent valid
  exact ⟨r, holds⟩

theorem Backed.of_loads {k k' : Keystore} (backed : Backed k) (loads : Loads k k') : Backed k' := by
  refine ⟨loads.cached backed.cached, ?_⟩
  rw [loads.quiet.coherent_iff, loads.quiet.flash]
  exact backed.stored

theorem Backed.serves {k : Keystore} (backed : Backed k) :
    ∃ o, Serves k o ∧ (storedRecord k.store.flash = o ∨ storedRecord k.store.flash = none) := by
  rcases backed.stored with coherent | gone
  · exact ⟨_, coherent.serves, .inl rfl⟩
  · obtain ⟨o, serves⟩ := backed.cached.serves
    exact ⟨o, serves, .inr gone⟩

/-- Once the marker is set, a change comes from a coherent keystore and ends in one. -/
theorem Change.backed_of_set {k k' : Keystore} {env : FlashEnv} {c : Command} (change : Change k env c k')
    (settled : Settled k) (set : storageWriten k.store.flash = true) : Backed k' := by
  cases change with
  | kept flash coherent_iff refused => exact (coherent_iff.mpr (settled set)).backed
  | stranded writes erase program flash cache =>
      rw [writes.unset] at set
      cases set
  | written writes erase program flash invalid => exact (Coherent.of_invalid invalid).backed
  | erased erases erase flash invalid => exact (Coherent.of_invalid invalid).backed

theorem Change.stored {k k' : Keystore} {env : FlashEnv} {c : Command} (change : Change k env c k')
    (backed : Backed k) : Coherent k' ∨ storedRecord k'.store.flash = none := by
  cases change with
  | kept flash coherent_iff refused =>
      rw [coherent_iff, flash]
      exact backed.stored
  | stranded writes erase program flash cache =>
      rw [flash]
      exact .inr (storedRecord_blank (blank_erase _))
  | written writes erase program flash invalid => exact .inl (.of_invalid invalid)
  | erased erases erase flash invalid => exact .inl (.of_invalid invalid)

/-- Without the marker, a command leaves the cache as it was or clears it. -/
theorem Command.run_cache {k k' : Keystore} {env : FlashEnv} {c : Command} (unset : storageWriten k.store.flash = false)
    (done : c.run env k = .done k') : SameCache k k' ∨ k'.cacheValid = false := by
  cases c with
  | read =>
      cases done
      exact .inl ⟨rfl, rfl, rfl, rfl⟩
  | provision pkB64 skB64 deviceId =>
      by_cases named : ∃ r, Names pkB64 skB64 deviceId r
      · obtain ⟨r, names⟩ := named
        obtain ⟨payload, boxWrite, eq⟩ := keystoreProvision_names unset names env
        rw [run, eq, Outcome.map_map] at done
        obtain ⟨⟨ok, f⟩, rfl⟩ := Outcome.of_map_done done
        cases ok with
        | true => exact .inr rfl
        | false => exact .inl ⟨rfl, rfl, rfl, rfl⟩
      · obtain ⟨status, pk, sk, eq, -⟩ := keystoreProvision_refused (.inr (not_exists.mp named)) env
        rw [run, eq] at done
        cases done
        exact .inl ⟨rfl, rfl, rfl, rfl⟩
  | clear key =>
      rw [run, keystoreClear_unset unset] at done
      cases done
      exact .inl ⟨rfl, rfl, rfl, rfl⟩
  | wipe =>
      obtain ⟨⟨ok, f⟩, rfl⟩ := Outcome.of_map_done done
      cases ok with
      | true => exact .inr rfl
      | false => exact .inl ⟨rfl, rfl, rfl, rfl⟩

theorem Command.run_backed {k k' : Keystore} {env : FlashEnv} {c : Command} (settled : Settled k)
    (backed : Backed k) (done : c.run env k = .done k') : Backed k' := by
  have change := (Command.effect settled env c).change done
  cases set : storageWriten k.store.flash with
  | true => exact change.backed_of_set settled set
  | false =>
      refine ⟨?_, change.stored backed⟩
      rcases Command.run_cache set done with same | invalid
      · exact backed.cached.transport same
      · exact .of_invalid invalid

/-- No erase and no program is cut short. -/
structure FlashEnv.Whole (env : FlashEnv) : Prop where
  erase : ∀ reached, env.erase ≠ .cut reached
  program : ∀ n, env.program ≠ .cut n

theorem storageErase_whole {f f' : Flash} {env : EraseOutcome} (whole : ∀ reached, env ≠ .cut reached) :
    storageErase f env ≠ .cut f' := by
  cases env with
  | cut reached => exact absurd rfl (whole reached)
  | ok | fail => exact nofun

theorem keystoreClear_whole {k : Keystore} {env : EraseOutcome} {key : Bytes} {f : Flash}
    (whole : ∀ reached, env ≠ .cut reached) : keystoreClear k env key ≠ .cut f := by
  have clears : ∀ store f', storageClear store env ≠ .cut f' := by
    intro store f' cut
    unfold storageClear at cut
    cases erased : storageErase store.flash env with
    | cut g => exact storageErase_whole whole erased
    | done w =>
        rw [erased] at cut
        cases cut
  intro cut
  unfold keystoreClear at cut
  dsimp only at cut
  repeat' split at cut
  all_goals try cases cut
  rename_i erased
  exact clears _ _ erased

theorem Command.run_whole {k : Keystore} {env : FlashEnv} {c : Command} {f : Flash} (whole : env.Whole) :
    c.run env k ≠ .cut f := by
  intro cut
  cases c with
  | read => cases cut
  | provision pkB64 skB64 deviceId =>
      by_cases named : storageWriten k.store.flash = false ∧ ∃ r, Names pkB64 skB64 deviceId r
      · obtain ⟨unset, r, names⟩ := named
        obtain ⟨payload, boxWrite, eq⟩ := keystoreProvision_names unset names env
        have ends := written k.store.flash env (stagedImage r.payload (drawn k.store.rng)).bytes
        rw [run, eq, Outcome.map_map] at cut
        generalize eraseThenProgram _ _ _ = ended at ends cut
        cases ends with
        | eraseCut reached => exact whole.erase reached rfl
        | programCut n => exact whole.program n rfl
        | eraseFailed | programFailed | ok => cases cut
      · rw [not_and_or, Bool.not_eq_false, not_exists] at named
        obtain ⟨status, pk, sk, eq, -⟩ := keystoreProvision_refused named env
        rw [run, eq] at cut
        cases cut
  | clear key => exact keystoreClear_whole whole.erase (Outcome.map_cut_iff.mp cut)
  | wipe => exact storageErase_whole whole.erase (Outcome.map_cut_iff.mp cut)

end Roman
