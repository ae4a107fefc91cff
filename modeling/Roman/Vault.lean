import Roman.Erasing

/-! # The keystore without its RAM

`Vault` is the part of the board that decides: flash and the generator.
Provisioning and erasing are functions on it, and the keystore refines them: with
a coherent cache `keystore_provision` and `keystore_clear` answer what the vault
answers and leave its flash and generator behind, whatever the arrays held.
-/

namespace Roman

open CMem CStr NorFlash TweetNacl

structure Vault where
  flash : Flash
  rng : Rng

def Keystore.vault (k : Keystore) : Vault := ⟨k.store.flash, k.store.rng⟩

theorem Quiet.vault {k k' : Keystore} (quiet : Quiet k k') : k'.vault = k.vault := by
  rw [Keystore.vault, quiet.flash, quiet.rng]
  rfl

instance (r : Record) (key : Bytes) : Decidable (OpensErase r key) :=
  inferInstanceAs (Decidable (_ ∨ _))

def Vault.provision (v : Vault) (env : FlashEnv) (pkB64 skB64 deviceId : Bytes) :
    Outcome (KeystoreStatus × Vault) :=
  if storageWriten v.flash then .done (.errAlready, v)
  else match requestedRecord pkB64 skB64 deviceId with
  | .error status => .done (status, v)
  | .ok r =>
      (eraseThenProgram v.flash env (stagedImage r.payload (drawn v.rng)).bytes).map fun w =>
        (if w.1 then .ok else .errFlash, ⟨w.2, afterDraw v.rng⟩)

def Vault.clear (v : Vault) (env : EraseOutcome) (key : Bytes) :
    Outcome (KeystoreClearStatus × Vault) :=
  if storageWriten v.flash = false then .done (.empty, v)
  else match storedRecord v.flash with
  | none => .done (.errDenied, v)
  | some r =>
      if OpensErase r key then
        (storageErase v.flash env).map fun w => (if w.1 then .ok else .errFlash, ⟨w.2, v.rng⟩)
      else .done (wrongKey key, v)

/-- `keystore_provision` does not look at the cache, so this holds without coherence. -/
theorem keystoreProvision_vault (k : Keystore) (env : FlashEnv) (pkB64 skB64 deviceId : Bytes) :
    (keystoreProvision k env pkB64 skB64 deviceId).map (fun w => (w.1, w.2.vault)) =
      k.vault.provision env pkB64 skB64 deviceId := by
  cases writen : storageWriten k.store.flash with
  | true =>
      have set : storageWriten k.vault.flash = true := writen
      rw [keystoreProvision_writen writen, Vault.provision, if_pos set]
      rfl
  | false =>
      have unset : ¬ storageWriten k.vault.flash = true := by
        rw [show storageWriten k.vault.flash = false from writen]
        decide
      rw [Vault.provision, if_neg unset]
      cases request : requestedRecord pkB64 skB64 deviceId with
      | error status =>
          have provision := keystoreProvision_eq writen env pkB64 skB64 deviceId
          simp only [request] at provision
          obtain ⟨pk, sk, eq⟩ := provision
          rw [eq]
          rfl
      | ok r =>
          obtain ⟨payload, boxWrite, eq⟩ :=
            keystoreProvision_names writen (requestedRecord_ok_iff.mp request) env
          rw [eq, Outcome.map_map]
          refine Outcome.map_congr (fun w => ?_) _
          obtain ⟨ok, f⟩ := w
          cases ok <;> rfl

theorem keystoreClear_vault {k : Keystore} (coherent : Coherent k) (env : EraseOutcome) (key : Bytes) :
    (keystoreClear k env key).map (fun w => (w.1, w.2.vault)) = k.vault.clear env key := by
  cases writen : storageWriten k.store.flash with
  | false =>
      have unset : storageWriten k.vault.flash = false := writen
      rw [keystoreClear_unset writen, Vault.clear, if_pos unset]
      rfl
  | true =>
      have set : ¬ storageWriten k.vault.flash = false := by
        rw [show storageWriten k.vault.flash = true from writen]
        decide
      rw [Vault.clear, if_neg set]
      cases stored : storedRecord k.store.flash with
      | none =>
          rw [keystoreClear_unreadable coherent writen stored,
            show storedRecord k.vault.flash = none from stored, Outcome.map,
            (keystoreLoad_quiet k).vault]
      | some r =>
          obtain ⟨k', quiet, opened, refused⟩ := keystoreClear_eq coherent writen stored key
          rw [show storedRecord k.vault.flash = some r from stored]
          dsimp only
          by_cases opens : OpensErase r key
          · rw [if_pos opens, opened opens env, Outcome.map_map, ← quiet.vault]
            have flash : k'.vault.flash = k.store.flash := quiet.flash
            rw [flash]
            refine Outcome.map_congr (fun w => ?_) _
            obtain ⟨ok, f⟩ := w
            cases ok <;> rfl
          · rw [if_neg opens, refused opens env, Outcome.map, quiet.vault]

/-- The same flash, and the same draws to come. -/
structure Vault.Alike (v v' : Vault) : Prop where
  flash : v.flash = v'.flash
  draws : SameDraws v.rng v'.rng

/-- An answer and the vault after it, as the world sees them. -/
def SameAnswer {α : Type} (a b : α × Vault) : Prop := a.1 = b.1 ∧ a.2.Alike b.2

theorem Vault.Alike.provision {v v' : Vault} (alike : v.Alike v') (env : FlashEnv)
    (pkB64 skB64 deviceId : Bytes) :
    Outcome.Lift SameAnswer (v.provision env pkB64 skB64 deviceId)
      (v'.provision env pkB64 skB64 deviceId) := by
  obtain ⟨draw, later⟩ := alike.draws.write
  simp only [Vault.provision, alike.flash, draw]
  split
  · exact .done ⟨rfl, alike⟩
  · split
    · exact .done ⟨rfl, alike⟩
    · exact Outcome.lift_map.mpr (Outcome.lift_self (fun w => ⟨rfl, rfl, later⟩) _)

theorem Vault.Alike.clear {v v' : Vault} (alike : v.Alike v') (env : EraseOutcome) (key : Bytes) :
    Outcome.Lift SameAnswer (v.clear env key) (v'.clear env key) := by
  simp only [Vault.clear, alike.flash]
  split
  · exact .done ⟨rfl, alike⟩
  · split
    · exact .done ⟨rfl, alike⟩
    · split
      · exact Outcome.lift_map.mpr (Outcome.lift_self (fun w => ⟨rfl, rfl, alike.draws⟩) _)
      · exact .done ⟨rfl, alike⟩

/-- An answer of a keystore and the keystore after it, as the world sees them. -/
def SameKeystoreAnswer {α : Type} (a b : α × Keystore) : Prop :=
  a.1 = b.1 ∧ a.2.vault.Alike b.2.vault

theorem keystoreProvision_alike {k k' : Keystore} (alike : k.vault.Alike k'.vault) (env : FlashEnv)
    (pkB64 skB64 deviceId : Bytes) :
    Outcome.Lift SameKeystoreAnswer (keystoreProvision k env pkB64 skB64 deviceId)
      (keystoreProvision k' env pkB64 skB64 deviceId) := by
  have answers := alike.provision env pkB64 skB64 deviceId
  rw [← keystoreProvision_vault, ← keystoreProvision_vault] at answers
  have lift := Outcome.lift_map.mp answers
  exact lift

theorem keystoreClear_alike {k k' : Keystore} (alike : k.vault.Alike k'.vault)
    (coherent : Coherent k) (coherent' : Coherent k') (env : EraseOutcome) (key : Bytes) :
    Outcome.Lift SameKeystoreAnswer (keystoreClear k env key) (keystoreClear k' env key) := by
  have answers := alike.clear env key
  rw [← keystoreClear_vault coherent, ← keystoreClear_vault coherent'] at answers
  have lift := Outcome.lift_map.mp answers
  exact lift

end Roman
