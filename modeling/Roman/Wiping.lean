import Roman.HttpServer.Counters
import Roman.OneShot

/-! # The signing key in RAM

POST /sign copies the key to a static array of its own and wipes it on every way out.
The cache is wiped whenever it is given up, and what a failed load leaves in it is what
was there before.
-/

namespace Roman

open CMem CStr NorFlash

/-- Without a valid cache there is no key in it. -/
def NoStrayKey (k : Keystore) : Prop := k.cacheValid = false → k.cachedSk = .fill 64 0

/-- Nothing of a key is left in the cache. -/
structure KeyWiped (k : Keystore) : Prop where
  invalid : k.cacheValid = false
  cachedSk : k.cachedSk = .fill 64 0

theorem KeyWiped.noStrayKey {k : Keystore} (wiped : KeyWiped k) : NoStrayKey k := fun _ => wiped.cachedSk

theorem keystoreInvalidate_wiped (k : Keystore) : KeyWiped (keystoreInvalidate k) := ⟨rfl, rfl⟩

theorem NoStrayKey.of_sameCache {k k' : Keystore} (clean : NoStrayKey k) (same : SameCache k k') : NoStrayKey k' := by
  intro invalid
  rw [same.sk]
  exact clean (same.valid ▸ invalid)

/-- The array for the id has room for every id, so the decoder fails before it writes. -/
theorem keystoreLoad_noStrayKey {k : Keystore} (clean : NoStrayKey k) : NoStrayKey (keystoreLoad k).2 := by
  unfold keystoreLoad
  dsimp only
  split
  · exact clean
  split
  · exact clean
  rw [recordDecode_eq]
  generalize decoded _ = record
  cases record with
  | none => exact clean
  | some r => exact nofun

theorem Loads.noStrayKey {k k' : Keystore} (loads : Loads k k') (clean : NoStrayKey k) : NoStrayKey k' := by
  induction loads with
  | refl => exact clean
  | load before ih => exact keystoreLoad_noStrayKey ih
  | beside before flash rng cache ih => exact ih.of_sameCache cache

/-- A provisioning wipes the cache or leaves it alone. -/
theorem keystoreProvision_cache {k k' : Keystore} {env : FlashEnv} {pkB64 skB64 deviceId : Bytes}
    {status : KeystoreStatus} (done : keystoreProvision k env pkB64 skB64 deviceId = .done (status, k')) :
    (status = .ok ∧ KeyWiped k') ∨ (status ≠ .ok ∧ SameCache k k') := by
  have refused : ∀ {status₁ k₁}, Outcome.done (status₁, k₁) = Outcome.done (status, k') → status₁ ≠ .ok →
      SameCache k k₁ → (status = .ok ∧ KeyWiped k') ∨ (status ≠ .ok ∧ SameCache k k') := by
    intro status₁ k₁ eq other same
    cases eq
    exact .inr ⟨other, same⟩
  unfold keystoreProvision at done
  dsimp only at done
  repeat' split at done
  all_goals first
    | exact refused done nofun ⟨rfl, rfl, rfl, rfl⟩
    | (cases done; done)
    | skip
  all_goals
    cases done
    exact .inl ⟨rfl, keystoreInvalidate_wiped _⟩

/-- A clear wipes the cache, has nothing to clear, or has loaded the record at most. -/
theorem keystoreClear_cache {k k' : Keystore} {env : EraseOutcome} {key : Bytes} {status : KeystoreClearStatus}
    (done : keystoreClear k env key = .done (status, k')) :
    (status = .ok ∧ KeyWiped k') ∨ (status = .empty ∧ storageWriten k.store.flash = false ∧ k' = k) ∨
      (status ≠ .ok ∧ status ≠ .empty ∧ SameCache (keystoreLoad k).2 k') := by
  have refused : ∀ {status₁ k₁}, Outcome.done (status₁, k₁) = Outcome.done (status, k') →
      status₁ ≠ .ok → status₁ ≠ .empty → SameCache (keystoreLoad k).2 k₁ →
      status ≠ .ok ∧ status ≠ .empty ∧ SameCache (keystoreLoad k).2 k' := by
    intro status₁ k₁ eq notOk notEmpty same
    cases eq
    exact ⟨notOk, notEmpty, same⟩
  unfold keystoreClear at done
  dsimp only at done
  split at done
  · rename_i unset
    cases done
    exact .inr (.inl ⟨rfl, unset, rfl⟩)
  repeat' split at done
  all_goals first
    | exact .inr (.inr (refused done nofun nofun ⟨rfl, rfl, rfl, rfl⟩))
    | (cases done; done)
    | skip
  cases done
  exact .inl ⟨rfl, keystoreInvalidate_wiped _⟩

theorem Command.run_noStrayKey {env : FlashEnv} {k k' : Keystore} {c : Command} (clean : NoStrayKey k)
    (ran : c.run env k = .done k') : NoStrayKey k' := by
  cases c with
  | read =>
      cases ran
      exact clean
  | provision pkB64 skB64 deviceId =>
      obtain ⟨⟨status, k₁⟩, done, eq⟩ := Outcome.map_done_iff.mp ran
      cases eq
      rcases keystoreProvision_cache done with ⟨-, wiped⟩ | ⟨-, same⟩
      · exact wiped.noStrayKey
      · exact clean.of_sameCache same
  | clear key =>
      obtain ⟨⟨status, k₁⟩, done, eq⟩ := Outcome.map_done_iff.mp ran
      cases eq
      rcases keystoreClear_cache done with ⟨-, wiped⟩ | ⟨-, -, rfl⟩ | ⟨-, -, same⟩
      · exact wiped.noStrayKey
      · exact clean
      · exact (keystoreLoad_noStrayKey clean).of_sameCache same
  | wipe =>
      obtain ⟨⟨ok, f⟩, done, eq⟩ := Outcome.map_done_iff.mp ran
      cases eq
      cases ok with
      | true => exact (keystoreInvalidate_wiped _).noStrayKey
      | false => exact clean

theorem boot_noStrayKey (f : Flash) (e : Entropy) : NoStrayKey (Http.boot f e).keystore := by
  have blank : NoStrayKey (Keystore.boot f e) := fun _ => rfl
  exact (Loads.state .refl).noStrayKey blank

theorem boardStep_noStrayKey {s : Http} (clean : NoStrayKey s.keystore) (a : BoardEvent) :
    NoStrayKey (boardStep s a).keystore := by
  cases a with
  | reboot e => exact boot_noStrayKey s.flash e
  | recv w st data next =>
      have step := boardStep_loads w st data next s
      cases ran : (BoardEvent.recv w st data next).command.run w.flash s.keystore with
      | done k =>
          rw [ran] at step
          exact step.noStrayKey (Command.run_noStrayKey clean ran)
      | cut f =>
          rw [ran] at step
          rw [step]
          exact boot_noStrayKey f next

theorem handleSignPost_signSk {s : Http} (wiped : s.signSk = .fill 64 0) (body : Option Bytes) :
    (handleSignPost s body).2.signSk = .fill 64 0 := by
  have missed : (keystoreSigningKey s.keystore s.signSk).1 = false →
      (keystoreSigningKey s.keystore s.signSk).2.1 = .fill 64 0 := by
    intro none
    unfold keystoreSigningKey at none ⊢
    dsimp only at none ⊢
    split at none
    · rw [if_pos (by assumption)]
      exact wiped
    · cases none
  unfold handleSignPost
  dsimp only
  split
  · exact wiped
  split
  · rename_i none
    exact missed none
  repeat' split
  all_goals rfl

/-- The other handlers do not touch it. -/
theorem handleWritePost_signSk {s s' : Http} {contentLength : Int} {env : FlashEnv} {body : Option Bytes}
    {r : Response} (done : handleWritePost s contentLength env body = .done (r, s')) : s'.signSk = s.signSk := by
  unfold handleWritePost writeAccepted at done
  dsimp only at done
  repeat' split at done
  all_goals cases done
  all_goals rfl

theorem handleClearPost_signSk {s s' : Http} {contentLength : Int} {env : FlashEnv} {body : Option Bytes}
    {r : Response} (done : handleClearPost s contentLength env body = .done (r, s')) : s'.signSk = s.signSk := by
  unfold handleClearPost at done
  dsimp only at done
  generalize (if (jsonGetString (bodyText body) (ascii "ed25519_sk") s.keyB64).1 then _ else _) = found at done
  repeat' split at done
  all_goals cases done
  all_goals rfl

theorem debugSelftest_signSk (s : Http) : (debugSelftest s).2.2.2.signSk = s.signSk := by
  unfold debugSelftest
  dsimp only
  split
  · rfl
  split <;> rfl

theorem debugKeys_signSk (s : Http) : (debugId (debugXKey (debugEdKey s))).signSk = s.signSk := by
  have ed : (debugEdKey s).signSk = s.signSk := by
    unfold debugEdKey
    dsimp only
    split <;> rfl
  have x : (debugXKey (debugEdKey s)).signSk = (debugEdKey s).signSk := by
    unfold debugXKey
    dsimp only
    split <;> rfl
  exact x.trans ed

theorem debugSnapshot_signSk (p : Platform) (s : Http) : (debugSnapshot p s).2.signSk = s.signSk := by
  have selftest := debugSelftest_signSk s
  have text := (debugSnapshot_text p s).signSk
  rw [← text, debugKeys_signSk]
  exact selftest

theorem handleDebug_signSk {p : Platform} {s s' : Http} {contentLength : Int} {env : FlashEnv} {body : Option Bytes}
    {r : Response} {reset : Bool} (done : handleDebug p s contentLength env body = .done (r, reset, s')) :
    s'.signSk = s.signSk := by
  unfold handleDebug at done
  dsimp only at done
  split at done
  · cases done
    rfl
  split at done
  · cases done
    exact debugSnapshot_signSk p s
  repeat' split at done
  all_goals cases done
  all_goals rfl

theorem httpRoute_signSk {w : World} {st st' : HttpState} {s s' : Http} {r : Response}
    (wiped : s.signSk = .fill 64 0) (done : httpRoute w st s = .done (r, st', s')) : s'.signSk = .fill 64 0 := by
  have counted : s.counted.signSk = .fill 64 0 := wiped
  rw [httpRoute_eq] at done
  cases route : st.route w with
  | malformed | notFound | fixed answer | info =>
      rw [route] at done
      cases done
      exact wiped
  | sign =>
      rw [route] at done
      cases done
      exact handleSignPost_signSk counted st.body
  | write =>
      rw [route] at done
      obtain ⟨⟨r', s₁⟩, handled, eq⟩ := Outcome.map_done_iff.mp done
      cases eq
      exact (handleWritePost_signSk handled).trans counted
  | clear =>
      rw [route] at done
      obtain ⟨⟨r', s₁⟩, handled, eq⟩ := Outcome.map_done_iff.mp done
      cases eq
      exact (handleClearPost_signSk handled).trans counted
  | debug =>
      rw [route] at done
      obtain ⟨⟨r', reset, s₁⟩, handled, eq⟩ := Outcome.map_done_iff.mp done
      cases eq
      exact (handleDebug_signSk handled).trans counted

theorem boardStep_signSk {s : Http} (wiped : s.signSk = .fill 64 0) (a : BoardEvent) :
    (boardStep s a).signSk = .fill 64 0 := by
  cases a with
  | reboot e => rfl
  | recv w st data next =>
      simp only [boardStep, httpRecvCb]
      cases httpReceive st data with
      | ignored | tooLarge st₁ | waiting st₁ => exact wiped
      | complete st₁ =>
          simp only [httpProcessRequest]
          cases route : httpRoute w st₁ s with
          | cut f => rfl
          | done answer =>
              obtain ⟨r, st₂, s'⟩ := answer
              exact httpRoute_signSk wiped route

/-- Neither array holds a key. -/
structure Http.KeyFree (s : Http) : Prop where
  signSk : s.signSk = .fill 64 0
  cachedSk : s.keystore.cachedSk = .fill 64 0

/-- The invariant of every run. -/
structure Http.Wiped (s : Http) : Prop where
  signSk : s.signSk = .fill 64 0
  cache : NoStrayKey s.keystore

theorem boot_wiped (f : Flash) (e : Entropy) : (Http.boot f e).Wiped := ⟨rfl, boot_noStrayKey f e⟩

theorem boardStep_wiped {s : Http} (wiped : s.Wiped) (a : BoardEvent) : (boardStep s a).Wiped :=
  ⟨boardStep_signSk wiped.signSk a, boardStep_noStrayKey wiped.cache a⟩

namespace BoardEvent

/-- A POST /write, a POST /clear or a clear through POST /debug that is answered with 200. -/
def Resets (s : Http) (a : BoardEvent) : Prop :=
  (a.Posts (ascii "/write") ∨ a.Posts (ascii "/clear") ∨ a.command = .wipe) ∧
    ∃ r, a.response s = some r ∧ r.status = 200

/-- A POST /clear with a key for a board without the marker whose cache holds a record. -/
structure Retains (s : Http) (a : BoardEvent) : Prop where
  clears : ∃ key, a.command = .clear key
  unset : storageWriten s.flash = false
  valid : s.keystore.cacheValid = true
  holds : s.keystore.cachedSk ≠ .fill 64 0

end BoardEvent

theorem keyFree_of_wiped {s : Http} (wiped : s.Wiped) {a : BoardEvent} {k : Keystore} (gone : KeyWiped k)
    (after : (boardStep s a).keystore = k) : (boardStep s a).KeyFree := by
  subst after
  exact ⟨(boardStep_wiped wiped a).signSk, gone.cachedSk⟩

/-- A POST /clear answered with 200 has wiped the cache, or found no marker. -/
theorem clearReply_cache {k k' : Keystore} {contentLength : Int} {env : FlashEnv} {body : Bytes} {r : Response}
    (done : clearReply k contentLength env body = .done (r, k')) (ok : r.status = 200) :
    KeyWiped k' ∨ (storageWriten k.store.flash = false ∧ k' = k ∧ ∃ key, clearCommand contentLength body = .clear key) := by
  have refused : ∀ {status : Nat} {text : String}, status ≠ 200 →
      (.done (reply status text, k) : Outcome (Response × Keystore)) = .done (r, k') → False := by
    intro status text other eq
    cases eq
    exact other ok
  unfold clearReply at done
  split at done
  · exact (refused (by decide) done).elim
  rename_i nonempty
  split at done
  · exact (refused (by decide) done).elim
  rename_i small
  split at done
  · exact (refused (by decide) done).elim
  rename_i key found
  obtain ⟨⟨status, after⟩, cleared, eq⟩ := Outcome.map_done_iff.mp done
  cases eq
  rcases keystoreClear_cache cleared with ⟨-, wiped⟩ | ⟨-, unset, rfl⟩ | ⟨notOk, notEmpty, -⟩
  · exact .inl wiped
  · refine .inr ⟨unset, rfl, key, ?_⟩
    rw [clearCommand, if_neg (not_or.mpr ⟨nonempty, small⟩), found]
  · cases status with
    | ok => exact absurd rfl notOk
    | empty => exact absurd rfl notEmpty
    | errArg | errDenied | errFlash => simp [clearStatusReply, reply] at ok

theorem clearReply_of_command {k : Keystore} {contentLength : Int} {env : FlashEnv} {body key : Bytes}
    (command : clearCommand contentLength body = .clear key) : clearReply k contentLength env body =
      (keystoreClear k env.erase key).map fun w => (clearStatusReply w.1, w.2) := by
  unfold clearCommand at command
  split at command
  · cases command
  rename_i form
  rw [not_or] at form
  split at command
  · rename_i found
    cases command
    rw [clearReply, if_neg form.1, if_neg form.2, found]
  · cases command

theorem route_of_line {w : World} {st : HttpState} {path : Bytes} {route : Route}
    (line : requestLine st.buf.cstr = some (ascii "POST", path)) (decides : routeOf w.debugAvailable (some (ascii "POST", path)) = route) :
    st.route w = route := by
  rw [HttpState.route, line, decides]

/-- A reset leaves no key behind, unless it is one that finds no marker and keeps the cache. -/
theorem resets_keyFree_iff {s : Http} (wiped : s.Wiped) (a : BoardEvent) :
    (a.Resets s → (boardStep s a).KeyFree) ↔ ¬ a.Retains s := by
  constructor
  · rintro free ⟨⟨key, command⟩, unset, valid, holds⟩
    obtain ⟨w, st, dispatched, route, clears⟩ := BoardEvent.dispatched_clear command
    have yields := BoardEvent.yields_clear dispatched s route
    rw [clearReply_of_command clears, keystoreClear_unset unset, Outcome.map_done] at yields
    obtain ⟨responds, kept⟩ := yields
    have posts : a.Posts (ascii "/clear") := ⟨w, st, dispatched, routeOf_clear route⟩
    have gone := (free ⟨.inr (.inl posts), _, responds, rfl⟩).cachedSk
    rw [kept] at gone
    exact holds gone
  · rintro keeps ⟨request, r, responds, ok⟩
    rcases request with write | clear | wipe
    · obtain ⟨contentLength, body, yields⟩ := write.write s
      obtain ⟨k, done, after⟩ := yields.status responds
      obtain ⟨pkB64, skB64, deviceId, -, provision⟩ := writeReply_provision done ok
      rcases keystoreProvision_cache provision with ⟨-, gone⟩ | ⟨other, -⟩
      · exact keyFree_of_wiped wiped gone after
      · exact absurd rfl other
    · obtain ⟨w, st, dispatched, line⟩ := clear
      have route : st.route w = .clear := route_of_line line rfl
      obtain ⟨k, done, after⟩ := (BoardEvent.yields_clear dispatched s route).status responds
      rcases clearReply_cache done ok with gone | ⟨unset, rfl, key, command⟩
      · exact keyFree_of_wiped wiped gone after
      · have clears : a.command = .clear key := by
          unfold BoardEvent.command HttpState.command
          rw [dispatched]
          dsimp only
          rw [route]
          exact command
        cases valid : s.keystore.cacheValid with
        | false => exact keyFree_of_wiped wiped ⟨valid, wiped.cache valid⟩ after
        | true =>
            by_contra held
            refine keeps ⟨⟨key, clears⟩, unset, valid, fun gone => held ?_⟩
            refine ⟨(boardStep_wiped wiped a).signSk, ?_⟩
            rw [after]
            exact gone
    · obtain ⟨k, done, after⟩ := (BoardEvent.yields_wipe wipe s).status responds
      obtain ⟨⟨cleared, store⟩, -, eq⟩ := Outcome.map_done_iff.mp done
      cases cleared with
      | true =>
          cases eq
          exact keyFree_of_wiped wiped (keystoreInvalidate_wiped _) after
      | false =>
          cases eq
          cases ok

/-- In every state of every run the signing key is wiped and a cache that is not valid
    holds no key; and the steps that reset the board leave no key behind exactly if none
    of them is a clear that keeps the cache. -/
theorem signingKey_wiped_run (f : Flash) (e : Entropy) (events : List BoardEvent) :
    (∀ before, before <+: events → (boardRun (.boot f e) before).signSk = .fill 64 0 ∧
      NoStrayKey (boardRun (.boot f e) before).keystore) ∧
    (Runs.Along boardStep (fun s a => a.Resets s → (boardStep s a).KeyFree) (.boot f e) events ↔
      Runs.Along boardStep (fun s a => ¬ a.Retains s) (.boot f e) events) := by
  constructor
  · intro before _
    have wiped := Runs.run_invariant Http.Wiped (boot_wiped f e) before fun s a _ wiped => boardStep_wiped wiped a
    exact ⟨wiped.signSk, wiped.cache⟩
  · apply Runs.along_congr Http.Wiped (boot_wiped f e)
    · exact fun s a _ wiped => boardStep_wiped wiped a
    · exact fun s a _ wiped => resets_keyFree_iff wiped a

def sampleClearBody : Bytes := ascii "\x7b\"sk\":\"a\"\x7d"

def sampleClear : Bytes := ascii "POST /clear HTTP/1.1\r\n\r\n" ++ sampleClearBody

theorem sampleClear_whole : WholeRequest sampleClear sampleClearBody where
  free := by decide +kernel
  small := by decide +kernel
  blank := by decide +kernel
  length := by decide +kernel

def clearEvent : BoardEvent := .recv (benchWorld ⟨.ok, .ok⟩) .accepted sampleClear silent

theorem clearEvent_command : clearEvent.command = .clear (ascii "a") := by
  have line : requestLine sampleClear = some (ascii "POST", ascii "/clear") := by decide +kernel
  have route : (HttpState.received sampleClear (contentLengthOf sampleClear)).route (benchWorld ⟨.ok, .ok⟩) = .clear :=
    route_of_line (by rw [sampleClear_whole.cstr, line]) rfl
  have small : ¬ (sampleClearBody = [] ∨ contentLengthOf sampleClear > HTTP_FORM_BODY_LIMIT) := by decide +kernel
  have key : clearKey sampleClearBody = some (ascii "a") := by decide +kernel
  simp only [BoardEvent.command, clearEvent, sampleClear_whole.dispatched, HttpState.command, route]
  rw [sampleClear_whole.bodyText_eq, clearCommand, HttpState.received_contentLength, if_neg small, key]

theorem loadedBoard_holds : loadedBoard.keystore.cachedSk ≠ .fill 64 0 := by
  have holds := (keystoreLoad_spec tornBoard_coherent).2.2 _ tornBoard_stored
  rw [loadedBoard_keystore, holds.sk]
  decide

/-- The record of a write that lost power is in the cache after GET /info, and stays
    there when POST /clear is told that nothing is stored. -/
theorem signingKey_retained :
    ¬ Runs.Along boardStep (fun s a => a.Resets s → (boardStep s a).KeyFree) blankBoard
      [writeEvent ⟨.ok, .cut 504⟩, infoEvent, clearEvent] := by
  have retains : clearEvent.Retains loadedBoard :=
    ⟨⟨_, clearEvent_command⟩, loadedBoard_unset, loadedBoard_valid, loadedBoard_holds⟩
  have wiped : loadedBoard.Wiped := by
    rw [loadedBoard, tornBoard, blankBoard]
    exact boardStep_wiped (boardStep_wiped (boot_wiped _ _) _) _
  intro along
  have cleared : clearEvent.Resets loadedBoard → (boardStep loadedBoard clearEvent).KeyFree := by
    rw [loadedBoard, tornBoard]
    exact along.2.2.1
  exact (resets_keyFree_iff wiped clearEvent).mp cleared retains

end Roman
