import Roman.Answers
import Roman.CacheRuns

/-! # One-shot provisioning

The marker locks the board. While it is set POST /write is refused, and only an
erase takes it away: one through POST /clear with the provisioned key, or one
through POST /debug. Power cuts are left out here, a cut erase may take the marker
away as well.
-/

namespace Roman

open CMem CStr NorFlash TweetNacl

namespace BoardEvent

/-- The power does not fail in the event. -/
structure Whole (a : BoardEvent) : Prop where
  erase : ∀ reached, a.env.erase ≠ .cut reached
  program : ∀ n, a.env.program ≠ .cut n

/-- The event is POST /debug with the clear action, or POST /clear with a key that
    decodes to the seed or to the seed and the public key. -/
inductive Unlocks (seed pk : Bytes) (a : BoardEvent) : Prop where
  | debug (wipe : a.command = .wipe)
  | clear {key : Bytes} (clear : a.command = .clear key)
      (opens : b64Bytes 64 key = some seed ∨ b64Bytes 64 key = some (seed ++ pk))

/-- `keystore_clear` returns KEYSTORE_CLEAR_OK, or the debug route erases. -/
inductive Erased (s : Http) (a : BoardEvent) : Prop where
  | clear {key : Bytes} (clear : a.command = .clear key)
      (ok : ∃ k, keystoreClear s.keystore a.env.erase key = .done (.ok, k))
  | debug (wipe : a.command = .wipe) (ok : a.env.erase = .ok)

/-- The event dispatches a POST /write that is answered with this status. -/
def Answers (status : Nat) (s : Http) (a : BoardEvent) : Prop :=
  a.Posts (ascii "/write") ∧ ∃ r, a.response s = some r ∧ r.status = status

end BoardEvent

/-- With the marker set, flash stays as it is unless the event erases. -/
theorem boardStep_locked {s : Http} (settled : Settled s.keystore) (set : storageWriten s.flash = true)
    {a : BoardEvent} (whole : a.Whole) :
    (boardStep s a).flash = s.flash ∨ (a.command.Erases s.keystore ∧ a.env.erase = .ok) := by
  have locked : ∀ {r}, ¬ a.command.Writes s.keystore r := fun writes => by
    have unset : storageWriten s.flash = false := writes.unset
    rw [set] at unset
    cases unset
  cases boardStep_change settled a with
  | moved change quiet =>
      have after : (boardStep s a).flash = _ := quiet.flash
      rw [after]
      cases change with
      | kept flash coherent_iff refused => exact .inl flash
      | stranded writes erase program flash cache => exact absurd writes locked
      | written writes erase program flash invalid => exact absurd writes locked
      | erased erases erase flash invalid => exact .inr ⟨erases, erase⟩
  | lostPower cut boots =>
      cases cut with
      | inErase reached erase flash => exact absurd erase (whole.erase reached)
      | inProgram n writes erase program flash => exact absurd program (whole.program n)
  | rebooted reads boots =>
      rw [boots]
      exact .inl (boot_quiet _ _).1

theorem erases_unlocks {s : Http} {a : BoardEvent} {r : Record} {seed pk : Bytes}
    (stored : storedRecord s.flash = some r) (key : r.sk.bytes = seed ++ pk) (size : seed.length = 32)
    (erases : a.command.Erases s.keystore) : a.Unlocks seed pk := by
  generalize command : a.command = c at erases
  cases erases with
  | clear set stored' opens =>
      rw [show storedRecord s.keystore.store.flash = some r from stored, Option.some.injEq] at stored'
      subst stored'
      rw [OpensErase, key, List.take_left' size] at opens
      exact .clear command opens
  | wipe => exact .debug command

theorem erases_erased {s : Http} {a : BoardEvent} (settled : Settled s.keystore)
    (erases : a.command.Erases s.keystore) (ok : a.env.erase = .ok) : a.Erased s := by
  generalize command : a.command = c at erases
  cases erases with
  | clear set stored opens =>
      obtain ⟨k', -, erases, -⟩ := keystoreClear_eq (settled set) set stored _
      refine .clear command ?_
      rw [erases opens, ok]
      exact ⟨_, rfl⟩
  | wipe => exact .debug command ok

/-- A dispatched POST /write is `writeReply` on the keystore. -/
theorem BoardEvent.Posts.write {a : BoardEvent} (posts : a.Posts (ascii "/write")) (s : Http) :
    ∃ contentLength body, a.Yields s (writeReply s.keystore contentLength a.env body) := by
  obtain ⟨w, st, dispatched, line⟩ := posts
  have route : st.route w = .write := by
    rw [HttpState.route, line]
    rfl
  rw [dispatched_env dispatched]
  exact ⟨_, _, yields_write dispatched s route⟩

theorem writeReply_set {k : Keystore} (set : storageWriten k.store.flash = true) (contentLength : Int)
    (env : FlashEnv) (body : Bytes) :
    ∃ r, writeReply k contentLength env body = .done (r, k) ∧ r.status = 403 := by
  rw [writeReply, if_pos (show keystoreWriten k = true from set)]
  exact ⟨_, rfl, rfl⟩

theorem writeReply_of_command {k : Keystore} (unset : storageWriten k.store.flash = false) {contentLength : Int}
    {body pkB64 skB64 deviceId : Bytes}
    (command : writeCommand contentLength body = .provision pkB64 skB64 deviceId) (env : FlashEnv) :
    writeReply k contentLength env body = (keystoreProvision k env pkB64 skB64 deviceId).map fun w =>
      (provisionReply w.2.store.flash w.1, w.2) := by
  unfold writeCommand at command
  split at command
  · cases command
  rename_i form
  rw [not_or] at form
  split at command
  · rename_i pk sk id
    cases command
    rw [writeReply, if_neg (by rw [keystoreWriten, unset]; exact Bool.false_ne_true), if_neg form.1, if_neg form.2,
      pk, sk, id]
  · cases command

/-- A POST /write answered with 200 has provisioned. -/
theorem writeReply_provision {k k' : Keystore} {contentLength : Int} {env : FlashEnv} {body : Bytes}
    {r : Response} (done : writeReply k contentLength env body = .done (r, k')) (ok : r.status = 200) :
    ∃ pkB64 skB64 deviceId, writeCommand contentLength body = .provision pkB64 skB64 deviceId ∧
      keystoreProvision k env pkB64 skB64 deviceId = .done (.ok, k') := by
  have refused : ∀ {status : Nat} {text : String}, status ≠ 200 →
      (.done (reply status text, k) : Outcome (Response × Keystore)) = .done (r, k') → False := by
    intro status text other eq
    cases eq
    exact other ok
  rw [writeReply] at done
  split at done
  · exact (refused (by decide) done).elim
  split at done
  · exact (refused (by decide) done).elim
  rename_i nonempty
  split at done
  · exact (refused (by decide) done).elim
  rename_i small
  split at done
  · exact (refused (by decide) done).elim
  rename_i pkB64 pk
  split at done
  · exact (refused (by decide) done).elim
  rename_i skB64 sk
  split at done
  · exact (refused (by decide) done).elim
  rename_i deviceId id
  have command : writeCommand contentLength body = .provision pkB64 skB64 deviceId := by
    rw [writeCommand, if_neg (not_or.mpr ⟨nonempty, small⟩), pk, sk, id]
  obtain ⟨⟨status, after⟩, provision, eq⟩ := Outcome.map_done_iff.mp done
  cases eq
  cases status with
  | ok => exact ⟨_, _, _, command, provision⟩
  | errArg | errMismatch | errAlready | errFlash => simp [provisionReply, reply] at ok

/-- It has set the marker. -/
theorem writeReply_accepted {k k' : Keystore} {contentLength : Int} {env : FlashEnv} {body : Bytes}
    {r : Response} (done : writeReply k contentLength env body = .done (r, k')) (ok : r.status = 200) :
    storageWriten k'.store.flash = true := by
  obtain ⟨pkB64, skB64, deviceId, -, provision⟩ := writeReply_provision done ok
  obtain ⟨record, -, -, -, flash, -, -⟩ := keystoreProvision_ok provision
  rw [flash]
  exact storageWriten_committed _ _ _

def Reachable (s : Http) : Prop := ∃ f e events, s = boardRun (.boot f e) events

theorem Reachable.boot (f : Flash) (e : Entropy) : Reachable (.boot f e) := ⟨f, e, [], rfl⟩

theorem Reachable.settled {s : Http} (reachable : Reachable s) : Settled s.keystore := by
  obtain ⟨f, e, events, rfl⟩ := reachable
  exact boardRun_settled f e events

theorem provisioned_record {s : Http} (settled : Settled s.keystore)
    (provisioned : (keystoreState s.keystore).1 = .provisioned) :
    storageWriten s.flash = true ∧ ∃ r, storedRecord s.flash = some r ∧
      (keystoreSigningKey s.keystore (.fill _ 0)).2.1 = r.sk := by
  cases writen : storageWriten s.flash with
  | false =>
      rw [keystoreState, if_pos (show storageWriten s.keystore.store.flash = false from writen)]
        at provisioned
      cases provisioned
  | true =>
      have coherent := settled writen
      have key := keystoreSigningKey_spec coherent (.fill _ 0)
      rw [keystoreState_spec coherent,
        if_neg (by rw [show storageWriten s.keystore.store.flash = true from writen]; decide)] at provisioned
      cases stored : storedRecord s.keystore.store.flash with
      | none =>
          rw [stored] at provisioned
          cases provisioned
      | some r =>
          rw [stored] at key
          exact ⟨rfl, r, stored, by rw [key]⟩

/-- While the marker is set every POST /write is refused. -/
theorem answers_of_set {s : Http} (set : storageWriten s.flash = true) {a : BoardEvent}
    (posts : a.Posts (ascii "/write")) : a.Answers 403 s := by
  obtain ⟨contentLength, body, answers⟩ := posts.write s
  obtain ⟨r, done, status⟩ := writeReply_set set contentLength a.env body
  rw [done] at answers
  exact ⟨posts, r, answers.1, status⟩

/-- A board that accepts a POST /write has the marker set from then on. -/
theorem set_of_answers {s : Http} {a : BoardEvent} (accepted : a.Answers 200 s) :
    storageWriten (boardStep s a).flash = true := by
  obtain ⟨posts, r, response, ok⟩ := accepted
  obtain ⟨contentLength, body, answers⟩ := posts.write s
  obtain ⟨k, done, keystore⟩ := answers.status response
  rw [Http.flash, keystore]
  exact writeReply_accepted done ok

theorem not_answers_twice {s : Http} {a : BoardEvent} (refused : a.Answers 403 s) : ¬ a.Answers 200 s := by
  rintro ⟨-, r', response', status'⟩
  obtain ⟨-, r, response, status⟩ := refused
  rw [response, Option.some.injEq] at response'
  rw [response', status'] at status
  cases status

/-- Until somebody unlocks a provisioned board its flash stays as it is. -/
theorem boardRun_locked {s : Http} (settled : Settled s.keystore) {r : Record} {seed pk : Bytes}
    (set : storageWriten s.flash = true) (stored : storedRecord s.flash = some r)
    (key : r.sk.bytes = seed ++ pk) (size : seed.length = 32) {events : List BoardEvent}
    (whole : ∀ a ∈ events, a.Whole) (locked : ∀ a ∈ events, ¬ a.Unlocks seed pk) :
    (boardRun s events).flash = s.flash := by
  have start : Settled s.keystore ∧ s.flash = s.flash := ⟨settled, rfl⟩
  refine (Runs.run_invariant (fun s' : Http => Settled s'.keystore ∧ s'.flash = s.flash) start events ?_).2
  rintro s' a member ⟨settled', same⟩
  refine ⟨boardStep_settled settled' a, ?_⟩
  obtain kept | ⟨erases, -⟩ := boardStep_locked settled' (by rw [same, set]) (whole a member)
  · exact kept.trans same
  · exact absurd (erases_unlocks (by rw [same, stored]) key size erases) (locked a member)

/-- One-shot provisioning, over every run without a power cut from every reachable
    state. On a provisioned board nothing changes and every POST /write is answered
    403 until a request unlocks it with the key or by /debug; and without an erase
    at most one POST /write is answered 200. -/
theorem provisioned_once {s : Http} (reachable : Reachable s) {events : List BoardEvent}
    (whole : ∀ a ∈ events, a.Whole) :
    (∀ seed pk, (keystoreState s.keystore).1 = .provisioned →
      (keystoreSigningKey s.keystore (.fill _ 0)).2.1.bytes = seed ++ pk → seed.length = 32 →
      (∀ a ∈ events, ¬ a.Unlocks seed pk) →
      ∀ before, before <+: events →
        read (boardRun s before).flash 0 STORAGE_TOTAL_BYTES = read s.flash 0 STORAGE_TOTAL_BYTES ∧
        ∀ a, before ++ [a] <+: events → a.Posts (ascii "/write") → a.Answers 403 (boardRun s before)) ∧
    (Runs.Along boardStep (fun s a => ¬ a.Erased s) s events →
      ∀ first a second b, first ++ [a] <+: events → second ++ [b] <+: events →
        a.Answers 200 (boardRun s first) → b.Answers 200 (boardRun s second) →
        first.length = second.length) := by
  have settled := reachable.settled
  constructor
  · intro seed pk provisioned key size locked before isPrefix
    obtain ⟨set, r, stored, sk⟩ := provisioned_record settled provisioned
    have inside : ∀ a ∈ before, a ∈ events := fun a member => isPrefix.subset member
    have same := boardRun_locked settled set stored (by rw [← sk, key]) size
      (fun a member => whole a (inside a member)) (fun a member => locked a (inside a member))
    rw [same]
    exact ⟨rfl, fun a _ posts => answers_of_set (by rw [same, set]) posts⟩
  · intro along first a second b one other accepted again
    refine Runs.Along.once (fun s : Http => Settled s.keystore)
      (fun s : Http => storageWriten s.flash = true) settled (fun s a settled => boardStep_settled settled a)
      (fun s a _ => set_of_answers) ?_ ?_ along one other accepted again
    · intro s a member settled set kept
      obtain same | ⟨erases, ok⟩ := boardStep_locked settled set (whole a member)
      · rw [same, set]
      · exact absurd (erases_erased settled erases ok) kept
    · exact fun s a set accepted => not_answers_twice (answers_of_set set accepted.1) accepted

/-- The sample board, provisioned and booted. -/
def provisionedBoard : Http := .boot (committed (fun _ => 0xFF) sampleRecord (drawn (.boot silent))) silent

theorem boot_readsBack {f : Flash} {r : Record} (set : storageWriten f = true)
    (stored : storedRecord f = some r) (e : Entropy) : ReadsBack (Http.boot f e).keystore r := by
  obtain ⟨flash, coherent⟩ := boot_quiet f e
  rw [readsBack_iff coherent, ← Http.flash, flash]
  exact ⟨set, stored⟩

theorem provisionedBoard_readsBack : ReadsBack provisionedBoard.keystore sampleRecord := by
  rw [provisionedBoard]
  exact boot_readsBack (storageWriten_committed _ _ _) (storedRecord_committed _ _ _) silent

theorem provisionedBoard_reachable : Reachable provisionedBoard := .boot _ _

attribute [irreducible] provisionedBoard

/-- A second provisioning of that board, and a look at it. -/
def secondWrite : List BoardEvent := [writeEvent ⟨.ok, .ok⟩, infoEvent]

theorem provisioned_once_sample :
    (read (boardRun provisionedBoard secondWrite).flash 0 STORAGE_TOTAL_BYTES =
        read provisionedBoard.flash 0 STORAGE_TOTAL_BYTES ∧
      (writeEvent ⟨.ok, .ok⟩).Answers 403 provisionedBoard) ∧
    ∀ first a second b, first ++ [a] <+: secondWrite → second ++ [b] <+: secondWrite →
      a.Answers 200 (boardRun provisionedBoard first) → b.Answers 200 (boardRun provisionedBoard second) →
      first.length = second.length := by
  have whole : ∀ a ∈ secondWrite, a.Whole := by
    intro a member
    simp only [secondWrite, List.mem_cons, List.not_mem_nil, or_false] at member
    obtain rfl | rfl := member
    · exact ⟨by simp [writeEvent_env], by simp [writeEvent_env]⟩
    · exact ⟨by simp [infoEvent_env], by simp [infoEvent_env]⟩
  have quiet : ∀ a ∈ secondWrite, a.command ≠ .wipe ∧ ∀ key, a.command ≠ .clear key := by
    intro a member
    simp only [secondWrite, List.mem_cons, List.not_mem_nil, or_false] at member
    obtain rfl | rfl := member
    · rw [writeEvent_command]
      exact ⟨nofun, nofun⟩
    · rw [infoEvent_command]
      exact ⟨nofun, nofun⟩
  obtain ⟨locked, once⟩ := provisioned_once provisionedBoard_reachable whole
  have key : (keystoreSigningKey provisionedBoard.keystore (.fill _ 0)).2.1.bytes =
      sampleSeed ++ samplePk := by
    rw [(provisionedBoard_readsBack.signingKey _).2, sampleRecord]
  have unmoved := locked sampleSeed samplePk provisionedBoard_readsBack.state key (by decide) <| by
    rintro a member (wipe | ⟨clear, -⟩)
    · exact (quiet a member).1 wipe
    · exact (quiet a member).2 _ clear
  refine ⟨⟨(unmoved secondWrite (List.prefix_refl _)).1, ?_⟩, once ?_⟩
  · exact (unmoved [] List.nil_prefix).2 (writeEvent ⟨.ok, .ok⟩) ⟨[infoEvent], rfl⟩ (writeEvent_posts _)
  · exact Runs.along_of_forall fun s a member erased => by
      cases erased with
      | clear clear ok => exact (quiet a member).2 _ clear
      | debug wipe ok => exact (quiet a member).1 wipe

end Roman
