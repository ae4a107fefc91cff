import Roman.Commands
import Roman.HttpServer.Replies
import Roman.HttpServer.Routes

/-! # Requests as commands to the keystore

The command of a request is decided by its text alone. The server follows it: the
keystore ends where the command leaves it, up to reading the record. Nothing here
needs a coherent cache.
-/

namespace Roman

open CMem CStr NorFlash TweetNacl

def writeCommand (contentLength : Int) (body : Bytes) : Command :=
  if body = [] ∨ contentLength > HTTP_FORM_BODY_LIMIT then .read
  else match jsonField body (ascii "pk") 64, jsonField body (ascii "sk") 128,
      jsonField body (ascii "device_id") (RECORD_MAX_DEVICE_ID + 1) with
  | some pkB64, some skB64, some deviceId => .provision pkB64 skB64 deviceId
  | _, _, _ => .read

def clearCommand (contentLength : Int) (body : Bytes) : Command :=
  if body = [] ∨ contentLength > HTTP_FORM_BODY_LIMIT then .read
  else match clearKey body with
  | some key => .clear key
  | none => .read

def debugCommand (contentLength : Int) (body : Bytes) : Command :=
  if contentLength > HTTP_DEBUG_BODY_LIMIT then .read
  else if debugAction body = ascii "clear" then .wipe
  else .read

/-- The command of the request in the buffer. -/
def HttpState.command (w : World) (st : HttpState) : Command :=
  match st.route w with
  | .write => writeCommand st.contentLength (bodyText st.body)
  | .clear => clearCommand st.contentLength (bodyText st.body)
  | .debug => debugCommand st.contentLength (bodyText st.body)
  | _ => .read

/-- The server does what the command does to the keystore, and from there at most reads. -/
def FollowsLoads (real : Outcome Http) (ideal : Outcome Keystore) : Prop :=
  Outcome.Lift (fun s k => Loads k s.keystore) real ideal

/-- The self-test fills its own array and the box of the reader. -/
theorem debugSelftest_loads (s : Http) : Loads s.keystore (debugSelftest s).2.2.2.keystore := by
  simp only [debugSelftest]
  split
  · exact .refl
  · have read : Loads s.keystore
        { s.keystore with
          store := (storageRead s.keystore.store s.debugReadBuf STORAGE_MAX_PAYLOAD).2.2 } := by
      obtain ⟨boxRead, eq⟩ := storageRead_eq s.keystore.store s.debugReadBuf
        (Nat.le_refl STORAGE_MAX_PAYLOAD)
      rw [eq]
      cases sectionPayload s.keystore.store.flash with
      | none => exact .beside .refl rfl rfl ⟨rfl, rfl, rfl, rfl⟩
      | some p => exact .beside .refl rfl rfl ⟨rfl, rfl, rfl, rfl⟩
    split
    · exact read
    · exact read

theorem debugEdKey_keystore (s : Http) : (debugEdKey s).keystore = (keystoreLoad s.keystore).2 := by
  have key := keystorePublicKey_after s.keystore s.debugPk
  simp only [debugEdKey]
  split <;> exact key

theorem debugXKey_keystore (s : Http) : (debugXKey s).keystore = s.keystore := by
  simp only [debugXKey]
  split <;> rfl

theorem debugId_keystore (s : Http) : (debugId s).keystore = (keystoreLoad s.keystore).2 :=
  keystoreDeviceId_after s.keystore s.debugDeviceId (RECORD_MAX_DEVICE_ID + 1)

theorem debugSnapshot_keystore (p : Platform) (s : Http) : (debugSnapshot p s).2.keystore =
    (keystoreLoad (keystoreLoad (debugSelftest s).2.2.2.keystore).2).2 := by
  simp only [debugSnapshot]
  split <;> simp only [debugId_keystore, debugXKey_keystore, debugEdKey_keystore]

theorem debugSnapshot_loads (p : Platform) (s : Http) :
    Loads s.keystore (debugSnapshot p s).2.keystore := by
  rw [debugSnapshot_keystore]
  exact (debugSelftest_loads s).load.load

theorem debugSnapshot_quiet (p : Platform) (s : Http) :
    Quiet s.keystore (debugSnapshot p s).2.keystore :=
  (debugSnapshot_loads p s).quiet

theorem handleDebug_follows (p : Platform) (s : Http) (contentLength : Int) (env : FlashEnv)
    (body : Option Bytes) :
    FollowsLoads ((handleDebug p s contentLength env body).map (·.2.2))
      ((debugCommand contentLength (bodyText body)).run env s.keystore) := by
  simp only [handleDebug, debugCommand]
  by_cases large : contentLength > HTTP_DEBUG_BODY_LIMIT
  · simp only [if_pos large]
    exact .done .refl
  simp only [if_neg large]
  by_cases snapshot : debugAction (bodyText body) = ascii "snapshot"
  · have other : ascii "snapshot" ≠ ascii "clear" := by decide
    simp only [snapshot, if_true, if_neg other, Outcome.map_done, Command.run]
    exact .done (debugSnapshot_loads p s)
  simp only [if_neg snapshot]
  by_cases clear : debugAction (bodyText body) = ascii "clear"
  · simp only [if_pos clear, storageClear, Command.run]
    cases storageErase s.keystore.store.flash env.erase with
    | cut f => exact .cut f
    | done w =>
        obtain ⟨ok, f⟩ := w
        cases ok <;> exact .done .refl
  · simp only [if_neg clear]
    split <;> exact .done .refl

theorem writeReply_follows (k : Keystore) (contentLength : Int) (env : FlashEnv) (body : Bytes) :
    (writeReply k contentLength env body).map (·.2) =
      (writeCommand contentLength body).run env k := by
  cases set : keystoreWriten k with
  | true =>
      have done : ∀ command : Command, (command = .read ∨ ∃ a b c, command = .provision a b c) →
          command.run env k = .done k := by
        rintro command (rfl | ⟨a, b, c, rfl⟩)
        · rfl
        · rw [Command.run, keystoreProvision_writen set]
          rfl
      simp only [writeReply, set, if_true]
      refine (done _ ?_).symm
      simp only [writeCommand]
      split
      · exact .inl rfl
      · split
        · exact .inr ⟨_, _, _, rfl⟩
        · exact .inl rfl
  | false =>
      simp only [writeReply, set, Bool.false_eq_true, if_false, writeCommand]
      by_cases empty : body = []
      · simp only [empty, true_or, if_true]
        rfl
      by_cases large : contentLength > HTTP_FORM_BODY_LIMIT
      · simp only [empty, large, if_false, or_true, if_true]
        rfl
      simp only [empty, large, or_self, if_false]
      cases jsonField body (ascii "pk") 64 with
      | none => rfl
      | some pkB64 =>
          cases jsonField body (ascii "sk") 128 with
          | none => rfl
          | some skB64 =>
              cases jsonField body (ascii "device_id") (RECORD_MAX_DEVICE_ID + 1) with
              | none => rfl
              | some deviceId => exact Outcome.map_map _ _ _

theorem clearReply_follows (k : Keystore) (contentLength : Int) (env : FlashEnv) (body : Bytes) :
    (clearReply k contentLength env body).map (·.2) =
      (clearCommand contentLength body).run env k := by
  simp only [clearReply, clearCommand]
  by_cases empty : body = []
  · simp only [empty, true_or, if_true]
    rfl
  by_cases large : contentLength > HTTP_FORM_BODY_LIMIT
  · simp only [empty, large, if_false, or_true, if_true]
    rfl
  simp only [empty, large, or_self, if_false]
  cases clearKey body with
  | none => rfl
  | some key => exact Outcome.map_map _ _ _

theorem handleWritePost_follows (s : Http) (contentLength : Int) (env : FlashEnv)
    (body : Option Bytes) :
    FollowsLoads ((handleWritePost s contentLength env body).map (·.2))
      ((writeCommand contentLength (bodyText body)).run env s.keystore) := by
  have reply := congrArg (Outcome.map (·.2)) (handleWritePost_spec s contentLength env body)
  rw [writeReply_follows, Outcome.map_map] at reply
  rw [← reply]
  exact Outcome.lift_map.mpr (Outcome.lift_self (fun _ => .refl) _)

theorem handleClearPost_follows (s : Http) (contentLength : Int) (env : FlashEnv)
    (body : Option Bytes) :
    FollowsLoads ((handleClearPost s contentLength env body).map (·.2))
      ((clearCommand contentLength (bodyText body)).run env s.keystore) := by
  have reply := congrArg (Outcome.map (·.2)) (handleClearPost_spec s contentLength env body)
  rw [clearReply_follows, Outcome.map_map] at reply
  rw [← reply]
  exact Outcome.lift_map.mpr (Outcome.lift_self (fun _ => .refl) _)

/-- Every dispatched request follows its command. -/
theorem httpRoute_loads (w : World) (st : HttpState) (s : Http) :
    FollowsLoads ((httpRoute w st s).map (·.2.2)) ((st.command w).run w.flash s.keystore) := by
  rw [httpRoute_eq, HttpState.command]
  cases st.route w with
  | malformed | notFound | fixed r => exact .done .refl
  | info => exact .done (handleInfo_loads s.counted)
  | sign => exact .done (handleSignPost_loads s.counted st.body)
  | write =>
      have follows := handleWritePost_follows s.counted st.contentLength w.flash st.body
      simp only [onConnection, Outcome.map_map]
      exact follows
  | clear =>
      have follows := handleClearPost_follows s.counted st.contentLength w.flash st.body
      simp only [onConnection, Outcome.map_map]
      exact follows
  | debug =>
      have follows := handleDebug_follows w.platform s.counted st.contentLength w.flash st.body
      simp only [Outcome.map_map]
      exact follows

end Roman
