import Roman.HttpServer.Routes

/-! # What the counters do not reach

The counters and the text of the last snapshot are written by every part of the server
and read by the snapshot alone. Two servers that differ in nothing else go on alike, and
answer every request but that one alike, whatever the rest of the board reports.
-/

namespace Roman

open CMem CStr NorFlash

/-- The two servers have the same keystore and the same static arrays but that of the
    snapshot. -/
def SameButCounts (s t : Http) : Prop :=
  ∃ httpStats debugJson, t = { s with httpStats, debugJson }

theorem SameButCounts.refl (s : Http) : SameButCounts s s := ⟨s.httpStats, s.debugJson, rfl⟩

theorem SameButCounts.symm {s t : Http} (same : SameButCounts s t) : SameButCounts t s := by
  obtain ⟨stats, json, rfl⟩ := same
  exact ⟨s.httpStats, s.debugJson, rfl⟩

theorem SameButCounts.trans {s t u : Http} (first : SameButCounts s t) (second : SameButCounts t u) :
    SameButCounts s u := by
  obtain ⟨stats, json, rfl⟩ := first
  obtain ⟨stats', json', rfl⟩ := second
  exact ⟨stats', json', rfl⟩

theorem SameButCounts.keystore {s t : Http} (same : SameButCounts s t) : s.keystore = t.keystore := by
  obtain ⟨stats, json, rfl⟩ := same
  rfl

theorem SameButCounts.signSk {s t : Http} (same : SameButCounts s t) : s.signSk = t.signSk := by
  obtain ⟨stats, json, rfl⟩ := same
  rfl

theorem SameButCounts.count {s t : Http} (same : SameButCounts s t) (stats stats' : HttpStats) :
    SameButCounts { s with httpStats := stats } { t with httpStats := stats' } := by
  obtain ⟨x, json, rfl⟩ := same
  exact ⟨stats', json, rfl⟩

/-- The same reply, and servers that go on alike. -/
def AlikeAnswer (a b : Response × Http) : Prop := a.1 = b.1 ∧ SameButCounts a.2 b.2

/-- Two programs that branch on the same condition. -/
theorem ite_related {α β : Type} {R : α → β → Prop} {c : Prop} [Decidable c] {a b : α} {a' b' : β}
    (pos : c → R a a') (neg : ¬ c → R b b') : R (if c then a else b) (if c then a' else b') := by
  by_cases holds : c
  · rw [if_pos holds, if_pos holds]
    exact pos holds
  · rw [if_neg holds, if_neg holds]
    exact neg holds

section
variable {s t : Http} (same : SameButCounts s t)
include same

theorem handleInfo_counts : AlikeAnswer (handleInfo s) (handleInfo t) := by
  obtain ⟨stats, json, rfl⟩ := same
  unfold handleInfo storageStateName
  exact ⟨rfl, stats, json, rfl⟩

theorem handleSignPost_counts (body : Option Bytes) :
    AlikeAnswer (handleSignPost s body) (handleSignPost t body) := by
  obtain ⟨stats, json, rfl⟩ := same
  unfold handleSignPost
  dsimp only
  repeat' refine ite_related (fun _ => ?_) (fun _ => ?_)
  all_goals exact ⟨rfl, _, _, rfl⟩

theorem writeAccepted_counts : AlikeAnswer (writeAccepted s) (writeAccepted t) := by
  obtain ⟨stats, json, rfl⟩ := same
  unfold writeAccepted
  dsimp only
  refine ite_related (fun _ => ?_) (fun _ => ?_)
  · exact ⟨rfl, _, _, rfl⟩
  · exact ⟨rfl, _, _, rfl⟩

theorem handleWritePost_counts (contentLength : Int) (env : FlashEnv) (body : Option Bytes) :
    Outcome.Lift AlikeAnswer (handleWritePost s contentLength env body)
      (handleWritePost t contentLength env body) := by
  obtain ⟨stats, json, rfl⟩ := same
  unfold handleWritePost
  dsimp only
  repeat' refine ite_related (fun _ => ?_) (fun _ => ?_)
  all_goals first | exact .done ⟨rfl, _, _, rfl⟩ | skip
  generalize keystoreProvision s.keystore env _ _ _ = provision
  cases provision with
  | cut f => exact .cut f
  | done answer =>
      obtain ⟨status, keystore⟩ := answer
      cases status with
      | ok => exact .done (writeAccepted_counts ⟨_, _, rfl⟩)
      | errAlready | errMismatch | errFlash | errArg => exact .done ⟨rfl, _, _, rfl⟩

theorem handleClearPost_counts (contentLength : Int) (env : FlashEnv) (body : Option Bytes) :
    Outcome.Lift AlikeAnswer (handleClearPost s contentLength env body)
      (handleClearPost t contentLength env body) := by
  obtain ⟨stats, json, rfl⟩ := same
  unfold handleClearPost
  dsimp only
  repeat' refine ite_related (fun _ => ?_) (fun _ => ?_)
  all_goals first | exact .done ⟨rfl, _, _, rfl⟩ | skip
  generalize keystoreClear s.keystore env.erase _ = clear
  cases clear with
  | cut f => exact .cut f
  | done answer =>
      obtain ⟨status, keystore⟩ := answer
      cases status <;> exact .done ⟨rfl, _, _, rfl⟩

theorem debugSelftest_counts : SameButCounts (debugSelftest s).2.2.2 (debugSelftest t).2.2.2 := by
  obtain ⟨stats, json, rfl⟩ := same
  have related := @ite_related _ _ fun a b : Nat × Bool × Bytes × Http => SameButCounts a.2.2.2 b.2.2.2
  unfold debugSelftest
  dsimp only
  refine related (fun _ => ⟨_, _, rfl⟩) (fun _ => ?_)
  exact related (fun _ => ⟨_, _, rfl⟩) (fun _ => ⟨_, _, rfl⟩)

theorem debugEdKey_counts : SameButCounts (debugEdKey s) (debugEdKey t) := by
  obtain ⟨stats, json, rfl⟩ := same
  unfold debugEdKey
  dsimp only
  exact ite_related (fun _ => ⟨_, _, rfl⟩) (fun _ => ⟨_, _, rfl⟩)

theorem debugXKey_counts : SameButCounts (debugXKey s) (debugXKey t) := by
  obtain ⟨stats, json, rfl⟩ := same
  unfold debugXKey
  dsimp only
  exact ite_related (fun _ => ⟨_, _, rfl⟩) (fun _ => ⟨_, _, rfl⟩)

theorem debugId_counts : SameButCounts (debugId s) (debugId t) := by
  obtain ⟨stats, json, rfl⟩ := same
  exact ⟨stats, json, rfl⟩

omit same in
/-- The snapshot before its text is written. -/
theorem debugSnapshot_text (p : Platform) (s : Http) :
    let read := (debugSelftest s).2.2.2
    SameButCounts
      (debugId (debugXKey (debugEdKey { read with edB64 := read.edB64.store 0 [0], xB64 := read.xB64.store 0 [0] })))
      (debugSnapshot p s).2 := by
  unfold debugSnapshot
  dsimp only
  split
  · exact ⟨_, _, rfl⟩
  · exact ⟨_, _, rfl⟩

theorem debugSnapshot_counts (p p' : Platform) :
    SameButCounts (debugSnapshot p s).2 (debugSnapshot p' t).2 := by
  have text := debugSnapshot_text p s
  have text' := debugSnapshot_text p' t
  obtain ⟨stats, json, eq⟩ := debugSelftest_counts same
  simp only [eq] at text'
  refine text.symm.trans (.trans ?_ text')
  exact debugId_counts (debugXKey_counts (debugEdKey_counts ⟨stats, json, rfl⟩))

/-- The body of a debug request asks for a snapshot. -/
def AsksSnapshot (contentLength : Int) (body : Option Bytes) : Prop :=
  contentLength ≤ HTTP_DEBUG_BODY_LIMIT ∧ debugAction (bodyText body) = ascii "snapshot"

theorem handleDebug_counts (p p' : Platform) (contentLength : Int) (env : FlashEnv) (body : Option Bytes) :
    Outcome.Lift (fun a b => (¬ AsksSnapshot contentLength body → a.1 = b.1) ∧ a.2.1 = b.2.1 ∧
        SameButCounts a.2.2 b.2.2)
      (handleDebug p s contentLength env body) (handleDebug p' t contentLength env body) := by
  have snapshot := debugSnapshot_counts same p p'
  obtain ⟨stats, json, rfl⟩ := same
  unfold handleDebug
  dsimp only
  refine ite_related (fun _ => .done ⟨fun _ => rfl, rfl, _, _, rfl⟩) (fun small => ?_)
  refine ite_related (fun asks => ?_) (fun _ => ?_)
  · have excluded : AsksSnapshot contentLength body := ⟨Int.not_lt.mp small, asks⟩
    exact .done ⟨fun other => absurd excluded other, rfl, snapshot⟩
  refine ite_related (fun _ => ?_) (fun _ => ?_)
  · generalize storageClear s.keystore.store env.erase = cleared
    cases cleared with
    | cut f => exact .cut f
    | done answer =>
        obtain ⟨ok, store⟩ := answer
        cases ok <;> exact .done ⟨fun _ => rfl, rfl, _, _, rfl⟩
  · exact ite_related (fun _ => .done ⟨fun _ => rfl, rfl, _, _, rfl⟩)
      (fun _ => .done ⟨fun _ => rfl, rfl, _, _, rfl⟩)

end

/-- The request in the buffer is a POST /debug for a snapshot. -/
def HttpState.Snapshots (w : World) (st : HttpState) : Prop :=
  st.route w = .debug ∧ AsksSnapshot st.contentLength st.body

/-- What is the same of a request, unless it is for a snapshot. -/
def SameService (snapshots : Prop) (a b : Response × HttpState × Http) : Prop :=
  (¬ snapshots → a.1 = b.1) ∧ a.2.1 = b.2.1 ∧ SameButCounts a.2.2 b.2.2

theorem onConnection_counts {a b : Outcome (Response × Http)} (st : HttpState) (snapshots : Prop)
    (same : Outcome.Lift AlikeAnswer a b) :
    Outcome.Lift (SameService snapshots) (onConnection st a) (onConnection st b) :=
  Outcome.lift_map.mpr (same.mono fun _ _ same => ⟨fun _ => same.1, rfl, same.2⟩)

theorem httpRoute_counts {s t : Http} (same : SameButCounts s t) (w : World) (p : Platform) (st : HttpState) :
    Outcome.Lift (SameService (st.Snapshots w)) (httpRoute w st s) (httpRoute { w with platform := p } st t) := by
  have counted : SameButCounts s.counted t.counted := same.count _ _
  have decided : st.route { w with platform := p } = st.route w := rfl
  rw [httpRoute_eq, httpRoute_eq, decided]
  cases route : st.route w with
  | malformed | notFound => exact .done ⟨fun _ => rfl, rfl, same.count _ _⟩
  | fixed r => exact .done ⟨fun _ => rfl, rfl, counted⟩
  | info => exact onConnection_counts st _ (.done (handleInfo_counts counted))
  | sign => exact onConnection_counts st _ (.done (handleSignPost_counts counted st.body))
  | write => exact onConnection_counts st _ (handleWritePost_counts counted st.contentLength w.flash st.body)
  | clear => exact onConnection_counts st _ (handleClearPost_counts counted st.contentLength w.flash st.body)
  | debug =>
      have debugs := handleDebug_counts counted w.platform p st.contentLength w.flash st.body
      refine Outcome.lift_map.mpr (debugs.mono ?_)
      rintro a b ⟨reply, reset, servers⟩
      refine ⟨?_, ?_, servers⟩
      · intro other
        exact reply fun asks => other ⟨route, asks⟩
      · rw [reset]

end Roman
