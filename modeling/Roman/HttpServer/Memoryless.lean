import Roman.Vault
import Roman.PowerCut
import Roman.HttpServer.Replies
import Roman.HttpServer.Routes
import Roman.HttpServer.Receiving

/-! # The server has no memory

Two servers with the same flash and the same draws to come, each with a coherent
cache, answer every request but POST /debug alike and go on alike, whatever
earlier requests left in their static arrays.
-/

namespace Roman

open CMem CStr NorFlash

def Http.vault (s : Http) : Vault := s.keystore.vault

/-- The reply and the server after it, as the world sees them. -/
def SameReply (a b : Response × Http) : Prop := a.1 = b.1 ∧ a.2.vault.Alike b.2.vault

section
variable {k k' : Keystore} (alike : k.vault.Alike k'.vault)
include alike

theorem writeReply_alike (contentLength : Int) (env : FlashEnv) (body : Bytes) :
    Outcome.Lift SameKeystoreAnswer (writeReply k contentLength env body)
      (writeReply k' contentLength env body) := by
  have writen : keystoreWriten k = keystoreWriten k' := congrArg storageWriten alike.flash
  simp only [writeReply, writen]
  repeat' split
  all_goals first | exact .done ⟨rfl, alike⟩ | skip
  refine Outcome.lift_map.mpr ((keystoreProvision_alike alike env _ _ _).mono fun a b same => ?_)
  obtain ⟨status, later⟩ := same
  have flash : a.2.store.flash = b.2.store.flash := later.flash
  exact ⟨by rw [status, flash], later⟩

theorem clearReply_alike (coherent : Coherent k) (coherent' : Coherent k') (contentLength : Int)
    (env : FlashEnv) (body : Bytes) :
    Outcome.Lift SameKeystoreAnswer (clearReply k contentLength env body)
      (clearReply k' contentLength env body) := by
  simp only [clearReply]
  repeat' split
  all_goals first | exact .done ⟨rfl, alike⟩ | skip
  refine Outcome.lift_map.mpr
    ((keystoreClear_alike alike coherent coherent' env.erase _).mono fun a b same => ?_)
  obtain ⟨status, later⟩ := same
  exact ⟨by rw [status], later⟩

end

section
variable {s s' : Http} (alike : s.vault.Alike s'.vault)
  (coherent : Coherent s.keystore) (coherent' : Coherent s'.keystore)
include alike

theorem handleWritePost_alike (contentLength : Int) (env : FlashEnv) (body : Option Bytes) :
    Outcome.Lift SameReply (handleWritePost s contentLength env body)
      (handleWritePost s' contentLength env body) := by
  have replies := writeReply_alike alike contentLength env (bodyText body)
  rw [← handleWritePost_spec, ← handleWritePost_spec] at replies
  have lift := Outcome.lift_map.mp replies
  exact lift

include coherent coherent'

theorem handleClearPost_alike (contentLength : Int) (env : FlashEnv) (body : Option Bytes) :
    Outcome.Lift SameReply (handleClearPost s contentLength env body)
      (handleClearPost s' contentLength env body) := by
  have replies := clearReply_alike alike coherent coherent' contentLength env (bodyText body)
  rw [← handleClearPost_spec, ← handleClearPost_spec] at replies
  have lift := Outcome.lift_map.mp replies
  exact lift

theorem handleSignPost_alike (body : Option Bytes) :
    SameReply (handleSignPost s body) (handleSignPost s' body) := by
  have flash : s.flash = s'.flash := alike.flash
  have vault := (handleSignPost_quiet s body).vault
  have vault' := (handleSignPost_quiet s' body).vault
  refine ⟨?_, ?_⟩
  · rw [handleSignPost_spec coherent, handleSignPost_spec coherent', flash]
  · rw [Http.vault, Http.vault, vault, vault']
    exact alike

theorem handleInfo_alike : SameReply (handleInfo s) (handleInfo s') := by
  have flash : s.flash = s'.flash := alike.flash
  have vault := (handleInfo_quiet s).vault
  have vault' := (handleInfo_quiet s').vault
  refine ⟨?_, ?_⟩
  · rw [handleInfo_spec coherent, handleInfo_spec coherent', flash]
  · rw [Http.vault, Http.vault, vault, vault']
    exact alike

end

/-- What is seen of a dispatched request: the reply, the connection and flash. -/
def SameOutside (a b : Response × HttpState × Http) : Prop :=
  a.1 = b.1 ∧ a.2.1 = b.2.1 ∧ a.2.2.vault.Alike b.2.2.vault

theorem unchanged_alike {st : HttpState} {a b : Response × Http} (same : SameReply a b) :
    Outcome.Lift SameOutside (unchanged st a) (unchanged st b) :=
  .done ⟨same.1, rfl, same.2⟩

theorem onConnection_alike {st : HttpState} {a b : Outcome (Response × Http)}
    (same : Outcome.Lift SameReply a b) :
    Outcome.Lift SameOutside (onConnection st a) (onConnection st b) :=
  Outcome.lift_map.mpr (same.mono fun _ _ same => ⟨same.1, rfl, same.2⟩)

/-- Only POST /debug is routed to the debug handler. -/
theorem route_debug {w : World} {st : HttpState} (debug : st.route w = .debug) :
    requestLine st.buf.cstr = some (ascii "POST", ascii "/debug") := by
  simp only [HttpState.route] at debug
  cases line : requestLine st.buf.cstr with
  | none => simp [line, routeOf] at debug
  | some words =>
      obtain ⟨method, path⟩ := words
      simp only [line, routeOf] at debug
      repeat' split at debug
      all_goals first | (cases debug; done) | skip
      rename_i post _ _ _ found
      rw [post, found.2]

theorem httpRoute_alike {s s' : Http} (alike : s.vault.Alike s'.vault)
    (coherent : Coherent s.keystore) (coherent' : Coherent s'.keystore) (w : World) (st : HttpState)
    (route : requestLine st.buf.cstr ≠ some (ascii "POST", ascii "/debug")) :
    Outcome.Lift SameOutside (httpRoute w st s) (httpRoute w st s') := by
  have counted : s.counted.vault.Alike s'.counted.vault := alike
  have coherentC : Coherent s.counted.keystore := coherent
  have coherentC' : Coherent s'.counted.keystore := coherent'
  rw [httpRoute_eq, httpRoute_eq]
  cases decided : st.route w with
  | malformed | notFound | fixed r => exact unchanged_alike ⟨rfl, alike⟩
  | info => exact unchanged_alike (handleInfo_alike counted coherentC coherentC')
  | sign => exact unchanged_alike (handleSignPost_alike counted coherentC coherentC' _)
  | write => exact onConnection_alike (handleWritePost_alike counted _ _ _)
  | clear => exact onConnection_alike (handleClearPost_alike counted coherentC coherentC' _ _ _)
  | debug => exact absurd (route_debug decided) route

/-- Whatever earlier requests left in RAM, apart from a coherent cache: the same
    request gets the same bytes from both servers, or the power fails in both
    over the same flash, and both end with the same flash and the same draws to
    come. -/
theorem httpProcessRequest_memoryless {s s' : Http} (flash : s.flash = s'.flash)
    (draws : SameDraws s.rng s'.rng) (coherent : Coherent s.keystore)
    (coherent' : Coherent s'.keystore) (w : World) (st : HttpState)
    (route : requestLine st.buf.cstr ≠ some (ascii "POST", ascii "/debug")) :
    Outcome.Lift (fun a b => a.1 = b.1 ∧ a.2.1 = b.2.1 ∧ a.2.2.flash = b.2.2.flash ∧
        SameDraws a.2.2.rng b.2.2.rng)
      (httpProcessRequest w st s) (httpProcessRequest w st s') := by
  have routes := httpRoute_alike ⟨flash, draws⟩ coherent coherent' w st route
  have sends : ∀ t, httpProcessRequest w st t = (httpRoute w st t).map fun r =>
      ((httpSendResponse r.2.1 r.1 w.tcpWrites).2, (httpSendResponse r.2.1 r.1 w.tcpWrites).1, r.2.2) :=
    fun t => by
      rw [httpProcessRequest]
      cases httpRoute w st t <;> rfl
  rw [sends, sends]
  refine Outcome.lift_map.mpr (routes.mono fun a b same => ?_)
  obtain ⟨response, connection, vault⟩ := same
  rw [response, connection]
  exact ⟨rfl, rfl, vault.flash, vault.draws⟩

def sampleSign : Bytes :=
  ascii "POST /sign HTTP/1.1\r\n\r\n\x7b\"challenge\":\"a\",\"context\":\"b\",\"timestamp\":\"c\"\x7d"

/-- Other bytes in some of the arrays. -/
def Http.dirtied (s : Http) : Http :=
  { s with challenge := .fill _ 1, context := .fill _ 2, signBody := .fill _ 3,
           keystore.store.boxRead := .fill _ 4, keystore.cachedId := .fill _ 5 }

theorem Http.dirtied_flash (s : Http) : s.dirtied.flash = s.flash := rfl

theorem Http.dirtied_rng (s : Http) : s.dirtied.rng = s.rng := rfl

theorem coherent_dirtied (f : Flash) (e : Entropy) : Coherent (Http.zeroed f e).dirtied.keystore :=
  .of_invalid rfl

theorem coherent_zeroed (f : Flash) (e : Entropy) : Coherent (Http.zeroed f e).keystore :=
  .of_invalid rfl

/-- A provisioned board fresh from the reset, and the same with other bytes in its arrays. -/
theorem httpProcessRequest_memoryless_sample :
    Outcome.Lift (fun a b => a.1 = b.1 ∧ a.2.1 = b.2.1 ∧ a.2.2.flash = b.2.2.flash ∧
        SameDraws a.2.2.rng b.2.2.rng)
      (httpProcessRequest (benchWorld ⟨.ok, .ok⟩) (.received sampleSign 0)
        (Http.zeroed sampleKeystore.store.flash silent))
      (httpProcessRequest (benchWorld ⟨.ok, .ok⟩) (.received sampleSign 0)
        (Http.zeroed sampleKeystore.store.flash silent).dirtied) := by
  have text : (HttpState.received sampleSign 0).buf.cstr = sampleSign :=
    HttpState.received_cstr (by decide +kernel) (by decide +kernel)
  have route : requestLine (HttpState.received sampleSign 0).buf.cstr ≠
      some (ascii "POST", ascii "/debug") := by
    rw [text]
    decide +kernel
  let s := Http.zeroed sampleKeystore.store.flash silent
  have draws : SameDraws s.rng s.dirtied.rng := by
    rw [Http.dirtied_rng]
    exact SameDraws.refl s.rng
  exact httpProcessRequest_memoryless (Http.dirtied_flash s).symm draws (coherent_zeroed _ _)
    (coherent_dirtied _ _) (benchWorld ⟨.ok, .ok⟩) (.received sampleSign 0) route

end Roman
