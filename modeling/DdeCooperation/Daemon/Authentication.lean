import DdeCooperation.Daemon.RpcService
import DdeCooperation.Foundations.Runs

/-!
# Who is authenticated

The daemon keeps one token. A message that needs authentication is handled whenever a
token is stored, whoever has sent it. The token says that some peer has logged in, with a
PIN or without one, or that this daemon has logged in at a peer, at some time and with
whatever the PIN was then.

So a message that is handled comes from a host that has logged in with the current PIN
when all logins and all messages that need authentication come from one host, its logins
carry a code, this daemon does not log in elsewhere, and the PIN is not changed after a
login.
-/

namespace DdeCooperation.Daemon

open Foundations

namespace HandleRpcService

section

variable (env : Surroundings) (calls : ℕ → Call) (peer : String)

/-- A loop that takes a message which needs authentication handles it only if its host has
logged in with the current PIN. -/
def TakesAuthenticated (service : HandleRpcService) : Event → Prop
  | .take w => ∀ n, service.workers w = .idle → service.incomeChan.head? = some n →
      requiresAuth (calls n).type = true →
        (service.take env calls w).workers w = .handling n →
          ((calls n).host, service.pinCode) ∈ service.logins
  | _ => True

/-- The message is of the peer if it is a login or needs authentication, and a login
carries a code. -/
structure Fit (n : ℕ) : Prop where
  host : (calls n).type = .LOGIN_INFO ∨ requiresAuth (calls n).type = true →
    (calls n).host = peer
  code : (calls n).type = .LOGIN_INFO → (env.loginInfo (calls n).json).auth ≠ ""

/-- The peer is the only one that logs in and sends messages which need authentication;
the daemon itself gets no token elsewhere, and keeps its PIN once there is a token. -/
def SinglePeer (service : HandleRpcService) : Event → Prop
  | .invoke n => Fit env calls peer n
  | .handleLogin token => token = ""
  | .setPin pin => service.authedToken = "" ∨ pin = service.pinCode
  | _ => True

/-- The messages that wait or are handled fit, and the token is that of the peer. -/
structure Trusted (service : HandleRpcService) : Prop where
  queued : ∀ n ∈ service.incomeChan, Fit env calls peer n
  handled : ∀ w n, service.workers w = .handling n → Fit env calls peer n
  token : service.authedToken ≠ "" → (peer, service.pinCode) ∈ service.logins

end

variable {env : Surroundings} {calls : ℕ → Call} {peer : String} {service next : HandleRpcService}

namespace Trusted

variable (h : service.Trusted env calls peer)

include h

theorem of_eq (hincome : next.incomeChan ⊆ service.incomeChan)
    (hworkers : next.workers = service.workers) (htoken : next.authedToken = service.authedToken)
    (hpin : next.pinCode = service.pinCode) (hlogins : next.logins = service.logins) :
    next.Trusted env calls peer := by
  refine ⟨fun n hn ↦ h.queued n (hincome hn), fun w n hn ↦ h.handled w n (hworkers ▸ hn), ?_⟩
  rw [htoken, hpin, hlogins]
  exact h.token

theorem setWorker (w : Fin 2) {worker : Worker}
    (hworker : ∀ n, worker = .handling n → Fit env calls peer n) :
    (service.setWorker w worker).Trusted env calls peer := by
  refine ⟨h.queued, fun v n hn ↦ ?_, h.token⟩
  change Function.update service.workers w worker v = _ at hn
  by_cases heq : v = w
  · rw [heq, Function.update_self] at hn
    exact hworker n hn
  · rw [Function.update_of_ne heq] at hn
    exact h.handled v n hn

theorem take (w : Fin 2) : (service.take env calls w).Trusted env calls peer := by
  unfold HandleRpcService.take
  split
  · next n rest hworker hincome =>
    have hrest : Trusted env calls peer { service with incomeChan := rest } :=
      h.of_eq (hincome ▸ List.subset_cons_self ..) rfl rfl rfl rfl
    have hfit : Fit env calls peer n := h.queued n (hincome ▸ List.mem_cons_self)
    dsimp only
    split
    · exact hrest
    · split
      · exact hrest.setWorker w nofun
      · exact hrest.setWorker w fun m hm ↦ Worker.handling.inj hm ▸ hfit
  · exact h

/-- A login of the peer stores a token for the PIN that it has given. -/
theorem handleRemoteLogin {n : ℕ}
    (hfit : Fit env calls peer n) (hlogin : (calls n).type = .LOGIN_INFO) (uuid : String) :
    (service.handleRemoteLogin env calls n uuid).Trusted env calls peer := by
  unfold HandleRpcService.handleRemoteLogin
  dsimp only
  split
  · exact h
  · split
    · next hok =>
      refine ⟨h.queued, h.handled, fun _ ↦ ?_⟩
      have hpin : service.pinCode = env.decodeBase64 (env.loginInfo (calls n).json).auth :=
        (of_decide_eq_true hok).resolve_left (hfit.code hlogin)
      dsimp only
      rw [if_pos hpin, hfit.host (.inl hlogin)]
      exact List.mem_cons_self
    · exact h

theorem putReply (reply : OutData) (n : ℕ) : (service.putReply reply n).Trusted env calls peer :=
  h.of_eq (List.Subset.refl _) rfl rfl rfl rfl

theorem handle (w : Fin 2) (json uuid : String) :
    (service.handle env calls w json uuid).Trusted env calls peer := by
  have hidle := h.setWorker w (nofun : ∀ n, Worker.idle = .handling n → Fit env calls peer n)
  unfold HandleRpcService.handle
  cases hworker : service.workers w with
  | idle => exact h
  | refusing n => exact hidle.putReply _ n
  | handling n =>
    have hlogin : Trusted env calls peer (if (calls n).type = .LOGIN_INFO then
        (service.setWorker w .idle).handleRemoteLogin env calls n uuid
        else service.setWorker w .idle) := by
      split
      · next htype => exact hidle.handleRemoteLogin (h.handled w n hworker) htype uuid
      · exact hidle
    dsimp only
    split
    · exact hlogin.putReply _ n
    · exact hlogin

theorem setPhase (n : ℕ) (phase : Phase) : (service.setPhase n phase).Trusted env calls peer :=
  h.of_eq (List.Subset.refl _) rfl rfl rfl rfl

theorem respond (n : ℕ) (data : OutData) (source : Option ℕ) :
    (service.respond n data source).Trusted env calls peer :=
  h.of_eq (List.Subset.refl _) rfl rfl rfl rfl

theorem read (n : ℕ) : (service.read calls n).Trusted env calls peer := by
  unfold HandleRpcService.read
  split
  · exact h
  · next out source rest houtgo =>
    have hrest : Trusted env calls peer { service with outgoChan := rest } :=
      h.of_eq (List.Subset.refl _) rfl rfl rfl rfl
    split
    · dsimp only
      split
      · exact hrest.respond _ _ _
      · exact hrest.setPhase _ _
    · dsimp only
      split
      · exact hrest.respond _ _ _
      · exact hrest.setPhase _ _
    · exact h

theorem giveUp (n : ℕ) (indeterminate : ChanType) :
    (service.giveUp calls n indeterminate).Trusted env calls peer := by
  unfold HandleRpcService.giveUp
  split
  · split
    · exact h.respond _ _ _
    · exact h.setPhase _ _
  · exact h.setPhase _ _
  · exact h

theorem step {event : Event} (hevent : service.SinglePeer env calls peer event) :
    (service.step env calls event).Trusted env calls peer := by
  cases event with
  | invoke n =>
    simp only [HandleRpcService.step]
    split
    · refine ⟨fun m hm ↦ ?_, h.handled, h.token⟩
      rcases mem_of_mem_write hm with hold | rfl
      · exact h.queued m hold
      · exact hevent
    · exact h
  | take w => exact h.take w
  | handle w json uuid => exact h.handle w json uuid
  | read n => exact h.read n
  | giveUp n indeterminate => exact h.giveUp n indeterminate
  | handleLogin token =>
    refine ⟨h.queued, h.handled, fun hne ↦ ?_⟩
    exact absurd hevent hne
  | setPin pin =>
    refine ⟨h.queued, h.handled, fun hne ↦ ?_⟩
    rcases hevent with hnone | hsame
    · exact absurd hnone hne
    · change (peer, pin) ∈ service.logins
      rw [hsame]
      exact h.token hne

theorem takesAuthenticated (event : Event) : service.TakesAuthenticated env calls event := by
  cases event with
  | take w =>
    intro n hidle hhead hauth hhandling
    obtain ⟨rest, hincome⟩ := List.head?_eq_some_iff.mp hhead
    have hfit : Fit env calls peer n := h.queued n (hincome ▸ List.mem_cons_self)
    rw [hfit.host (.inr hauth)]
    apply h.token
    intro hnone
    -- without a token the loop refuses the message or drops it
    simp only [HandleRpcService.take, hidle, hincome, hauth, hnone, true_and, if_true] at hhandling
    split at hhandling
    · rw [hidle] at hhandling
      cases hhandling
    · simp [HandleRpcService.setWorker] at hhandling
  | _ => trivial

end Trusted

/-- In every run in which one peer alone logs in, with a code, and sends messages that need
authentication, while the daemon gets no token elsewhere and keeps its PIN once it has a
token: a message that needs authentication is handled only if its host has logged in with
the current PIN. -/
theorem takesAuthenticated_of_singlePeer (peer pin : String) (events : List Event)
    (h : Throughout (step env calls) (SinglePeer env calls peer) { pinCode := pin } events) :
    Throughout (step env calls) (TakesAuthenticated env calls) { pinCode := pin } events := by
  have hinit : Trusted env calls peer { pinCode := pin } := ⟨nofun, nofun, fun hne ↦ absurd rfl hne⟩
  have hkeep : ∀ (service : HandleRpcService) event, service.Trusted env calls peer →
      service.SinglePeer env calls peer event →
        (service.step env calls event).Trusted env calls peer := fun _ _ htrusted ↦ htrusted.step
  have htakes : ∀ (service : HandleRpcService) event, service.Trusted env calls peer →
      service.SinglePeer env calls peer event → service.TakesAuthenticated env calls event :=
    fun _ event htrusted _ ↦ htrusted.takesAuthenticated event
  exact Throughout.of_invariant hkeep htakes hinit h

/-- A peer that logs in and then sends a job. -/
theorem takesAuthenticated_of_singlePeer_job :
    Throughout (step .plain fun n ↦ if n = 0 then ⟨"10.0.0.2", .LOGIN_INFO, "123456"⟩
        else ⟨"10.0.0.2", .TRANSJOB, ""⟩)
      (TakesAuthenticated .plain fun n ↦ if n = 0 then ⟨"10.0.0.2", .LOGIN_INFO, "123456"⟩
        else ⟨"10.0.0.2", .TRANSJOB, ""⟩)
      { pinCode := "123456" } [.invoke 0, .take 0, .handle 0 "" "token", .invoke 1, .take 0] ∧
    (run .plain (fun n ↦ if n = 0 then ⟨"10.0.0.2", .LOGIN_INFO, "123456"⟩
        else ⟨"10.0.0.2", .TRANSJOB, ""⟩) { pinCode := "123456" }
      [.invoke 0, .take 0, .handle 0 "" "token", .invoke 1, .take 0]).workers 0 = .handling 1 := by
  refine ⟨takesAuthenticated_of_singlePeer "10.0.0.2" _ _ ⟨⟨fun _ ↦ rfl, ?_⟩, trivial,
    trivial, ⟨fun _ ↦ rfl, nofun⟩, trivial, trivial⟩, by decide⟩
  intro _
  decide

/-- A job is taken from a host that has not logged in: after the login of another host, or
of this daemon at another host. It is taken from a host that has logged in without a code,
or with a PIN that has been changed since. -/
theorem not_takesAuthenticated :
    (¬ Throughout (step .plain fun n ↦ if n = 0 then ⟨"10.0.0.2", .LOGIN_INFO, "123456"⟩
        else ⟨"10.0.0.3", .TRANSJOB, ""⟩)
      (TakesAuthenticated .plain fun n ↦ if n = 0 then ⟨"10.0.0.2", .LOGIN_INFO, "123456"⟩
        else ⟨"10.0.0.3", .TRANSJOB, ""⟩)
      { pinCode := "123456" } [.invoke 0, .take 0, .handle 0 "" "token", .invoke 1, .take 0]) ∧
    (¬ Throughout (step .plain fun _ ↦ ⟨"10.0.0.3", .TRANSJOB, ""⟩)
      (TakesAuthenticated .plain fun _ ↦ ⟨"10.0.0.3", .TRANSJOB, ""⟩)
      { pinCode := "123456" } [.handleLogin "token", .invoke 0, .take 0]) ∧
    (¬ Throughout (step .plain fun n ↦ if n = 0 then ⟨"10.0.0.3", .LOGIN_INFO, ""⟩
        else ⟨"10.0.0.3", .TRANSJOB, ""⟩)
      (TakesAuthenticated .plain fun n ↦ if n = 0 then ⟨"10.0.0.3", .LOGIN_INFO, ""⟩
        else ⟨"10.0.0.3", .TRANSJOB, ""⟩)
      { pinCode := "123456" } [.invoke 0, .take 0, .handle 0 "" "token", .invoke 1, .take 0]) ∧
    ¬ Throughout (step .plain fun n ↦ if n = 0 then ⟨"10.0.0.3", .LOGIN_INFO, "123456"⟩
        else ⟨"10.0.0.3", .TRANSJOB, ""⟩)
      (TakesAuthenticated .plain fun n ↦ if n = 0 then ⟨"10.0.0.3", .LOGIN_INFO, "123456"⟩
        else ⟨"10.0.0.3", .TRANSJOB, ""⟩)
      { pinCode := "123456" } [.invoke 0, .take 0, .handle 0 "" "token", .setPin "654321",
        .invoke 1, .take 0] := by
  refine ⟨fun h ↦ ?_, fun h ↦ ?_, fun h ↦ ?_, fun h ↦ ?_⟩
  · exact absurd (h.2.2.2.2.1 1 (by decide) (by decide) rfl (by decide)) (by decide)
  · exact absurd (h.2.2.1 0 (by decide) (by decide) rfl (by decide)) (by decide)
  · exact absurd (h.2.2.2.2.1 1 (by decide) (by decide) rfl (by decide)) (by decide)
  · exact absurd (h.2.2.2.2.2.1 1 (by decide) (by decide) rfl (by decide)) (by decide)

end HandleRpcService

end DdeCooperation.Daemon
