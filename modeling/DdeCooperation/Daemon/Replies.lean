import DdeCooperation.Daemon.RpcService
import DdeCooperation.Foundations.Runs

/-!
# Whose reply an invocation gets

A reply has the type of the message that it answers or the type `UNKOWN`. An invocation
fills in a reply of its own type. So it gets its own reply as long as nothing that is
left of other invocations, in a channel, with a loop or waiting for a reply, has the same
type or the type `UNKOWN`, and a reading that gives up does not find the type of the
message in a variable that has not been written.

Otherwise replies are exchanged: between two messages of one type that are handled at the
same time, or between a message and an earlier one whose handling took longer than the
two readings.
-/

namespace DdeCooperation.Daemon

open Foundations Function List

variable {w : Fin 2} {uuid : String}

namespace HandleRpcService

/-- Something is left of the invocation. -/
inductive Outstanding (service : HandleRpcService) (n : ℕ) : Prop where
  | queued (h : n ∈ service.incomeChan)
  | refusing (w : Fin 2) (h : service.workers w = .refusing n)
  | handling (w : Fin 2) (h : service.workers w = .handling n)
  | answered (out : OutData) (h : (out, n) ∈ service.outgoChan)
  | reading (h : service.phases n = .reading)
  | retrying (h : service.phases n = .retrying)

/-- Neither of the messages can be taken for the other by its reply. -/
def Apart (first second : ChanType) : Prop :=
  first ≠ second ∧ first ≠ .UNKOWN ∧ second ≠ .UNKOWN

section

variable (calls : ℕ → Call)

/-- A message comes only while nothing is left of one that it is not apart from, and a
variable that has not been written does not hold the type of the message. -/
def Separated (service : HandleRpcService) : Event → Prop
  | .invoke n => ∀ m, service.Outstanding m → m ≠ n → Apart (calls n).type (calls m).type
  | .giveUp n indeterminate => (calls n).type ≠ indeterminate
  | _ => True

structure Paired (service : HandleRpcService) : Prop where
  typed : ∀ entry ∈ service.outgoChan,
    entry.1.type = (calls entry.2).type ∨ entry.1.type = .UNKOWN
  apart : ∀ n m, service.Outstanding n → service.Outstanding m → n ≠ m →
    Apart (calls n).type (calls m).type
  own : ∀ response ∈ service.responses, response.source = some response.call

end

variable {env : Surroundings} {calls : ℕ → Call} {service next : HandleRpcService}

theorem replyType_eq {type reply : ChanType} (h : replyType type = some reply) :
    reply = type ∨ reply = .UNKOWN := by
  unfold replyType at h
  split at h
  all_goals
    cases h <;> simp

theorem workers_setWorker {v : Fin 2} {worker other : Worker}
    (h : (service.setWorker w worker).workers v = other) :
    service.workers v = other ∨ worker = other := by
  change update service.workers w worker v = other at h
  by_cases heq : v = w
  · rw [heq, update_self] at h
    exact .inr h
  · rw [update_of_ne heq] at h
    exact .inl h

theorem phases_setPhase {m n : ℕ} {phase other : Phase}
    (h : (service.setPhase n phase).phases m = other) :
    service.phases m = other ∨ m = n ∧ phase = other := by
  change update service.phases n phase m = other at h
  by_cases heq : m = n
  · rw [heq, update_self] at h
    exact .inr ⟨heq, h⟩
  · rw [update_of_ne heq] at h
    exact .inl h

/-! ## What is left of an invocation -/

namespace Outstanding

variable {m n : ℕ}

theorem of_subset (h : next.Outstanding m) (hincome : next.incomeChan ⊆ service.incomeChan)
    (houtgo : next.outgoChan ⊆ service.outgoChan) (hworkers : next.workers = service.workers)
    (hphases : next.phases = service.phases) : service.Outstanding m := by
  cases h with
  | queued h => exact .queued (hincome h)
  | refusing w h => exact .refusing w (hworkers ▸ h)
  | handling w h => exact .handling w (hworkers ▸ h)
  | answered out h => exact .answered out (houtgo h)
  | reading h => exact .reading (hphases ▸ h)
  | retrying h => exact .retrying (hphases ▸ h)

theorem of_setWorker {worker : Worker} (h : (service.setWorker w worker).Outstanding m) :
    service.Outstanding m ∨ worker = .refusing m ∨ worker = .handling m := by
  cases h with
  | queued h => exact .inl (.queued h)
  | refusing v h =>
    rcases workers_setWorker h with hold | hnew
    · exact .inl (.refusing v hold)
    · exact .inr (.inl hnew)
  | handling v h =>
    rcases workers_setWorker h with hold | hnew
    · exact .inl (.handling v hold)
    · exact .inr (.inr hnew)
  | answered out h => exact .inl (.answered out h)
  | reading h => exact .inl (.reading h)
  | retrying h => exact .inl (.retrying h)

theorem of_setPhase {phase : Phase} (h : (service.setPhase n phase).Outstanding m) :
    service.Outstanding m ∨ m = n ∧ phase ≠ .finished := by
  cases h with
  | queued h => exact .inl (.queued h)
  | refusing w h => exact .inl (.refusing w h)
  | handling w h => exact .inl (.handling w h)
  | answered out h => exact .inl (.answered out h)
  | reading h =>
    rcases phases_setPhase h with hold | ⟨heq, rfl⟩
    · exact .inl (.reading hold)
    · exact .inr ⟨heq, nofun⟩
  | retrying h =>
    rcases phases_setPhase h with hold | ⟨heq, rfl⟩
    · exact .inl (.retrying hold)
    · exact .inr ⟨heq, nofun⟩

theorem of_finished (h : (service.setPhase n .finished).Outstanding m) : service.Outstanding m :=
  (of_setPhase h).resolve_right fun hnew ↦ hnew.2 rfl

theorem of_putReply {reply : OutData} (h : (service.putReply reply n).Outstanding m) :
    service.Outstanding m ∨ m = n := by
  cases h with
  | queued h => exact .inl (.queued h)
  | refusing w h => exact .inl (.refusing w h)
  | handling w h => exact .inl (.handling w h)
  | answered out h =>
    rcases mem_of_mem_write h with hold | hnew
    · exact .inl (.answered out hold)
    · exact .inr (Prod.mk.inj hnew).2
  | reading h => exact .inl (.reading h)
  | retrying h => exact .inl (.retrying h)

theorem of_invoke (h : (service.step env calls (.invoke n)).Outstanding m) :
    service.Outstanding m ∨ m = n := by
  simp only [step] at h
  split at h
  · cases h with
    | queued h => exact (mem_of_mem_write h).imp_left .queued
    | refusing w h => exact .inl (.refusing w h)
    | handling w h => exact .inl (.handling w h)
    | answered out h => exact .inl (.answered out h)
    | reading h => exact (of_setPhase (.reading h)).imp_right And.left
    | retrying h => exact (of_setPhase (.retrying h)).imp_right And.left
  · exact .inl h

theorem of_take (h : (service.take env calls w).Outstanding m) : service.Outstanding m := by
  unfold take at h
  split at h
  · next n rest hworker hincome =>
    have hrest : ∀ {m}, Outstanding { service with incomeChan := rest } m → service.Outstanding m :=
      fun h ↦ h.of_subset (hincome ▸ subset_cons_self ..) (Subset.refl _) rfl rfl
    have hfront : service.Outstanding n := .queued (hincome ▸ mem_cons_self)
    dsimp only at h
    split at h
    · exact hrest h
    · split at h
      · rcases of_setWorker h with hold | heq | heq
        · exact hrest hold
        · cases heq
          exact hfront
        · cases heq
      · rcases of_setWorker h with hold | heq | heq
        · exact hrest hold
        · cases heq
        · cases heq
          exact hfront
  · exact h

theorem of_handleRemoteLogin (h : (service.handleRemoteLogin env calls n uuid).Outstanding m) :
    service.Outstanding m := by
  unfold handleRemoteLogin at h
  dsimp only at h
  split at h
  · exact h
  · split at h
    · exact h.of_subset (Subset.refl _) (Subset.refl _) rfl rfl
    · exact h

theorem of_idle (h : (service.setWorker w .idle).Outstanding m) : service.Outstanding m := by
  rcases of_setWorker h with hold | heq | heq
  · exact hold
  · cases heq
  · cases heq

theorem of_handle {json : String} (h : (service.handle env calls w json uuid).Outstanding m) :
    service.Outstanding m := by
  unfold handle at h
  cases hworker : service.workers w with
  | idle =>
    rw [hworker] at h
    exact h
  | refusing n =>
    rw [hworker] at h
    rcases of_putReply h with hold | rfl
    · exact hold.of_idle
    · exact .refusing w hworker
  | handling n =>
    rw [hworker] at h
    dsimp only at h
    have hlogin : ∀ {m}, Outstanding (if (calls n).type = .LOGIN_INFO then
        (service.setWorker w .idle).handleRemoteLogin env calls n uuid
        else service.setWorker w .idle) m → service.Outstanding m := by
      intro m h
      split at h
      · exact h.of_handleRemoteLogin.of_idle
      · exact h.of_idle
    split at h
    · rcases of_putReply h with hold | rfl
      · exact hlogin hold
      · exact .handling w hworker
    · exact hlogin h

theorem of_respond {data : OutData} {source : Option ℕ}
    (h : (service.respond n data source).Outstanding m) : service.Outstanding m :=
  of_finished (h.of_subset (Subset.refl _) (Subset.refl _) rfl rfl)

theorem of_read (h : (service.read calls n).Outstanding m) : service.Outstanding m := by
  unfold read at h
  split at h
  · exact h
  · next out source rest houtgo =>
    have hrest : ∀ {m}, Outstanding { service with outgoChan := rest } m → service.Outstanding m :=
      fun h ↦ h.of_subset (Subset.refl _) (houtgo ▸ subset_cons_self ..) rfl rfl
    split at h
    · next hphase =>
      dsimp only at h
      split at h
      · exact hrest h.of_respond
      · rcases of_setPhase h with hold | ⟨rfl, -⟩
        · exact hrest hold
        · exact .reading hphase
    · dsimp only at h
      split at h
      · exact hrest h.of_respond
      · exact hrest h.of_finished
    · exact h

theorem of_giveUp {indeterminate : ChanType}
    (h : (service.giveUp calls n indeterminate).Outstanding m) : service.Outstanding m := by
  unfold giveUp at h
  split at h
  · next hphase =>
    split at h
    · exact h.of_respond
    · rcases of_setPhase h with hold | ⟨rfl, -⟩
      · exact hold
      · exact .reading hphase
  · exact h.of_finished
  · exact h

/-- Only an invocation leaves something of its own. -/
theorem of_step {event : Event} (h : (service.step env calls event).Outstanding m) :
    service.Outstanding m ∨ event = .invoke m := by
  cases event with
  | invoke n => exact (of_invoke h).imp_right fun heq ↦ congrArg Event.invoke heq.symm
  | take w => exact .inl h.of_take
  | handle w json uuid => exact .inl h.of_handle
  | read n => exact .inl h.of_read
  | giveUp n indeterminate => exact .inl h.of_giveUp
  | handleLogin token | setPin pin =>
    exact .inl (h.of_subset (Subset.refl _) (Subset.refl _) rfl rfl)

end Outstanding

/-! ## Replies and responses -/

variable {entry : OutData × ℕ}

theorem unchanged_handleRemoteLogin {n : ℕ} :
    (service.handleRemoteLogin env calls n uuid).outgoChan = service.outgoChan ∧
      (service.handleRemoteLogin env calls n uuid).responses = service.responses := by
  unfold handleRemoteLogin
  dsimp only
  split
  · exact ⟨rfl, rfl⟩
  · split <;> exact ⟨rfl, rfl⟩

/-- A reply that a loop puts into the channel has the type of its message or `UNKOWN`. -/
theorem mem_outgoChan_handle {json : String}
    (h : entry ∈ (service.handle env calls w json uuid).outgoChan) :
    entry ∈ service.outgoChan ∨ entry.1.type = (calls entry.2).type ∨ entry.1.type = .UNKOWN := by
  unfold handle at h
  split at h
  · exact .inl h
  · rcases mem_of_mem_write h with hold | rfl
    · exact .inl hold
    · exact .inr (.inr rfl)
  · next n hworker =>
    have hbefore : (if (calls n).type = .LOGIN_INFO then
        (service.setWorker w .idle).handleRemoteLogin env calls n uuid
        else service.setWorker w .idle).outgoChan = service.outgoChan := by
      split
      · exact unchanged_handleRemoteLogin.1
      · rfl
    dsimp only at h
    split at h
    · next type htype =>
      rcases mem_of_mem_write h with hold | rfl
      · exact .inl (hbefore ▸ hold)
      · exact .inr (replyType_eq htype)
    · exact .inl (hbefore ▸ h)

variable {event : Event}

/-- What an event puts into the channel has a type as above. A response is filled in from a reply
of the type of the message, or from a variable that has not been written and holds that type. -/
theorem mem_step :
    (∀ entry ∈ (service.step env calls event).outgoChan, entry ∈ service.outgoChan ∨
      entry.1.type = (calls entry.2).type ∨ entry.1.type = .UNKOWN) ∧
    ∀ response ∈ (service.step env calls event).responses, response ∈ service.responses ∨
      (∃ source, response.source = some source ∧ (response.data, source) ∈ service.outgoChan ∧
        service.Outstanding response.call ∧ (calls response.call).type = response.data.type) ∨
      ∃ n, event = .giveUp n (calls n).type := by
  cases event with
  | invoke n =>
    simp only [step]
    split <;> exact ⟨fun _ ↦ .inl, fun _ ↦ .inl⟩
  | take w =>
    simp only [step, take]
    split
    · split
      · exact ⟨fun _ ↦ .inl, fun _ ↦ .inl⟩
      · split <;> exact ⟨fun _ ↦ .inl, fun _ ↦ .inl⟩
    · exact ⟨fun _ ↦ .inl, fun _ ↦ .inl⟩
  | handle w json uuid =>
    refine ⟨fun _ ↦ mem_outgoChan_handle, fun _ h ↦ .inl ?_⟩
    simp only [step, handle] at h
    split at h
    · exact h
    · exact h
    · have hlogin (n : ℕ) : (handleRemoteLogin env calls n uuid
          (service.setWorker w .idle)).responses = service.responses := unchanged_handleRemoteLogin.2
      split at h <;> split at h
      · exact hlogin _ ▸ h
      · exact h
      · exact hlogin _ ▸ h
      · exact h
  | read n =>
    simp only [step, read]
    split
    · exact ⟨fun _ ↦ .inl, fun _ ↦ .inl⟩
    · next out source rest houtgo =>
      have hentry : (out, source) ∈ service.outgoChan := houtgo ▸ mem_cons_self
      have hrest : rest ⊆ service.outgoChan := houtgo ▸ subset_cons_self ..
      have hnew : ∀ response ∈ service.responses ++ [⟨n, out, some source⟩],
          response ∈ service.responses ∨ response = ⟨n, out, some source⟩ := fun _ h ↦
        (mem_append.mp h).imp_right mem_singleton.mp
      split
      · next hphase =>
        split
        · next htype =>
          refine ⟨fun _ h ↦ .inl (hrest h), fun response h ↦ (hnew response h).imp_right ?_⟩
          rintro rfl
          exact .inl ⟨source, rfl, hentry, .reading hphase, htype⟩
        · exact ⟨fun _ h ↦ .inl (hrest h), fun _ ↦ .inl⟩
      · next hphase =>
        split
        · next htype =>
          refine ⟨fun _ h ↦ .inl (hrest h), fun response h ↦ (hnew response h).imp_right ?_⟩
          rintro rfl
          exact .inl ⟨source, rfl, hentry, .retrying hphase, htype⟩
        · exact ⟨fun _ h ↦ .inl (hrest h), fun _ ↦ .inl⟩
      · exact ⟨fun _ ↦ .inl, fun _ ↦ .inl⟩
  | giveUp n indeterminate =>
    simp only [step, giveUp]
    split
    · split
      · next htype => exact ⟨fun _ ↦ .inl, fun _ _ ↦ .inr (.inr ⟨n, congrArg (Event.giveUp n) htype.symm⟩)⟩
      · exact ⟨fun _ ↦ .inl, fun _ ↦ .inl⟩
    · exact ⟨fun _ ↦ .inl, fun _ ↦ .inl⟩
    · exact ⟨fun _ ↦ .inl, fun _ ↦ .inl⟩
  | handleLogin token | setPin pin => exact ⟨fun _ ↦ .inl, fun _ ↦ .inl⟩

theorem Paired.step (h : service.Paired calls) (hevent : service.Separated calls event) :
    (service.step env calls event).Paired calls := by
  refine ⟨fun entry hentry ↦ ?_, fun n m hn hm hne ↦ ?_, fun response hresponse ↦ ?_⟩
  · rcases mem_step.1 entry hentry with hold | htyped
    · exact h.typed entry hold
    · exact htyped
  · rcases hn.of_step with hleft | rfl
    · rcases hm.of_step with hright | rfl
      · exact h.apart n m hleft hright hne
      · obtain ⟨hdiffer, hfirst, hsecond⟩ := hevent n hleft hne
        exact ⟨hdiffer.symm, hsecond, hfirst⟩
    · rcases hm.of_step with hright | heq
      · exact hevent m hright hne.symm
      · exact absurd (Event.invoke.inj heq) hne
  · rcases mem_step.2 response hresponse with hold | ⟨source, hsource, hentry, hleft, htype⟩ | ⟨n, rfl⟩
    · exact h.own response hold
    · -- a reply of another message would have another type
      by_contra hother
      have hne : source ≠ response.call := fun heq ↦ hother (heq ▸ hsource)
      obtain ⟨hdiffer, -, hunknown⟩ := h.apart source response.call (.answered _ hentry) hleft hne
      rcases h.typed _ hentry with hsame | hrefused
      · exact hdiffer (hsame.symm.trans htype.symm)
      · exact hunknown (htype.trans hrefused)
    · exact absurd rfl hevent

theorem not_outstanding_initial (pin : String) (n : ℕ) :
    ¬ ({ pinCode := pin } : HandleRpcService).Outstanding n := by
  rintro (h | ⟨_, h⟩ | ⟨_, h⟩ | ⟨_, h⟩ | h | h) <;> cases h

/-- In every run in which messages come only while nothing is left of others that have the
same type, and unwritten variables do not happen to hold the type of a message: a response
that an invocation fills in was produced by the handling of its own message. -/
theorem response_source_eq (pin : String) (events : List Event)
    (h : Throughout (step env calls) (Separated calls) { pinCode := pin } events) :
    ∀ response ∈ (run env calls { pinCode := pin } events).responses,
      response.source = some response.call := by
  have hinit : ({ pinCode := pin } : HandleRpcService).Paired calls :=
    ⟨nofun, fun n m hn ↦ absurd hn (not_outstanding_initial pin n), nofun⟩
  have hkeep : ∀ (service : HandleRpcService) event, service.Paired calls →
      service.Separated calls event → (service.step env calls event).Paired calls :=
    fun _ _ hpaired hevent ↦ hpaired.step hevent
  exact (Throughout.invariant_foldl hkeep hinit h).own

/-- A ping while a search is being answered. -/
theorem response_source_eq_ping :
    (∀ response ∈ (run .plain
        (fun n ↦ ⟨"10.0.0.2", if n = 0 then .SEARCH_DEVICE_BY_IP else .RPC_PING, ""⟩)
        { pinCode := "123456" } [.invoke 0, .invoke 1, .take 0, .take 1, .handle 1 "pong" "",
          .handle 0 "node" "", .read 1, .read 0]).responses,
      response.source = some response.call) ∧
    ((run .plain
        (fun n ↦ ⟨"10.0.0.2", if n = 0 then .SEARCH_DEVICE_BY_IP else .RPC_PING, ""⟩)
        { pinCode := "123456" } [.invoke 0, .invoke 1, .take 0, .take 1, .handle 1 "pong" "",
          .handle 0 "node" "", .read 1, .read 0]).responses.map fun response ↦
            (response.call, response.data.json)) = [(1, "pong"), (0, "node")] := by
  refine ⟨response_source_eq _ _ ⟨fun m hm ↦ absurd hm (not_outstanding_initial _ m),
    fun m hm hne ↦ ?_, trivial, trivial, trivial, trivial, trivial, trivial, trivial⟩, by decide⟩
  rcases hm.of_step with hm | heq
  · exact absurd hm (not_outstanding_initial _ m)
  · rw [← Event.invoke.inj heq]
    exact ⟨by decide, by decide, by decide⟩

/-- Two pings that are handled at the same time get each other's replies. A job request
gets the reply to an earlier one that took too long. And a ping gets the reply to a later
one when a message that has no reply has taken its own. -/
theorem not_response_source_eq :
    (¬ ∀ response ∈ (run .plain (fun _ ↦ ⟨"10.0.0.2", .RPC_PING, ""⟩)
        { pinCode := "123456" } [.invoke 0, .invoke 1, .take 0, .take 1, .handle 0 "" "",
          .handle 1 "" "", .read 1, .read 0]).responses,
      response.source = some response.call) ∧
    (¬ ∀ response ∈ (run .plain (fun _ ↦ ⟨"10.0.0.2", .TRANSJOB, ""⟩)
        { pinCode := "123456" } [.handleLogin "token", .invoke 0, .take 0, .giveUp 0 .UNKOWN,
          .giveUp 0 .UNKOWN, .handle 0 "" "", .invoke 1, .read 1]).responses,
      response.source = some response.call) ∧
    ¬ ∀ response ∈ (run .plain
        (fun n ↦ ⟨"10.0.0.2", if n = 0 then .LOGIN_RESULT else .RPC_PING, ""⟩)
        { pinCode := "123456" } [.invoke 0, .take 0, .handle 0 "" "", .invoke 1, .take 0,
          .handle 0 "" "", .read 0, .invoke 2, .take 0, .handle 0 "" "", .read 1]).responses,
      response.source = some response.call := by
  decide

end HandleRpcService

end DdeCooperation.Daemon
