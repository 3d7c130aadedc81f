import DdeCooperation.Foundations.Runs
import DdeCooperation.Qt.Values
import DdeCooperation.Session.Messages

/-!
# Requests of an endpoint and their responses

An endpoint sends requests and is given responses. The table of the protocol client
finds the promise of a request by its id, so a response settles the future of the call
that it answers. An asynchronous call then leaves its future in a second table, under the
type of the message, and starts a thread that takes a future of that type out again and
waits for it. All this happens in small steps of several threads, which are the events
here; any schedule of them is a run.

The second table keeps the future that is in it when another of the same type comes. As
long as that does not happen, every handler gets the response to its own request.
-/

namespace DdeCooperation.Session

open Foundations Qt List Function

namespace ProtoEndpoint

inductive Kind where
  | sync
  | async

/-- The message of a call: `syncRequest` or `asyncRequestWithHandler`. -/
structure Call where
  kind : Kind
  id : ℕ
  type : ℤ

/-- The shared state of a promise and its future. -/
inductive FutureState where
  | pending
  | value (response : OriginMessage)
  | exception

/-- How far a call has come. -/
inductive Phase where
  | unmade
  /-- `request()` has returned. -/
  | requested
  /-- `asyncRequest` has returned false. -/
  | refused
  /-- The handler thread is started and has not looked at the table. -/
  | registered
  /-- The handler thread waits for the future it took: of which call, and the id beside it. -/
  | waiting (call id : ℕ)
  | finished

end ProtoEndpoint

open ProtoEndpoint in
/-- The tables of an endpoint and the progress of its calls, which are numbered. -/
structure ProtoEndpoint where
  /-- `_requests_by_id_OriginMessage`: the call whose promise stands under an id. -/
  requestsById : QHash ℕ ℕ := ∅
  /-- `_responses_by_type`: the call whose future stands under a type, and its id. -/
  responsesByType : QHash ℤ (ℕ × ℕ) := ∅
  futures : ℕ → FutureState := fun _ ↦ .exception
  phases : ℕ → Phase := fun _ ↦ .unmade
  /-- What the handlers were given, or a synchronous call returned; nothing is an empty text. -/
  delivered : List (ℕ × Option OriginMessage) := []

namespace ProtoEndpoint

inductive Event where
  /-- `request()`, which sends the message or fails to. -/
  | request (call : ℕ) (serialized : Bool)
  /-- The rest of `asyncRequest`, and the start of the handler thread. -/
  | register (call : ℕ)
  /-- `getResponse` looks at the table. -/
  | take (call : ℕ)
  /-- A handler thread polls its future. -/
  | poll (call : ℕ)
  /-- A handler thread has polled for three seconds. -/
  | expire (call : ℕ)
  /-- `syncRequest` asks its future. -/
  | get (call : ℕ)
  | response (message : OriginMessage)
  | reject (id : ℕ)
  | reset

def setPhase (n : ℕ) (phase : Phase) (endpoint : ProtoEndpoint) : ProtoEndpoint :=
  { endpoint with phases := Function.update endpoint.phases n phase }

/-- The call ends, and its handler gets a message or nothing. -/
def deliver (n : ℕ) (result : Option OriginMessage) (endpoint : ProtoEndpoint) : ProtoEndpoint :=
  { endpoint.setPhase n .finished with delivered := endpoint.delivered ++ [(n, result)] }

/-! ## The protocol client -/

def onReceiveResponse (message : OriginMessage) (endpoint : ProtoEndpoint) : ProtoEndpoint :=
  match endpoint.requestsById.lookup message.id with
  | none => endpoint
  | some n => { endpoint with
      requestsById := endpoint.requestsById.erase message.id
      futures := Function.update endpoint.futures n (.value message) }

def onReceiveReject (id : ℕ) (endpoint : ProtoEndpoint) : ProtoEndpoint :=
  match endpoint.requestsById.lookup id with
  | none => endpoint
  | some n => { endpoint with
      requestsById := endpoint.requestsById.erase id
      futures := Function.update endpoint.futures n .exception }

def resetRequests (endpoint : ProtoEndpoint) : ProtoEndpoint :=
  { endpoint with
    requestsById := ∅
    futures := fun n ↦
      if endpoint.requestsById.entries.any fun entry ↦ entry.2 = n then .exception
      else endpoint.futures n }

/-- `FinalClient::request`. A second request under an id that is in the table keeps no
place for its promise, which is then broken. -/
def request (id n : ℕ) (serialized : Bool) (endpoint : ProtoEndpoint) : ProtoEndpoint :=
  if serialized = true ∧ id ∉ endpoint.requestsById then
    { endpoint with
      requestsById := endpoint.requestsById.insert id n
      futures := Function.update endpoint.futures n .pending }
  else { endpoint with futures := Function.update endpoint.futures n .exception }

/-! ## The endpoint -/

section Machine

variable (calls : ℕ → Call)

/-- `_responses_by_type.insert` does nothing when the type is in the table. -/
def register (n : ℕ) (endpoint : ProtoEndpoint) : ProtoEndpoint :=
  match endpoint.futures n with
  | .exception => endpoint.setPhase n .refused
  | _ =>
    { endpoint.setPhase n .registered with
      responsesByType :=
        if (calls n).type ∈ endpoint.responsesByType then endpoint.responsesByType
        else endpoint.responsesByType.insert (calls n).type (n, (calls n).id) }

def take (n : ℕ) (endpoint : ProtoEndpoint) : ProtoEndpoint :=
  match endpoint.responsesByType.lookup (calls n).type with
  | none => endpoint.deliver n none
  | some (call, id) =>
    { endpoint.setPhase n (.waiting call id) with
      responsesByType := endpoint.responsesByType.erase (calls n).type }

/-- The answer that releases a request of which nothing more is expected. -/
def expired (id : ℕ) : OriginMessage := ⟨id, 0, ""⟩

def poll (n call id : ℕ) (endpoint : ProtoEndpoint) : ProtoEndpoint :=
  match endpoint.futures call with
  | .pending => endpoint
  | .value response => endpoint.deliver n (some response)
  | .exception => (endpoint.onReceiveResponse (expired id)).deliver n none

def step (endpoint : ProtoEndpoint) : Event → ProtoEndpoint
  | .request n serialized =>
    match endpoint.phases n with
    | .unmade => (endpoint.setPhase n .requested).request (calls n).id n serialized
    | _ => endpoint
  | .register n =>
    match (calls n).kind, endpoint.phases n with
    | .async, .requested => endpoint.register calls n
    | _, _ => endpoint
  | .take n =>
    match endpoint.phases n with
    | .registered => endpoint.take calls n
    | _ => endpoint
  | .poll n =>
    match endpoint.phases n with
    | .waiting call id => endpoint.poll n call id
    | _ => endpoint
  | .expire n =>
    match endpoint.phases n with
    | .waiting _ id => (endpoint.onReceiveResponse (expired id)).deliver n none
    | _ => endpoint
  | .get n =>
    match (calls n).kind, endpoint.phases n with
    | .sync, .requested =>
      match endpoint.futures n with
      | .pending => endpoint
      | .value response => endpoint.deliver n (some response)
      | .exception => endpoint.deliver n none
    | _, _ => endpoint
  | .response message => endpoint.onReceiveResponse message
  | .reject id => endpoint.onReceiveReject id
  | .reset => endpoint.resetRequests

end Machine

variable {calls : ℕ → Call} {endpoint : ProtoEndpoint}

/-! ## The invariant -/

/-- The tables agree with the calls: the promise under an id is that of a call with this
id, a future holds a response to its own call, a call that has been answered is finished,
and a thread that has not looked at the table will find its own future there or waits for
it already. -/
structure Matching (calls : ℕ → Call) (endpoint : ProtoEndpoint) : Prop where
  promise : ∀ id n, endpoint.requestsById.lookup id = some n → (calls n).id = id
  future : ∀ n response, endpoint.futures n = .value response → response.id = (calls n).id
  entry : ∀ n, endpoint.phases n = .registered →
    endpoint.responsesByType.lookup (calls n).type = some (n, (calls n).id)
  waits : ∀ n call id, endpoint.phases n = .waiting call id → call = n
  finished : ∀ result ∈ endpoint.delivered, endpoint.phases result.1 = .finished
  once : (endpoint.delivered.map Prod.fst).Nodup
  own : ∀ n response, (n, some response) ∈ endpoint.delivered → response.id = (calls n).id

theorem phases_onReceiveResponse (message : OriginMessage) :
    (endpoint.onReceiveResponse message).phases = endpoint.phases := by
  unfold onReceiveResponse
  split <;> rfl

variable (h : Matching calls endpoint)

include h

theorem promise_erase (key id n : ℕ)
    (hlookup : (endpoint.requestsById.erase key).lookup id = some n) : (calls n).id = id := by
  apply h.promise
  by_cases hid : id = key
  · rw [hid, AList.lookup_erase] at hlookup
    cases hlookup
  · rwa [AList.lookup_erase_ne hid] at hlookup

variable {n : ℕ}

/-- A future that is settled with a response to its call. -/
theorem future_update {state : FutureState}
    (hstate : ∀ response, state = .value response → response.id = (calls n).id) (m : ℕ)
    (response : OriginMessage) (hvalue : Function.update endpoint.futures n state m = .value response) :
    response.id = (calls m).id := by
  by_cases hm : m = n
  · subst hm
    rw [update_self] at hvalue
    exact hstate response hvalue
  · rw [update_of_ne hm] at hvalue
    exact h.future m response hvalue

theorem Matching.onReceiveResponse (message : OriginMessage) :
    Matching calls (endpoint.onReceiveResponse message) := by
  unfold ProtoEndpoint.onReceiveResponse
  split
  · exact h
  · next n hlookup =>
    refine { h with
      promise := promise_erase h message.id
      future := future_update h fun response hresponse ↦ ?_ }
    rw [← FutureState.value.inj hresponse]
    exact (h.promise message.id n hlookup).symm

theorem Matching.onReceiveReject (id : ℕ) : Matching calls (endpoint.onReceiveReject id) := by
  unfold ProtoEndpoint.onReceiveReject
  split
  · exact h
  · exact { h with promise := promise_erase h id, future := future_update h nofun }

theorem Matching.resetRequests : Matching calls endpoint.resetRequests := by
  refine { h with promise := fun id n hlookup ↦ ?_, future := fun n response hvalue ↦ ?_ }
  · simp [ProtoEndpoint.resetRequests] at hlookup
  · dsimp only [ProtoEndpoint.resetRequests] at hvalue
    split at hvalue
    · cases hvalue
    · exact h.future n response hvalue

theorem Matching.request (n : ℕ) (serialized : Bool) :
    Matching calls (endpoint.request (calls n).id n serialized) := by
  unfold ProtoEndpoint.request
  split
  · refine { h with promise := fun id m hlookup ↦ ?_, future := future_update h nofun }
    by_cases hid : id = (calls n).id
    · rw [hid, AList.lookup_insert] at hlookup
      rw [← Option.some.inj hlookup, hid]
    · rw [AList.lookup_insert_ne hid] at hlookup
      exact h.promise id m hlookup
  · exact { h with future := future_update h nofun }

/-- A call moves to a phase in which it is not yet answered and has no place in the table
of types. -/
theorem Matching.setPhase {phase : Phase}
    (hlive : endpoint.phases n ≠ .finished) (hregistered : phase ≠ .registered)
    (hwaits : ∀ call id, phase = .waiting call id → call = n) :
    Matching calls (endpoint.setPhase n phase) where
  promise := h.promise
  future := h.future
  entry := by
    intro m hm
    dsimp only [ProtoEndpoint.setPhase] at hm ⊢
    by_cases heq : m = n
    · rw [heq, update_self] at hm
      exact absurd hm hregistered
    · rw [update_of_ne heq] at hm
      exact h.entry m hm
  waits := by
    intro m call id hm
    dsimp only [ProtoEndpoint.setPhase] at hm
    by_cases heq : m = n
    · rw [heq, update_self] at hm
      rw [heq]
      exact hwaits call id hm
    · rw [update_of_ne heq] at hm
      exact h.waits m call id hm
  finished := by
    intro result hresult
    have hold := h.finished result hresult
    dsimp only [ProtoEndpoint.setPhase]
    rw [update_of_ne]
    · exact hold
    · rintro rfl
      exact hlive hold
  once := h.once
  own := h.own

/-- The end of a call that was not answered before. -/
theorem Matching.deliver {result : Option OriginMessage} (hlive : endpoint.phases n ≠ .finished)
    (hresult : ∀ response, result = some response → response.id = (calls n).id) :
    Matching calls (endpoint.deliver n result) := by
  have hphase : Matching calls (endpoint.setPhase n .finished) := h.setPhase hlive nofun nofun
  refine ⟨h.promise, h.future, hphase.entry, hphase.waits, ?_, ?_, ?_⟩
  · intro other hother
    rcases mem_append.mp hother with hold | hnew
    · exact hphase.finished other hold
    · rw [mem_singleton.mp hnew]
      exact update_self n .finished endpoint.phases
  · dsimp only [ProtoEndpoint.deliver]
    rw [map_append, nodup_append]
    refine ⟨h.once, nodup_singleton n, ?_⟩
    intro m hm k hk heq
    obtain ⟨old, hold, rfl⟩ := mem_map.mp hm
    rw [map_singleton, mem_singleton] at hk
    have hn : old.1 = n := heq.trans hk
    exact hlive (hn ▸ h.finished old hold)
  · intro m response hmem
    rcases mem_append.mp hmem with hold | hnew
    · exact h.own m response hold
    · have hpair := Prod.mk.inj (mem_singleton.mp hnew)
      rw [hpair.1]
      exact hresult response hpair.2.symm

/-- The future of an accepted call gets the place of its type, which is free. -/
theorem Matching.register (hphase : endpoint.phases n = .requested)
    (hfree : endpoint.futures n ≠ .exception → (calls n).type ∉ endpoint.responsesByType) :
    Matching calls (endpoint.register calls n) := by
  have hlive : endpoint.phases n ≠ .finished := by simp [hphase]
  unfold ProtoEndpoint.register
  split
  · exact h.setPhase hlive nofun nofun
  · next hfuture =>
    have hnone : (calls n).type ∉ endpoint.responsesByType := hfree hfuture
    rw [if_neg hnone]
    refine ⟨h.promise, h.future, fun m hm ↦ ?_, fun m call id hm ↦ ?_, fun result hresult ↦ ?_,
      h.once, h.own⟩
    · dsimp only [ProtoEndpoint.setPhase] at hm ⊢
      by_cases heq : m = n
      · rw [heq, AList.lookup_insert]
      · rw [update_of_ne heq] at hm
        have hentry := h.entry m hm
        -- a call of the same type would have the place
        have htype : (calls m).type ≠ (calls n).type := by
          intro htype
          rw [htype] at hentry
          exact hnone (AList.lookup_isSome.mp (hentry ▸ rfl))
        rw [AList.lookup_insert_ne htype]
        exact hentry
    · dsimp only [ProtoEndpoint.setPhase] at hm
      by_cases heq : m = n
      · rw [heq, update_self] at hm
        cases hm
      · rw [update_of_ne heq] at hm
        exact h.waits m call id hm
    · have hold := h.finished result hresult
      dsimp only [ProtoEndpoint.setPhase]
      rw [update_of_ne]
      · exact hold
      · rintro rfl
        exact hlive hold

/-- The thread finds the future of its own call. -/
theorem Matching.take (hphase : endpoint.phases n = .registered) :
    Matching calls (endpoint.take calls n) := by
  have hlive : endpoint.phases n ≠ .finished := by simp [hphase]
  have hentry := h.entry n hphase
  have hwaits : Matching calls (endpoint.setPhase n (.waiting n (calls n).id)) := by
    refine h.setPhase hlive nofun ?_
    intro call id hwaiting
    exact (Phase.waiting.inj hwaiting).1.symm
  simp only [ProtoEndpoint.take, hentry]
  refine ⟨h.promise, h.future, fun m hm ↦ ?_, hwaits.waits, hwaits.finished, h.once, h.own⟩
  have hother := hwaits.entry m hm
  dsimp only [ProtoEndpoint.setPhase] at hm hother ⊢
  rw [AList.lookup_erase_ne]
  · exact hother
  · intro htype
    rw [htype, hentry] at hother
    have hsame : n = m := (Prod.mk.inj (Option.some.inj hother)).1
    rw [← hsame, update_self] at hm
    cases hm

theorem Matching.poll {call id : ℕ} (hphase : endpoint.phases n = .waiting call id) :
    Matching calls (endpoint.poll n call id) := by
  have hlive : endpoint.phases n ≠ .finished := by simp [hphase]
  have hcall : call = n := h.waits n call id hphase
  unfold ProtoEndpoint.poll
  split
  · exact h
  · next response hvalue =>
    apply h.deliver hlive
    intro other hother
    rw [← Option.some.inj hother, h.future call response hvalue, hcall]
  · refine (h.onReceiveResponse (expired id)).deliver ?_ nofun
    rwa [phases_onReceiveResponse]

omit h

/-- An accepted call finds the place of its type free. -/
def Apart (calls : ℕ → Call) (endpoint : ProtoEndpoint) : Event → Prop
  | .register n => endpoint.phases n = .requested → endpoint.futures n ≠ .exception →
      (calls n).type ∉ endpoint.responsesByType
  | _ => True

theorem Matching.step (h : Matching calls endpoint) {event : Event}
    (hapart : Apart calls endpoint event) : Matching calls (step calls endpoint event) := by
  cases event with
  | request n serialized =>
    simp only [ProtoEndpoint.step]
    split
    · next hphase =>
      have hrequested : Matching calls (endpoint.setPhase n .requested) := by
        refine h.setPhase ?_ nofun nofun
        rw [hphase]
        exact nofun
      exact hrequested.request n serialized
    · exact h
  | register n =>
    simp only [ProtoEndpoint.step]
    split
    · next hphase => exact h.register hphase (hapart hphase)
    · exact h
  | take n =>
    simp only [ProtoEndpoint.step]
    split
    · next hphase => exact h.take hphase
    · exact h
  | poll n =>
    simp only [ProtoEndpoint.step]
    split
    · next hphase => exact h.poll hphase
    · exact h
  | expire n =>
    simp only [ProtoEndpoint.step]
    split
    · next call id hphase =>
      refine (h.onReceiveResponse (expired id)).deliver ?_ nofun
      rw [phases_onReceiveResponse, hphase]
      exact nofun
    · exact h
  | get n =>
    simp only [ProtoEndpoint.step]
    split
    · next hphase =>
      have hlive : endpoint.phases n ≠ .finished := by simp [hphase]
      split
      · exact h
      · next response hvalue =>
        apply h.deliver hlive
        intro other hother
        rw [← Option.some.inj hother]
        exact h.future n response hvalue
      · exact h.deliver hlive nofun
    · exact h
  | response message => exact h.onReceiveResponse message
  | reject id => exact h.onReceiveReject id
  | reset => exact h.resetRequests

theorem matching_empty : Matching calls {} :=
  ⟨by simp, nofun, nofun, nofun, nofun, nodup_nil, nofun⟩

/-- In every schedule of calls, threads, responses and timeouts in which an accepted call
finds the place of its type free, each call is answered at most once, and with nothing or
with the response to its own request. -/
theorem delivered_matches (calls : ℕ → Call) (events : List Event)
    (h : Throughout (step calls) (Apart calls) {} events) :
    let endpoint := events.foldl (step calls) {}
    (endpoint.delivered.map Prod.fst).Nodup ∧
      ∀ n response, (n, some response) ∈ endpoint.delivered → response.id = (calls n).id := by
  have hmatching : Matching calls (events.foldl (step calls) {}) := by
    apply Throughout.invariant_foldl _ matching_empty h
    exact fun endpoint event hstate hapart ↦ Matching.step hstate hapart
  exact ⟨hmatching.once, hmatching.own⟩

/-- Requests with the ids `0`, `1`, … and all of the type `REQ_TRANS_CANCLE`. -/
def cancels (n : ℕ) : Call := ⟨.async, n, REQ_TRANS_CANCLE⟩

theorem delivered_matches_in_turn :
    let endpoint := [.request 0 true, .register 0, .take 0, .request 1 true, .register 1, .take 1,
      .response ⟨1, 0, "b"⟩, .poll 1, .response ⟨0, 0, "a"⟩, .poll 0].foldl (step cancels) {}
    endpoint.delivered = [(1, some ⟨1, 0, "b"⟩), (0, some ⟨0, 0, "a"⟩)] ∧
      (endpoint.delivered.map Prod.fst).Nodup ∧
      ∀ n response, (n, some response) ∈ endpoint.delivered → response.id = (cancels n).id := by
  refine ⟨rfl, delivered_matches cancels _ ?_⟩
  refine ⟨trivial, fun _ _ ↦ by decide, trivial, trivial, fun _ _ ↦ by decide, trivial, ?_⟩
  exact ⟨trivial, trivial, trivial, trivial, trivial⟩

/-- Two requests of one type: the thread of the second takes the future of the first. -/
theorem not_matched_overlapping :
    let endpoint := [.request 0 true, .register 0, .request 1 true, .register 1, .take 1,
      .response ⟨0, 0, "a"⟩, .poll 1].foldl (step cancels) {}
    (1, some ⟨0, 0, "a"⟩) ∈ endpoint.delivered ∧ (cancels 1).id ≠ 0 :=
  ⟨mem_cons_self, by decide⟩

end ProtoEndpoint

end DdeCooperation.Session
