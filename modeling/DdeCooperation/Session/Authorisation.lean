import DdeCooperation.Foundations.Runs
import DdeCooperation.Session.Server
import DdeCooperation.Session.Worker

/-!
# Who may start a transfer

A worker among its peers: messages arrive from any of them, connections end, and the
slots that the worker's own signals are connected to run when the event loop gets to
them. Beside the worker the state keeps the peers that have logged in with the saved PIN
and have been neither disconnected nor rejected since, which the worker itself does not
know: its table holds the names that the messages gave.

A request to transfer is accepted when the table is not empty. It then comes from a peer
that has logged in, provided that logins name the address they come from, that the answers
to logins of this side, which are entered into the same table, name peers that have logged in
here, and that the sender of the request is itself in the table.
-/

namespace DdeCooperation.Session

open Foundations Picojson List SessionWorker

variable {v : Value} {response : OriginMessage}

namespace Authorisation

/-- A worker, the slots waiting to run, and the peers that are logged in. -/
structure Exchange where
  worker : SessionWorker
  posted : List Signal := []
  authenticated : List Address := []

inductive Event where
  | message (peer : Address) (request : OriginMessage)
  | stateChanged (state : RpcState) (msg : String)
  | slot
  | updatePincode (code : String)
  /-- The answer to a login of this side. -/
  | updateLogin (ip : Address) (logined : Bool)

/-- The signals that are connected to slots of the worker itself. -/
def ownSlot : Signal → Bool
  | .onRemoteDisconnected _ => true
  | .onRejectConnection => true
  | _ => false

/-- The peer with this address is gone; a client that had no peer reports no address. -/
def ends (msg : String) : RpcState → Bool
  | .disconnected => msg ≠ ""
  | .pingout => true
  | _ => false

section Machine

variable (env : Surroundings)

/-- The login that a message asks for. -/
def loginOf (request : OriginMessage) : Option LoginMessage :=
  if request.jsonMsg = "" ∨ request.mask ≠ REQ_LOGIN then none
  else
    match env.parse request.jsonMsg with
    | none => none
    | some v =>
      match env.extMsghandler request.mask v with
      | some _ => none
      | none => (LoginMessage.fromJson v).toOption

/-- A login with the saved PIN is completed; with any other it is rejected. -/
def logged (exchange : Exchange) (peer : Address) (request : OriginMessage) : List Address :=
  match loginOf env request with
  | none => exchange.authenticated
  | some login =>
    if env.decodePin login.auth = exchange.worker.savedPin then peer :: exchange.authenticated
    else exchange.authenticated.filter (· ≠ peer)

def runSlot (signal : Signal) (worker : SessionWorker) : SessionWorker :=
  match signal with
  | .onRemoteDisconnected remote => worker.handleRemoteDisconnected remote
  | _ => worker

def step (exchange : Exchange) : Event → Exchange
  | .message peer request =>
    match exchange.worker.onReceivedMessage env request with
    | .error _ => exchange
    | .ok outcome =>
      { worker := outcome.worker
        posted := exchange.posted ++ outcome.signals.filter ownSlot
        authenticated := logged env exchange peer request }
  | .stateChanged state msg =>
    match exchange.worker.onStateChanged env state msg with
    | .error _ => exchange
    | .ok (_, worker, signals) =>
      { worker := worker
        posted := exchange.posted ++ signals.filter ownSlot
        authenticated :=
          if ends msg state then exchange.authenticated.filter (· ≠ msg) else exchange.authenticated }
  | .slot =>
    match exchange.posted with
    | [] => exchange
    | signal :: rest => { exchange with worker := runSlot signal exchange.worker, posted := rest }
  | .updatePincode code => { exchange with worker := exchange.worker.updatePincode code }
  | .updateLogin ip logined => { exchange with worker := exchange.worker.updateLogin ip logined }

/-- Transfer data is announced on behalf of a peer that is logged in. -/
def Authorised (exchange : Exchange) : Event → Prop
  | .message peer request =>
    ∀ outcome, exchange.worker.onReceivedMessage env request = .ok outcome →
      ∀ endpoint names tunnel service,
        Signal.onTransData endpoint names tunnel service ∈ outcome.signals →
          peer ∈ exchange.authenticated
  | _ => True

/-- A login names the address it comes from, and does not come with a wrong PIN from a
host of the table; an answer names a host of the table or one that is logged in; a request to
transfer that is not refused comes from a host of the table that is not about to leave it. -/
def Orderly (exchange : Exchange) : Event → Prop
  | .message peer request =>
    (∀ login, loginOf env request = some login →
      login.name = peer ∧
        (env.decodePin login.auth ≠ exchange.worker.savedPin →
          peer ∉ exchange.worker.loginHosts)) ∧
    (request.mask = REQ_TRANS_DATAS → exchange.worker.savedPin ≠ "" →
      exchange.worker.loginHosts.keys ≠ [] →
        peer ∈ exchange.worker.loginHosts ∧
          Signal.onRemoteDisconnected peer ∉ exchange.posted)
  | .updateLogin ip _ => ip ∈ exchange.worker.loginHosts ∨ ip ∈ exchange.authenticated
  | _ => True

end Machine

/-! ## What a message does -/

variable {env : Surroundings} {worker : SessionWorker} {request : OriginMessage}
  {outcome : Outcome}

/-- A callback that leaves the worker alone and runs none of its slots. Transfer data is announced
only for a request to transfer, and after the two tests. -/
structure Idle (worker : SessionWorker) (mask : ℤ) (outcome : Outcome) : Prop where
  same : outcome.worker = worker
  silent : outcome.signals.filter ownSlot = []
  announced : ∀ endpoint names tunnel service,
    Signal.onTransData endpoint names tunnel service ∈ outcome.signals →
      mask = REQ_TRANS_DATAS ∧ worker.savedPin ≠ "" ∧ worker.loginHosts.keys ≠ []

theorem Idle.of_bind {mask : ℤ} {α : Type} {x : Read α} {f : α → Outcome}
    (hf : ∀ a, Idle worker mask (f a)) (h : (x >>= fun a ↦ pure (f a)) = .ok outcome) :
    Idle worker mask outcome := by
  obtain ⟨a, -, hreturn⟩ := Read.exists_of_bind h
  cases hreturn
  exact hf a

theorem idle_dispatch {mask : ℤ} (hmask : mask ≠ REQ_LOGIN)
    (h : worker.dispatch env mask v response = .ok outcome) : Idle worker mask outcome := by
  unfold dispatch at h
  rw [if_neg hmask] at h
  split at h
  · exact .of_bind (fun _ ↦ ⟨rfl, rfl, by simp⟩) h
  split at h
  · next htrans =>
    obtain ⟨req, -, hreturn⟩ := Read.exists_of_bind h
    split at hreturn
    · cases hreturn
      exact ⟨rfl, rfl, nofun⟩
    · next htests =>
      cases hreturn
      refine ⟨rfl, ?_, fun _ _ _ _ _ ↦ ⟨htrans, not_or.mp htests⟩⟩
      dsimp only
      split <;> rfl
  split at h
  · exact .of_bind (fun _ ↦ ⟨rfl, rfl, by simp⟩) h
  split at h
  · cases h
    exact ⟨rfl, rfl, nofun⟩
  split at h
  · exact .of_bind (fun _ ↦ ⟨rfl, rfl, by simp⟩) h
  · cases h
    exact ⟨rfl, rfl, nofun⟩

/-- A message is a login with the saved PIN, a login with another, or no login. -/
theorem onReceivedMessage_cases (h : worker.onReceivedMessage env request = .ok outcome) :
    (∃ login, loginOf env request = some login ∧ env.decodePin login.auth = worker.savedPin ∧
      outcome.worker = worker.updateLogin login.name true ∧
      outcome.signals = [.onConnectChanged LOGIN_SUCCESS login.name]) ∨
    (∃ login, loginOf env request = some login ∧ env.decodePin login.auth ≠ worker.savedPin ∧
      outcome.worker = worker ∧
      outcome.signals = [.onConnectChanged LOGIN_DENIED login.name, .onRejectConnection]) ∨
    loginOf env request = none ∧ Idle worker request.mask outcome := by
  unfold onReceivedMessage at h
  split at h
  · next hempty =>
    cases h
    exact .inr (.inr ⟨if_pos (.inl hempty), rfl, rfl, nofun⟩)
  · next hempty =>
    by_cases hmask : request.mask = REQ_LOGIN
    · have hasks : ¬ (request.jsonMsg = "" ∨ request.mask ≠ REQ_LOGIN) := by simp [hempty, hmask]
      split at h
      · next hparse =>
        cases h
        have hnone : loginOf env request = none := by simp only [loginOf, if_neg hasks, hparse]
        exact .inr (.inr ⟨hnone, rfl, rfl, nofun⟩)
      · next v hparse =>
        split at h
        · next answer hanswer =>
          cases h
          have hnone : loginOf env request = none := by
            simp only [loginOf, if_neg hasks, hparse, hanswer]
          exact .inr (.inr ⟨hnone, rfl, rfl, nofun⟩)
        · next hanswer =>
          rw [dispatch, if_pos hmask] at h
          obtain ⟨login, hread, hreturn⟩ := Read.exists_of_bind h
          have hlogin : loginOf env request = some login := by
            simp only [loginOf, if_neg hasks, hparse, hanswer, hread]
            rfl
          split at hreturn
          · next hpin =>
            cases hreturn
            exact .inl ⟨login, hlogin, hpin, rfl, rfl⟩
          · next hpin =>
            cases hreturn
            exact .inr (.inl ⟨login, hlogin, hpin, rfl, rfl⟩)
    · refine .inr (.inr ⟨if_pos (.inr hmask), ?_⟩)
      split at h
      · cases h
        exact ⟨rfl, rfl, nofun⟩
      · split at h
        · cases h
          exact ⟨rfl, rfl, nofun⟩
        · exact idle_dispatch hmask h

/-! ## The invariant -/

/-- Every host of the table is logged in, or about to leave the table. -/
def Known (exchange : Exchange) : Prop :=
  ∀ host ∈ exchange.worker.loginHosts, host ∈ exchange.authenticated ∨
    Signal.onRemoteDisconnected host ∈ exchange.posted

variable {exchange : Exchange}

theorem Known.message (h : Known exchange) {peer : Address}
    (hguard : Orderly env exchange (.message peer request)) :
    Known (step env exchange (.message peer request)) := by
  cases houtcome : exchange.worker.onReceivedMessage env request with
  | error _ =>
    simp only [step, houtcome]
    exact h
  | ok outcome =>
    have hstep : step env exchange (.message peer request) =
        ⟨outcome.worker, exchange.posted ++ outcome.signals.filter ownSlot,
          logged env exchange peer request⟩ := by
      simp only [step, houtcome]
    rw [hstep]
    intro host hhost
    rcases onReceivedMessage_cases houtcome with
      ⟨login, hlogin, hpin, hworker, -⟩ | ⟨login, hlogin, hpin, hworker, -⟩ | ⟨hnone, hidle⟩
    · have hname := (hguard.1 login hlogin).1
      dsimp only at hhost ⊢
      rw [hworker, updateLogin, AList.mem_insert, hname] at hhost
      rw [logged, hlogin]
      dsimp only
      rw [if_pos hpin]
      rcases hhost with heq | hold
      · exact .inl (heq ▸ mem_cons_self)
      · exact (h host hold).imp (mem_cons_of_mem peer) (mem_append_left _)
    · have habsent := (hguard.1 login hlogin).2 hpin
      dsimp only at hhost ⊢
      rw [hworker] at hhost
      rw [logged, hlogin]
      dsimp only
      rw [if_neg hpin]
      have hne : host ≠ peer := by
        rintro rfl
        exact habsent hhost
      apply (h host hhost).imp
      · exact fun hmem ↦ mem_filter.mpr ⟨hmem, decide_eq_true hne⟩
      · exact fun hmem ↦ mem_append_left _ hmem
    · dsimp only at hhost ⊢
      rw [hidle.same] at hhost
      rw [logged, hnone, hidle.silent, append_nil]
      exact h host hhost

/-- A connection that ends posts the slot that will take the host out of the table. -/
theorem onStateChanged_cases {state : RpcState} {msg : String} {again : Bool}
    {next : SessionWorker} {signals : List Signal}
    (h : worker.onStateChanged env state msg = .ok (again, next, signals)) :
    next.loginHosts = worker.loginHosts ∧
      (ends msg state = true → Signal.onRemoteDisconnected msg ∈ signals.filter ownSlot) := by
  unfold onStateChanged at h
  cases state with
  | connected =>
    cases h
    exact ⟨rfl, nofun⟩
  | disconnected =>
    dsimp only at h
    split at h
    · next hempty =>
      cases h
      exact ⟨rfl, fun hends ↦ absurd hempty (of_decide_eq_true hends)⟩
    · cases h
      exact ⟨rfl, fun _ ↦ mem_cons_self⟩
  | error =>
    dsimp only at h
    split at h
    · cases h
    · split at h
      · cases h
        exact ⟨rfl, nofun⟩
      · cases h
        exact ⟨rfl, nofun⟩
  | pingout =>
    cases h
    exact ⟨rfl, fun _ ↦ mem_cons_self⟩
  | disconnecting | connecting =>
    cases h
    exact ⟨rfl, nofun⟩

theorem Known.stateChanged (h : Known exchange) (state : RpcState) (msg : String) :
    Known (step env exchange (.stateChanged state msg)) := by
  cases houtcome : exchange.worker.onStateChanged env state msg with
  | error _ =>
    simp only [step, houtcome]
    exact h
  | ok result =>
    obtain ⟨again, worker, signals⟩ := result
    obtain ⟨hhosts, hposted⟩ := onStateChanged_cases houtcome
    intro host hhost
    simp only [step, houtcome, hhosts] at hhost ⊢
    rcases h host hhost with hmem | hmem
    · by_cases hends : ends msg state = true
      · rw [if_pos hends]
        by_cases hne : host = msg
        · exact .inr (mem_append_right _ (hne ▸ hposted hends))
        · exact .inl (mem_filter.mpr ⟨hmem, decide_eq_true hne⟩)
      · rw [if_neg hends]
        exact .inl hmem
    · exact .inr (mem_append_left _ hmem)

theorem Known.slot (h : Known exchange) : Known (step env exchange .slot) := by
  cases hposted : exchange.posted with
  | nil =>
    simp only [step, hposted]
    exact h
  | cons signal rest =>
    intro host hhost
    simp only [step, hposted] at hhost ⊢
    have hold : host ∈ exchange.worker.loginHosts ∧ signal ≠ .onRemoteDisconnected host := by
      cases signal with
      | onRemoteDisconnected remote =>
        obtain ⟨hne, hmem⟩ := AList.mem_erase.mp hhost
        refine ⟨hmem, fun heq ↦ hne ?_⟩
        exact (Signal.onRemoteDisconnected.inj heq).symm
      | onRejectConnection | onTransData endpoint names tunnel service | onTransCount names size =>
        exact ⟨hhost, nofun⟩
      | onCancelJob jobid reason | onConnectChanged result reason => exact ⟨hhost, nofun⟩
    apply (h host hold.1).imp id
    intro hmem
    rw [hposted] at hmem
    rcases mem_cons.mp hmem with heq | hrest
    · exact absurd heq.symm hold.2
    · exact hrest

variable {event : Event}

theorem Known.step (h : Known exchange) (hguard : Orderly env exchange event) :
    Known (step env exchange event) := by
  cases event with
  | message peer request => exact h.message hguard
  | stateChanged state msg => exact h.stateChanged state msg
  | slot => exact h.slot
  | updatePincode code => exact h
  | updateLogin ip logined =>
    intro host hhost
    rcases (AList.mem_insert _).mp hhost with rfl | hold
    · exact hguard.elim (h host) .inl
    · exact h host hold

theorem Known.authorised (h : Known exchange) (hguard : Orderly env exchange event) :
    Authorised env exchange event := by
  cases event with
  | message peer request =>
    intro outcome houtcome endpoint names tunnel service hsignal
    have htests : request.mask = REQ_TRANS_DATAS ∧ exchange.worker.savedPin ≠ "" ∧
        exchange.worker.loginHosts.keys ≠ [] := by
      rcases onReceivedMessage_cases houtcome with
        ⟨_, _, _, _, hsignals⟩ | ⟨_, _, _, _, hsignals⟩ | ⟨-, hidle⟩
      · simp [hsignals] at hsignal
      · simp [hsignals] at hsignal
      · exact hidle.announced endpoint names tunnel service hsignal
    obtain ⟨hmask, hpin, hhosts⟩ := htests
    obtain ⟨hpeer, hstays⟩ := hguard.2 hmask hpin hhosts
    exact (h peer hpeer).resolve_right hstays
  | stateChanged state msg => trivial
  | slot => trivial
  | updatePincode code => trivial
  | updateLogin ip logined => trivial

/-- In a run of orderly events from a worker whose table is empty, transfer data is
announced only on behalf of peers that are logged in. -/
theorem authorised_of_orderly (env : Surroundings) (pin : String) (events : List Event)
    (h : Throughout (step env) (Orderly env) ⟨{ savedPin := pin }, [], []⟩ events) :
    Throughout (step env) (Authorised env) ⟨{ savedPin := pin }, [], []⟩ events := by
  have hstart : Known ⟨{ savedPin := pin }, [], []⟩ := fun host hhost ↦
    absurd hhost (AList.notMem_empty host)
  apply Throughout.of_invariant _ _ hstart h
  · exact fun exchange event hknown hguard ↦ Known.step hknown hguard
  · exact fun exchange event hknown hguard ↦ Known.authorised hknown hguard

/-! ## Two peers -/

def loginText : String :=
  "\x7b\"name\":\"10.0.0.2\",\"auth\":\"MTIzNDU2\"\x7d"

def transText : String :=
  "\x7b\"id\":\"1\",\"token\":\"10.0.0.3:51618:t\",\"flag\":true,\"size\":0,\"names\":[\"a\"]\x7d"

/-- Surroundings that read the two texts and the PIN `123456` as the libraries do. -/
def twoTexts : Surroundings where
  parse text :=
    if text = loginText then
      some (.object [("name", .string "10.0.0.2"), ("auth", .string "MTIzNDU2")])
    else if text = transText then
      some (.object [("id", .string "1"), ("token", .string "10.0.0.3:51618:t"),
        ("flag", .boolean true), ("size", .int64 0), ("names", .array [.string "a"])])
    else none
  serialize _ := "\x7b\x7d"
  decodePin auth := if auth = "MTIzNDU2" then "123456" else ""
  stoi _ := none
  extMsghandler _ _ := none
  createUuid := "6ba7b810-9dad-11d1-80b4-00c04fd430c8"
  getFirstIp := "10.0.0.1"
  indeterminate := 0

theorem authorised_of_orderly_one_peer :
    Throughout (step twoTexts) (Authorised twoTexts) ⟨{ savedPin := "123456" }, [], []⟩
      [.message "10.0.0.2" ⟨1, REQ_LOGIN, loginText⟩,
        .message "10.0.0.2" ⟨2, REQ_TRANS_DATAS, transText⟩] := by
  apply authorised_of_orderly
  refine ⟨⟨fun login hlogin ↦ ?_, fun hmask ↦ absurd hmask (by decide)⟩,
    ⟨fun login hlogin ↦ ?_, fun _ _ _ ↦ ?_⟩, trivial⟩
  · have heq : login = ⟨"10.0.0.2", "MTIzNDU2"⟩ := Option.some.inj hlogin.symm
    rw [heq]
    exact ⟨rfl, fun hpin ↦ absurd rfl hpin⟩
  · cases hlogin
  · decide

/-- One peer logs in, and another is let through. -/
theorem not_authorised_second_peer :
    ¬ Throughout (step twoTexts) (Authorised twoTexts) ⟨{ savedPin := "123456" }, [], []⟩
      [.message "10.0.0.2" ⟨1, REQ_LOGIN, loginText⟩,
        .message "10.0.0.3" ⟨2, REQ_TRANS_DATAS, transText⟩] := by
  intro h
  have hpeer := h.2.1 _ rfl "10.0.0.3:51618:t" ["a"] false "" mem_cons_self
  exact absurd hpeer (by decide)

end Authorisation

end DdeCooperation.Session
