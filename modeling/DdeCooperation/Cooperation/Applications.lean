import DdeCooperation.Foundations.Runs
import DdeCooperation.Cooperation.Network

/-!
# Applications that wait for a login

Beside the network part this machine keeps what `_nextCombi` has no room for: all the
applications whose login has not been answered, and the host that the daemon was last
told to connect to. An answer to a login should send the applications that wait for this
login and no other, and a login that fails should be reported for its own address.

That holds while one application at a time waits, and while its login is answered by the
host it was made to: over the session with a token, by the daemon in either way. A login that is
given up, or whose connection fails, leaves its application where it waits.
-/

namespace DdeCooperation.Cooperation

open Foundations Picojson Session Option NetworkUtil

namespace Applications

structure Waiting where
  network : NetworkUtil := {}
  /-- The applications whose login is not answered. -/
  pending : List Request := []
  daemonHost : Address := ""

inductive Event where
  | trySearchDevice (ip : Address) (logind : ℤ)
  | tryTransApply (ip : Address) (logind : ℤ)
  | tryShareApply (ip : Address) (selfprint : String) (logind : ℤ)
  /-- The answer to the login that was sent to a host, empty when there was none. -/
  | loginResult (host : Address) (response : String)
  | applyResult (type : Apply) (response : String)
  | compatConnectResult (result : ℤ) (ip : Address)
  | connectStatus (result : ℤ) (reason : Address)
  /-- `scheduleRpcRetry` has no attempt left to send the login. -/
  | loginGivenUp (host : Address)

section Machine

variable (device : Device)

/-- The login is answered. -/
def answered (response : String) : Bool :=
  response ≠ "" && (device.parse response).isSome

/-- The login is answered with a token. -/
def loggedIn (response : String) : Bool :=
  response ≠ "" &&
    match device.parse response with
    | none => false
    | some v =>
      match LoginMessage.fromJson v with
      | .ok login => login.auth ≠ ""
      | .error _ => false

/-- The network part after an event, and its calls. A slot that throws changes nothing. -/
def act (network : NetworkUtil) : Event → NetworkUtil × List Call
  | .trySearchDevice ip logind => network.trySearchDevice device ip logind
  | .tryTransApply ip logind => network.tryTransApply device ip logind
  | .tryShareApply ip selfprint logind => network.tryShareApply device ip selfprint logind
  | .loginResult _ response =>
    match network.handleLoginResult device response with
    | .ok result => result
    | .error _ => (network, [])
  | .applyResult type response =>
    match network.handleApplyResult device type response with
    | .ok calls => (network, calls)
    | .error _ => (network, [])
  | .compatConnectResult result ip => network.handleCompatConnectResult device result ip
  | .connectStatus result reason => (network, handleConnectStatus result reason)
  | .loginGivenUp _ => (network, [])

/-- An application waits from the time it starts a login to the time the login is answered. -/
def awaited (logind : ℤ) (request : Request) (pending : List Request) : List Request :=
  if logind > 0 then pending else pending ++ [request]

def nextPending (pending : List Request) : Event → List Request
  | .trySearchDevice ip logind => awaited logind (.info, ip) pending
  | .tryTransApply ip logind => awaited logind (.trans, ip) pending
  | .tryShareApply ip _ logind => awaited logind (.share, ip) pending
  | .loginResult host response =>
    -- without an answer the old protocol is tried
    if answered device response then pending.filter (·.2 ≠ host) else pending
  | .compatConnectResult _ ip => pending.filter (·.2 ≠ ip)
  | .applyResult _ _ | .connectStatus _ _ | .loginGivenUp _ => pending

/-- The host the daemon is told to connect to. -/
def nextHost (host : Address) : List Call → Address
  | [] => host
  | .doTryConnect ip :: rest => nextHost ip rest
  | _ :: rest => nextHost host rest

def step (waiting : Waiting) (event : Event) : Waiting where
  network := (act device waiting.network event).1
  pending := nextPending device waiting.pending event
  daemonHost := nextHost waiting.daemonHost (act device waiting.network event).2

/-- The application that a call sends, and where to. -/
def sentBy (daemonHost : Address) : Call → Option Request
  | .sendRpcRequest ip type _ => some (type, ip)
  | .doAsyncSearch ip => some (.info, ip)
  | .doApplyTransfer _ => some (.trans, daemonHost)
  | .doApplyShare ip _ => some (.share, ip)
  | _ => none

def sent (waiting : Waiting) (event : Event) : List Request :=
  (act device waiting.network event).2.filterMap (sentBy waiting.daemonHost)

/-- The report that an application has failed. -/
def IsReport (call : Call) : Request → Prop
  | (.trans, ip) => ∃ result ≤ 0, call = .onConnectStatusChanged result ip true
  | (.share, _) => call = .handleConnectResult SHARE_CONNECT_UNABLE
  | (.info, _) => call = .addSearchDeivce ""

def sentAtOnce (logind : ℤ) (request : Request) : List Request :=
  if logind > 0 then [request] else []

/-- The applications that an event is to send. -/
def due (waiting : Waiting) : Event → List Request
  | .trySearchDevice ip logind => sentAtOnce logind (.info, ip)
  | .tryTransApply ip logind => sentAtOnce logind (.trans, ip)
  | .tryShareApply ip _ logind => sentAtOnce logind (.share, ip)
  | .loginResult host response =>
    if loggedIn device response then waiting.pending.filter (·.2 = host) else []
  | .compatConnectResult result ip =>
    if result > 0 then waiting.pending.filter (·.2 = ip) else []
  | .applyResult _ _ | .connectStatus _ _ | .loginGivenUp _ => []

/-- The host whose login an event shows to have failed: by its answer, by the connection, which
has ended, failed, fallen silent, timed out or not been possible, or for want of attempts. -/
def failedHost : Event → Option Address
  | .loginResult host response => if loggedIn device response then none else some host
  | .compatConnectResult result ip => if result > 0 then none else some ip
  | .connectStatus result reason =>
    if result ∈ ([-1, -2, EX_NETWORK_PINGOUT, 110, 113] : List ℤ) then some reason else none
  | .loginGivenUp host => some host
  | _ => none

/-- An event sends the applications that are due, each once, and no other; and where a
login has failed, every application that waits for it is reported, or waits for the login
of the old protocol at its own address. -/
def NotCrossed (waiting : Waiting) (event : Event) : Prop :=
  sent device waiting event = due device waiting event ∧
  ∀ host, failedHost device event = some host → ∀ request ∈ waiting.pending, request.2 = host →
    ∃ call ∈ (act device waiting.network event).2,
      IsReport call request ∨ call = .doTryConnect request.2

/-- An application is made when none waits. While one waits, a login is answered by the
host it was made to; over the session with a token, or by the daemon for the host it was
told to connect to. Its connection does not fail before that, and it is not given up. -/
def OneAtATime (waiting : Waiting) : Event → Prop
  | .trySearchDevice _ _ => waiting.network.nextCombi = none
  | .tryTransApply _ _ => waiting.network.nextCombi = none
  | .tryShareApply _ _ _ => waiting.network.nextCombi = none
  | .loginResult host response => ∀ request, waiting.network.nextCombi = some request →
      host = request.2 ∧ loggedIn device response = true
  | .compatConnectResult _ ip => ∀ request, waiting.network.nextCombi = some request →
      ip = request.2 ∧ waiting.daemonHost = request.2
  | .connectStatus result reason => ∀ request, waiting.network.nextCombi = some request →
      failedHost device (.connectStatus result reason) ≠ some request.2
  | .loginGivenUp host => ∀ request, waiting.network.nextCombi = some request → host ≠ request.2
  | .applyResult _ _ => True

end Machine

variable {device : Device} {network : NetworkUtil} {waiting : Waiting}

/-! ## What is sent -/

/-- Sending what waits leaves nothing waiting, and addresses it as it was made. -/
theorem doNextCombiRequest_spec (device : Device) (network : NetworkUtil)
    (ip daemonHost : Address) (compat : Bool)
    (hhost : compat = true → ∀ request, network.nextCombi = some request → daemonHost = request.2) :
    (network.doNextCombiRequest device ip compat).1.nextCombi = none ∧
      (network.doNextCombiRequest device ip compat).2.filterMap (sentBy daemonHost) =
        network.nextCombi.toList := by
  cases hnext : network.nextCombi with
  | none => simp [doNextCombiRequest, hnext]
  | some request =>
    obtain ⟨type, comip⟩ := request
    cases type with
    | info => cases compat <;> simp [doNextCombiRequest, hnext,
        reqTargetInfo, sentBy]
    | trans =>
      cases compat with
      | false => simp [doNextCombiRequest, hnext, sendTransApply, sentBy]
      | true => simp [doNextCombiRequest, hnext, sendTransApply, sentBy,
          hhost rfl _ hnext]
    | share => cases compat <;> simp [doNextCombiRequest, hnext,
        sendShareApply, sentBy]

variable {type : Apply} {ip daemonHost : Address}

theorem tryApply_spec (logind : ℤ) :
    (network.tryApply device type ip logind).1.nextCombi.toList = awaited logind (type, ip) [] ∧
      (network.tryApply device type ip logind).2.filterMap (sentBy daemonHost) =
        sentAtOnce logind (type, ip) := by
  unfold tryApply awaited sentAtOnce
  by_cases hneg : logind < 0
  · have hpos : ¬ logind > 0 := by omega
    simp [hneg, hpos, sentBy]
  · by_cases hpos : logind > 0
    · have hspec := doNextCombiRequest_spec device
        { network with nextCombi := some (type, ip) } ip daemonHost false nofun
      simp only [if_neg hneg, if_pos hpos, hspec.1, hspec.2]
      exact ⟨rfl, rfl⟩
    · simp [hneg, hpos]

variable {response : String}

/-- What a login over the session does when it is answered with a token. -/
theorem act_loginResult_loggedIn (network : NetworkUtil)
    (h : loggedIn device response = true) (host : Address) :
    (act device network (.loginResult host response)).1 =
        (network.doNextCombiRequest device host false).1 ∧
      ∀ daemonHost, (act device network (.loginResult host response)).2.filterMap
          (sentBy daemonHost) =
        (network.doNextCombiRequest device host false).2.filterMap (sentBy daemonHost) := by
  unfold loggedIn at h
  obtain ⟨hresponse, hlogin⟩ := Bool.and_eq_true_iff.mp h
  have hempty : response ≠ "" := of_decide_eq_true hresponse
  cases hparse : device.parse response with
  | none =>
    rw [hparse] at hlogin
    cases hlogin
  | some v =>
    rw [hparse] at hlogin
    cases hread : LoginMessage.fromJson v with
    | error _ =>
      simp only [hread] at hlogin
      cases hlogin
    | ok login =>
      have hact : act device network (.loginResult host response) =
          ((network.doNextCombiRequest device host false).1,
            .updateLoginStatus login.name (login.auth ≠ "") ::
              (network.doNextCombiRequest device host false).2) := by
        simp only [act, handleLoginResult, if_neg hempty, hparse, hread]
        rfl
      rw [hact]
      exact ⟨rfl, fun daemonHost ↦ rfl⟩

/-! ## The invariant -/

/-- What waits is what the one place holds. -/
def Single (waiting : Waiting) : Prop := waiting.pending = waiting.network.nextCombi.toList

variable {ip : Address}

/-- An application that is made when none waits. -/
theorem Single.tryApply {type : Apply} {logind : ℤ} (h : Single waiting)
    (hnone : waiting.network.nextCombi = none) (network : NetworkUtil) :
    awaited logind (type, ip) waiting.pending =
        (network.tryApply device type ip logind).1.nextCombi.toList ∧
      (network.tryApply device type ip logind).2.filterMap (sentBy waiting.daemonHost) =
        sentAtOnce logind (type, ip) := by
  have hpending : waiting.pending = [] := by rw [h, hnone, toList_none]
  obtain ⟨hnext, hsent⟩ := tryApply_spec logind
  exact ⟨by rw [hpending, hnext], hsent⟩

/-- Without anything waiting, an answer to a login sends nothing. -/
theorem loginResult_of_none (device : Device) (hnone : network.nextCombi = none) (host daemonHost : Address)
    (response : String) :
    (act device network (.loginResult host response)).1.nextCombi = none ∧
      (act device network (.loginResult host response)).2.filterMap (sentBy daemonHost) = [] := by
  simp only [act, handleLoginResult]
  split
  · next result hresult =>
    split at hresult
    · cases hresult
      exact ⟨hnone, rfl⟩
    · obtain ⟨login, -, hreturn⟩ := Read.exists_of_bind hresult
      have hspec := doNextCombiRequest_spec device network login.name daemonHost false nofun
      cases hreturn
      rw [hnone, toList_none] at hspec
      exact ⟨hspec.1, hspec.2⟩
  · exact ⟨hnone, rfl⟩

theorem filterMap_compatReport (result : ℤ) :
    (network.compatReport result ip).filterMap (sentBy daemonHost) = [] := by
  unfold compatReport
  split
  · rfl
  · split <;> rfl
  · split <;> rfl
  · rfl

variable {result : ℤ}

/-- A login of the old protocol that fails is reported for what waits. -/
theorem exists_report {request : Request} (hnext : network.nextCombi = some request)
    (hresult : ¬ result > 0) :
    ∃ call ∈ network.compatReport result request.2, IsReport call request := by
  have hle : result ≤ 0 := by omega
  obtain ⟨type, ip⟩ := request
  cases type with
  | info => exact ⟨_, by simp [compatReport, hnext, hle], rfl⟩
  | trans => exact ⟨_, by simp [compatReport, hnext], result, hle, rfl⟩
  | share => exact ⟨_, by simp [compatReport, hnext, hle], rfl⟩

variable {response : String}

/-- The answer to an application sends none. -/
theorem act_applyResult :
    (act device network (.applyResult type response)).1 = network ∧
      (act device network (.applyResult type response)).2.filterMap (sentBy daemonHost) = [] := by
  simp only [act]
  split
  · next calls hcalls =>
    refine ⟨rfl, ?_⟩
    unfold handleApplyResult at hcalls
    dsimp only at hcalls
    split at hcalls
    · cases hcalls
      rfl
    · obtain ⟨reply, -, hreturn⟩ := Read.exists_of_bind hcalls
      cases hreturn
      rfl
    · cases hcalls
      rfl
    · cases hcalls
      rfl
    · cases hcalls
      rfl
  · exact ⟨rfl, rfl⟩

theorem Single.loginResult {host : Address} (h : Single waiting)
    (hguard : OneAtATime device waiting (.loginResult host response)) :
    Single (step device waiting (.loginResult host response)) ∧
      NotCrossed device waiting (.loginResult host response) := by
  cases hnext : waiting.network.nextCombi with
  | none =>
    have hpending : waiting.pending = [] := by rw [h, hnext, toList_none]
    obtain ⟨hnone, hsent⟩ := loginResult_of_none device hnext host waiting.daemonHost response
    refine ⟨?_, ?_, ?_⟩
    · unfold Single
      simp only [Applications.step, hnone, hpending, nextPending, List.filter_nil, ite_self,
        toList_none]
    · simp only [sent, hsent, due, hpending, List.filter_nil, ite_self]
    · simp only [hpending, List.not_mem_nil, false_implies, implies_true]
  | some request =>
    obtain ⟨hhost, hlogged⟩ := hguard request hnext
    have hpending : waiting.pending = [request] := by rw [h, hnext, toList_some]
    have hspec := doNextCombiRequest_spec device waiting.network host waiting.daemonHost false nofun
    obtain ⟨hact, hcalls⟩ := act_loginResult_loggedIn waiting.network hlogged host
    subst hhost
    have hanswered : answered device response = true := by
      unfold answered
      unfold loggedIn at hlogged
      obtain ⟨hresponse, hparsed⟩ := Bool.and_eq_true_iff.mp hlogged
      rw [hresponse, Bool.true_and]
      cases hparse : device.parse response with
      | none => simp [hparse] at hparsed
      | some v => rfl
    refine ⟨?_, ?_, ?_⟩
    · unfold Single
      simp only [Applications.step, hact, hspec.1, toList_none, nextPending, hanswered,
        if_true, hpending, List.filter_singleton, ne_eq, not_true_eq_false,
        decide_false, cond_false]
    · simp only [sent, hcalls, hspec.2, hnext, toList_some, due, hlogged, if_true, hpending,
        List.filter_singleton, decide_true, cond_true]
    · intro other hother
      simp [failedHost, hlogged] at hother

theorem Single.compatConnectResult (h : Single waiting)
    (hguard : OneAtATime device waiting (.compatConnectResult result ip)) :
    Single (step device waiting (.compatConnectResult result ip)) ∧
      NotCrossed device waiting (.compatConnectResult result ip) := by
  have hspec := doNextCombiRequest_spec device waiting.network ip waiting.daemonHost true
    fun _ request hnext ↦ (hguard request hnext).2
  -- whatever waits, it waits for this host
  have hfilter : waiting.pending.filter (·.2 ≠ ip) = [] ∧
      waiting.pending.filter (·.2 = ip) = waiting.pending := by
    cases hnext : waiting.network.nextCombi with
    | none => simp [show waiting.pending = [] by rw [h, hnext, toList_none]]
    | some request =>
      have hpending : waiting.pending = [request] := by rw [h, hnext, toList_some]
      simp [hpending, (hguard request hnext).1]
  by_cases hresult : result > 0
  · refine ⟨?_, ?_, ?_⟩
    · unfold Single
      simp only [Applications.step, act, handleCompatConnectResult, if_pos hresult,
        hspec.1, nextPending, hfilter.1, toList_none]
    · simp only [sent, act, handleCompatConnectResult, if_pos hresult,
        List.filterMap_append, filterMap_compatReport, hspec.2, List.nil_append, due, hfilter.2]
      exact h.symm
    · intro host hhost
      simp [failedHost, hresult] at hhost
  · refine ⟨?_, ?_, ?_⟩
    · unfold Single
      simp only [Applications.step, act, handleCompatConnectResult, if_neg hresult,
        nextPending, hfilter.1, toList_none]
    · simp only [sent, act, handleCompatConnectResult, if_neg hresult,
        filterMap_compatReport, due]
    · intro host _ request hrequest _
      have hnext : waiting.network.nextCombi = some request := by
        rw [h, mem_toList] at hrequest
        exact hrequest
      obtain ⟨call, hcall, hreport⟩ := exists_report hnext hresult
      refine ⟨call, ?_, .inl hreport⟩
      simp only [act, handleCompatConnectResult, if_neg hresult]
      rw [(hguard request hnext).1]
      exact hcall

/-- After an orderly event the place again holds what waits, and nothing was crossed. -/
theorem Single.step {event : Event} (h : Single waiting) (hguard : OneAtATime device waiting event) :
    Single (step device waiting event) ∧ NotCrossed device waiting event := by
  cases event with
  | trySearchDevice ip logind | tryTransApply ip logind =>
    obtain ⟨hnext, hsent⟩ := h.tryApply hguard waiting.network
    exact ⟨hnext, hsent, nofun⟩
  | tryShareApply ip selfprint logind =>
    obtain ⟨hnext, hsent⟩ := h.tryApply hguard { waiting.network with selfFingerPrint := selfprint }
    exact ⟨hnext, hsent, nofun⟩
  | applyResult type response =>
    obtain ⟨hsame, hsent⟩ := act_applyResult
    refine ⟨?_, hsent, nofun⟩
    unfold Single
    simp only [Applications.step, hsame, nextPending]
    exact h
  | loginGivenUp host =>
    refine ⟨h, rfl, fun failed hfailed request hrequest hhost ↦ ?_⟩
    rw [h, mem_toList] at hrequest
    exact absurd ((some.inj hfailed).trans hhost.symm) (hguard request hrequest)
  | connectStatus result reason =>
    refine ⟨h, ?_, fun failed hfailed request hrequest hhost ↦ ?_⟩
    rotate_left
    · rw [h, mem_toList] at hrequest
      rw [← hhost] at hfailed
      exact absurd hfailed (hguard request hrequest)
    simp only [sent, act, due, handleConnectStatus]
    split
    · rfl
    · split
      · rfl
      · split <;> rfl
  | loginResult host response => exact h.loginResult hguard
  | compatConnectResult result ip => exact h.compatConnectResult hguard

/-- In a run in which one application at a time waits, and its login is answered, by its
own host, what is sent is what was asked for, once and to its own address, and a login
that fails is reported. -/
theorem notCrossed_of_oneAtATime (device : Device) (events : List Event)
    (h : Throughout (step device) (OneAtATime device) {} events) :
    Throughout (step device) (NotCrossed device) {} events := by
  have hstart : Single {} := rfl
  apply Throughout.of_invariant _ _ hstart h
  · exact fun waiting event hsingle hguard ↦ (Single.step hsingle hguard).1
  · exact fun waiting event hsingle hguard ↦ (Single.step hsingle hguard).2

/-! ## Two devices -/

def tokenText : String := "\x7b\"name\":\"10.0.0.2\",\"auth\":\"t\"\x7d"

/-- A device that reads the answer of a host with a token. -/
def tokenDevice : Device where
  parse text :=
    if text = tokenText then
      some (.object [("name", .string "10.0.0.2"), ("auth", .string "t")])
    else none
  deviceInfoStr := "\x7b\x7d"
  deviceName := "desk"
  localIPAddress := "10.0.0.1"
  hasTunnelManager := true

theorem notCrossed_of_oneAtATime_in_turn :
    Throughout (step tokenDevice) (NotCrossed tokenDevice) {}
      [.tryTransApply "10.0.0.2" 0, .loginResult "10.0.0.2" tokenText,
        .trySearchDevice "10.0.0.3" (-1), .compatConnectResult 0 "10.0.0.3"] := by
  apply notCrossed_of_oneAtATime
  refine ⟨rfl, fun request hnext ↦ ?_, rfl, fun request hnext ↦ ?_, trivial⟩
  · rw [← some.inj hnext]
    exact ⟨rfl, rfl⟩
  · rw [← some.inj hnext]
    exact ⟨rfl, rfl⟩

/-- A search that is made while a transfer waits takes its place: the login of the first
host sends the search to the second. -/
theorem crossed_by_search :
    ¬ Throughout (step tokenDevice) (NotCrossed tokenDevice) {}
      [.tryTransApply "10.0.0.2" 0, .trySearchDevice "10.0.0.3" 0,
        .loginResult "10.0.0.2" tokenText] := by
  intro h
  have hsent : [(Apply.info, "10.0.0.3")] = [(Apply.trans, "10.0.0.2")] := h.2.2.1.1
  exact absurd hsent (by decide)

end Applications

end DdeCooperation.Cooperation
