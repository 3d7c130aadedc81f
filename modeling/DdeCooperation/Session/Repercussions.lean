import DdeCooperation.Session.Authorisation
import DdeCooperation.Session.Jobs
import DdeCooperation.Session.Sending

/-!
# What the event of one peer does to the others

A station has a session worker with its client and server and a session manager with its
transfers. A rejected login, a cancellation that arrives and a local disconnection each
have effects that come later: a slot runs, the connections that were told to end do so, and
each of them reports its end, for which another slot takes a host out of the table of
logins. Between these steps anything else can happen. Whatever waits is recorded together
with the device that caused it.

The request to disconnect that follows a rejected login goes to every session of the
server. A cancellation names the job that is released. A disconnection from one peer closes
the client and all sessions. So others are spared if and only if none of them is there, and
a job that is cancelled is the sender's.
-/

namespace DdeCooperation.Session

open Foundations Qt Authorisation List SessionManager SessionWorker

/-- A connection: the client to an address, or a session of the server. -/
inductive Line where
  | client (address : Address)
  | session (id : ℕ)
deriving DecidableEq

structure Station (Device : Type) where
  endpoints : Endpoints := {}
  worker : SessionWorker := {}
  manager : SessionManager := {}
  /-- The signals whose slots have not run, each with the device that caused it. -/
  posted : List (Device × Signal) := []
  /-- The connections that were told to end, each with the device that caused it. -/
  leaving : List (Device × Line) := []

namespace Station

variable {Device : Type}

inductive Event (Device : Type) where
  /-- Sessions and the client come, complete their handshakes, announce addresses, and go. -/
  | endpoints (event : Endpoints.Event)
  | message (line : Line) (request : OriginMessage)
  | stateChanged (device : Device) (state : RpcState) (msg : QString)
  /-- The next slot runs. If it starts a transfer, the rest says how that goes. -/
  | slot (listen : Except QString UInt16) (started : Bool)
  /-- One of the connections that were told to end does so. -/
  | close (index : ℕ)
  | sessionDisconnect (ip : QString)
  | manager (event : SessionManager.Event)
  | updatePincode (code : QString)
  | updateLogin (ip : QString) (logined : Bool)

/-! ## Connections -/

def clientLine (endpoints : Endpoints) : List Line :=
  match endpoints.client with
  | some client => if client.connected then [.client client.address] else []
  | none => []

/-- The connections that are up. -/
def lines (endpoints : Endpoints) : List Line :=
  clientLine endpoints ++ endpoints.server.sessionIds.map fun entry ↦ .session entry.2

/-- `handleRejectConnection`: the sessions that get the request to disconnect, for which there is
no active target. -/
def rejected (endpoints : Endpoints) : List Line := (endpoints.server.onSend "").map .session

/-- `disconnectRemote`: the client and all sessions of the server. -/
def disconnectRemote (endpoints : Endpoints) : List Line := lines endpoints

/-- A connection ends. With it comes the address that its end is reported for, unless a newer
session has taken the place of this one. -/
def endLine (line : Line) (endpoints : Endpoints) : Endpoints × Option Address :=
  match line with
  | .session id =>
    match endpoints.server.remoteEndpoint id with
    | none => (endpoints, none)
    | some addr =>
      let server := endpoints.server.onDisconnected id
      ({ endpoints with server := server }, if server.hasSession addr then none else some addr)
  | .client address =>
    match endpoints.client with
    | none => (endpoints, none)
    | some client =>
      if client.address = address ∧ client.connected then
        ({ endpoints with client := some ((client.step .closed).step .onDisconnected) },
          some client.connectedHost)
      else (endpoints, none)

/-! ## Steps -/

section Machine

variable (env : Surroundings) (peer : ℕ → Device) (owner : Address → Device)

def deviceOf : Line → Device
  | .client address => owner address
  | .session id => peer id

def callback (device : Device) (state : RpcState) (msg : QString)
    (station : Station Device) : Station Device :=
  match station.worker.onStateChanged env state msg with
  | .error _ => station
  | .ok (_, worker, signals) =>
    { station with
      worker := worker, posted := station.posted ++ signals.map fun signal ↦ (device, signal) }

def runSlot (listen : Except QString UInt16) (started : Bool) (device : Device) (signal : Signal)
    (station : Station Device) : Station Device :=
  match signal with
  | .onRejectConnection =>
    { station with leaving := station.leaving ++
        (rejected station.endpoints).map fun line ↦ (device, line) }
  | .onRemoteDisconnected remote =>
    { station with worker := station.worker.handleRemoteDisconnected remote }
  | .onCancelJob jobid _ =>
    { station with manager := station.manager.releaseTransWorker jobid }
  | .onTransData endpoint _ tunnel service =>
    { station with
      manager := station.manager.handleTransData endpoint tunnel service listen started }
  | .onTransCount _ _ | .onConnectChanged _ _ => station

def close (index : ℕ) (station : Station Device) : Station Device :=
  match station.leaving[index]? with
  | none => station
  | some (device, line) =>
    let ended := endLine line station.endpoints
    let station :=
      { station with endpoints := ended.1, leaving := station.leaving.eraseIdx index }
    match ended.2 with
    | none => station
    | some addr => station.callback env device .disconnected addr

def step (station : Station Device) : Event Device → Station Device
  | .endpoints event => { station with endpoints := station.endpoints.step event }
  | .message line request =>
    match station.worker.onReceivedMessage env request with
    | .error _ => station
    | .ok outcome =>
      { station with
        worker := outcome.worker
        posted := station.posted ++
          outcome.signals.map fun signal ↦ (deviceOf peer owner line, signal) }
  | .stateChanged device state msg => station.callback env device state msg
  | .slot listen started =>
    match station.posted with
    | [] => station
    | (device, signal) :: rest =>
      { station with posted := rest }.runSlot listen started device signal
  | .close index => station.close env index
  | .sessionDisconnect ip =>
    { station with leaving := station.leaving ++
        (disconnectRemote station.endpoints).map fun line ↦ (owner ip, line) }
  | .manager event => { station with manager := station.manager.step event }
  | .updatePincode code => { station with worker := station.worker.updatePincode code }
  | .updateLogin ip logined => { station with worker := station.worker.updateLogin ip logined }

/-! ## The others -/

/-- The connections, the logins and the transfers of other devices are unchanged. -/
structure Spared (device : Device) (station next : Station Device) : Prop where
  connections : ∀ line ∈ lines station.endpoints, deviceOf peer owner line ≠ device →
    line ∈ lines next.endpoints
  logins : ∀ host, owner host ≠ device →
    next.worker.loginHosts.lookup host = station.worker.loginHosts.lookup host
  transfers : ∀ job, owner job ≠ device →
    next.manager.transWorkers.lookup job = station.manager.transWorkers.lookup job ∧
      next.manager.tunnelJobs.lookup job = station.manager.tunnelJobs.lookup job

/-- A login that is rejected, or a cancellation. -/
def Provoking (station : Station Device) (request : OriginMessage) : Prop :=
  (∃ login, loginOf env request = some login ∧
    env.decodePin login.auth ≠ station.worker.savedPin) ∨ request.mask = REQ_TRANS_CANCLE

/-- What a slot with this signal tells to end. -/
def told (endpoints : Endpoints) : Signal → List Line
  | .onRejectConnection => rejected endpoints
  | _ => []

/-- The slots through which the three events have their effects. -/
def Relayed : Signal → Prop
  | .onRejectConnection | .onRemoteDisconnected _ | .onCancelJob _ _ => True
  | _ => False

/-- The three events and what follows from them spare the other devices, and only connections of
the device are told to end. -/
def Contained (station : Station Device) : Event Device → Prop
  | .message line request => Provoking env station request →
      Spared peer owner (deviceOf peer owner line) station
        (station.step env peer owner (.message line request))
  | .slot listen started => ∀ device signal, station.posted.head? = some (device, signal) →
      Relayed signal →
        Spared peer owner device station (station.step env peer owner (.slot listen started)) ∧
          ∀ line ∈ told station.endpoints signal, deviceOf peer owner line = device
  | .close index => ∀ device line, station.leaving[index]? = some (device, line) →
      Spared peer owner device station (station.step env peer owner (.close index))
  | .sessionDisconnect ip =>
      Spared peer owner (owner ip) station (station.step env peer owner (.sessionDisconnect ip)) ∧
        ∀ line ∈ disconnectRemote station.endpoints, deviceOf peer owner line = owner ip
  | _ => True

/-- When a login is rejected, only sessions of that device have completed their handshakes. A
cancellation names a job of its sender, or none that runs. No other device has logged in under
the address of a connection that has ended. And a disconnection finds no connection of another
device. -/
def Alone (station : Station Device) : Event Device → Prop
  | .slot _ _ => ∀ device signal, station.posted.head? = some (device, signal) →
      match signal with
      | .onRejectConnection => ∀ entry ∈ station.endpoints.server.sessionIds,
          entry.2 ∈ station.endpoints.server.handshaked → peer entry.2 = device
      | .onRemoteDisconnected remote =>
          remote ∈ station.worker.loginHosts → owner remote = device
      | .onCancelJob jobid _ =>
          jobid ∈ station.manager.transWorkers ∨ jobid ∈ station.manager.tunnelJobs →
            owner jobid = device
      | _ => True
  | .sessionDisconnect ip =>
      (∀ client ∈ station.endpoints.client, client.connected = true →
        owner client.address = owner ip) ∧
      ∀ entry ∈ station.endpoints.server.sessionIds, peer entry.2 = owner ip
  | _ => True

end Machine

variable {env : Surroundings} {peer : ℕ → Device} {owner : Address → Device}
  {station next : Station Device} {device : Device}

theorem Spared.of_same (hendpoints : next.endpoints = station.endpoints)
    (hlogins : next.worker.loginHosts = station.worker.loginHosts)
    (hmanager : next.manager = station.manager) : Spared peer owner device station next where
  connections := by
    rw [hendpoints]
    exact fun _ hmem _ ↦ hmem
  logins _ _ := by rw [hlogins]
  transfers _ _ := by
    rw [hmanager]
    exact ⟨rfl, rfl⟩

/-! ## Messages -/

/-- The message itself changes nothing: its effects are posted. -/
theorem contained_message (line : Line) (request : OriginMessage) :
    station.Contained env peer owner (.message line request) := by
  intro hprovoking
  rw [step]
  cases hreceived : station.worker.onReceivedMessage env request with
  | error exception => exact .of_same rfl rfl rfl
  | ok outcome =>
    have hworker : outcome.worker = station.worker := by
      rcases onReceivedMessage_cases hreceived with
        ⟨login, hlogin, hpin, -, -⟩ | ⟨-, -, -, hsame, -⟩ | ⟨-, hidle⟩
      · exfalso
        rcases hprovoking with ⟨other, hother, hwrong⟩ | hcancel
        · rw [hlogin] at hother
          rw [← Option.some.inj hother] at hwrong
          exact hwrong hpin
        · rw [loginOf, if_pos (.inr (by rw [hcancel]; decide))] at hlogin
          cases hlogin
      · exact hsame
      · exact hidle.same
    exact .of_same rfl (congrArg SessionWorker.loginHosts hworker) rfl

/-! ## Slots -/

variable {endpoints : Endpoints} {line : Line}

theorem mem_rejected : line ∈ rejected endpoints ↔
    ∃ entry ∈ endpoints.server.sessionIds, entry.2 ∈ endpoints.server.handshaked ∧
      line = .session entry.2 := by
  simp only [rejected, ProtoServer.onSend, if_true, mem_map, mem_filter, decide_eq_true_eq]
  constructor
  · rintro ⟨id, ⟨⟨entry, hentry, rfl⟩, hhandshaked⟩, rfl⟩
    exact ⟨entry, hentry, hhandshaked, rfl⟩
  · rintro ⟨entry, hentry, hhandshaked, rfl⟩
    exact ⟨entry.2, ⟨⟨entry, hentry, rfl⟩, hhandshaked⟩, rfl⟩

/-- A table without one key is the same for the keys of other devices if and only if the key is
of the device or not in the table. -/
theorem erase_spares_iff {ν : Type} (owner : Address → Device) (device : Device)
    (table : QHash QString ν) (key : QString) :
    (∀ other, owner other ≠ device → (table.erase key).lookup other = table.lookup other) ↔
      (key ∈ table → owner key = device) := by
  constructor
  · intro hsame hmem
    by_contra hother
    have hlookup := hsame key hother
    rw [AList.lookup_erase] at hlookup
    exact AList.lookup_eq_none.mp hlookup.symm hmem
  · intro howner other hother
    rw [Bimap.lookup_erase_eq]
    split_ifs with heq
    · rw [heq] at hother ⊢
      exact (AList.lookup_eq_none.mpr fun hmem ↦ hother (howner hmem)).symm
    · rfl

theorem lookup_releaseTransWorker (manager : SessionManager) (jobid other : QString) :
    (manager.releaseTransWorker jobid).transWorkers.lookup other =
        (manager.transWorkers.erase jobid).lookup other ∧
      (manager.releaseTransWorker jobid).tunnelJobs.lookup other =
        (manager.tunnelJobs.erase jobid).lookup other := by
  have hgone : ∀ {ν : Type} {table : QHash QString ν}, table.lookup jobid = none →
      table.lookup other = (table.erase jobid).lookup other := by
    intro ν table hnone
    rw [Bimap.lookup_erase_eq]
    split_ifs with heq
    · rw [heq, hnone]
    · rfl
  have hstop : (manager.stopWorker jobid).transWorkers.lookup other =
      (manager.transWorkers.erase jobid).lookup other ∧
        (manager.stopWorker jobid).tunnelJobs = manager.tunnelJobs := by
    unfold stopWorker
    cases hworker : manager.transWorkers.lookup jobid with
    | none => exact ⟨hgone hworker, rfl⟩
    | some worker => exact ⟨rfl, rfl⟩
  unfold releaseTransWorker releaseTunnelJob
  rw [hstop.2]
  cases hjob : manager.tunnelJobs.lookup jobid with
  | none => exact ⟨hstop.1, by rw [hstop.2]; exact hgone hjob⟩
  | some job => exact ⟨hstop.1, rfl⟩

variable {listen : Except QString UInt16} {started : Bool}

/-- The slot that is next, with its effect. -/
theorem step_slot {signal : Signal} (hhead : station.posted.head? = some (device, signal)) :
    station.step env peer owner (.slot listen started) =
      { station with posted := station.posted.tail }.runSlot listen started device signal := by
  cases hposted : station.posted with
  | nil =>
    rw [hposted] at hhead
    cases hhead
  | cons first rest =>
    rw [hposted, head?_cons, Option.some.injEq] at hhead
    simp only [step, hposted, hhead, tail_cons]

theorem contained_slot_iff (env : Surroundings) (listen : Except QString UInt16) (started : Bool) :
    station.Contained env peer owner (.slot listen started) ↔
      station.Alone peer owner (.slot listen started) := by
  refine forall_congr' fun device ↦ forall_congr' fun signal ↦ forall_congr' fun hhead ↦ ?_
  rw [step_slot hhead]
  cases signal with
  | onRejectConnection =>
    have hspared : Spared peer owner device station
        ({ station with posted := station.posted.tail }.runSlot listen started device
          .onRejectConnection) := .of_same rfl rfl rfl
    constructor
    · intro hcontained entry hentry hhandshaked
      exact (hcontained trivial).2 _ (mem_rejected.mpr ⟨entry, hentry, hhandshaked, rfl⟩)
    · refine fun halone _ ↦ ⟨hspared, fun line hline ↦ ?_⟩
      obtain ⟨entry, hentry, hhandshaked, rfl⟩ := mem_rejected.mp hline
      exact halone entry hentry hhandshaked
  | onRemoteDisconnected remote =>
    have hiff := erase_spares_iff owner device station.worker.loginHosts remote
    constructor
    · exact fun hcontained ↦ hiff.mp (hcontained trivial).1.logins
    · intro halone _
      refine ⟨⟨fun _ hmem _ ↦ hmem, hiff.mpr halone, fun _ _ ↦ ⟨rfl, rfl⟩⟩, fun line hline ↦ ?_⟩
      cases hline
  | onCancelJob jobid reason =>
    have hworkers := erase_spares_iff owner device station.manager.transWorkers jobid
    have hjobs := erase_spares_iff owner device station.manager.tunnelJobs jobid
    have hlookup := lookup_releaseTransWorker station.manager jobid
    constructor
    · intro hcontained
      have htransfers := (hcontained trivial).1.transfers
      rintro (hmem | hmem)
      · exact hworkers.mp (fun job hjob ↦ (hlookup job).1.symm.trans (htransfers job hjob).1) hmem
      · exact hjobs.mp (fun job hjob ↦ (hlookup job).2.symm.trans (htransfers job hjob).2) hmem
    · intro halone _
      refine ⟨⟨fun _ hmem _ ↦ hmem, fun _ _ ↦ rfl, fun job hjob ↦ ⟨?_, ?_⟩⟩, fun line hline ↦ ?_⟩
      · exact (hlookup job).1.trans (hworkers.mpr (fun hmem ↦ halone (.inl hmem)) job hjob)
      · exact (hlookup job).2.trans (hjobs.mpr (fun hmem ↦ halone (.inr hmem)) job hjob)
      · cases hline
  | onTransData | onTransCount | onConnectChanged =>
    exact ⟨fun _ ↦ trivial, fun _ hrelayed ↦ absurd hrelayed id⟩

/-! ## Connections that end -/

/-- Every connection that was told to end is of the device that is the cause. -/
def Attributed (peer : ℕ → Device) (owner : Address → Device) (station : Station Device) : Prop :=
  ∀ entry ∈ station.leaving, deviceOf peer owner entry.2 = entry.1

/-- Other connections stay when one ends. -/
theorem mem_lines_endLine {other : Line} (hmem : other ∈ lines endpoints) (hne : other ≠ line) :
    other ∈ lines (endLine line endpoints).1 := by
  unfold endLine
  cases line with
  | session id =>
    dsimp only
    cases hremote : endpoints.server.remoteEndpoint id with
    | none => exact hmem
    | some addr =>
      rcases mem_append.mp hmem with hclient | hsession
      · exact mem_append_left _ hclient
      · obtain ⟨entry, hentry, rfl⟩ := mem_map.mp hsession
        refine mem_append_right _ (mem_map.mpr ⟨entry, ?_, rfl⟩)
        rw [ProtoServer.sessionIds_onDisconnected]
        refine (mem_eraseP_of_neg ?_).mpr hentry
        simpa using fun heq : entry.2 = id ↦ hne (heq ▸ rfl)
  | client address =>
    dsimp only
    cases hclient : endpoints.client with
    | none => exact hmem
    | some client =>
      dsimp only
      split_ifs with hends
      · rcases mem_append.mp hmem with hfirst | hsession
        · rw [clientLine, hclient] at hfirst
          simp only [hends.2, if_true, mem_singleton] at hfirst
          exact absurd (hfirst.trans (by rw [hends.1])) hne
        · exact mem_append_right _ hsession
      · exact hmem

theorem callback_disconnected (addr : Address) :
    (station.callback env device .disconnected addr).endpoints = station.endpoints ∧
      (station.callback env device .disconnected addr).worker = station.worker ∧
      (station.callback env device .disconnected addr).manager = station.manager := by
  unfold callback onStateChanged
  by_cases hempty : addr = ""
  · simp only [hempty, if_true]
    exact ⟨rfl, rfl, rfl⟩
  · simp only [if_neg hempty]
    exact ⟨rfl, rfl, rfl⟩

/-- What the end of a connection does. -/
theorem close_of_getElem? {index : ℕ} (h : station.leaving[index]? = some (device, line)) :
    (station.close env index).endpoints = (endLine line station.endpoints).1 ∧
      (station.close env index).worker = station.worker ∧
      (station.close env index).manager = station.manager := by
  unfold close
  simp only [h]
  cases (endLine line station.endpoints).2 with
  | none => exact ⟨rfl, rfl, rfl⟩
  | some addr => exact callback_disconnected addr

theorem contained_close (h : station.Attributed peer owner) (index : ℕ) :
    station.Contained env peer owner (.close index) := by
  intro device line hindex
  obtain ⟨hendpoints, hworker, hmanager⟩ := close_of_getElem? hindex
  have hdevice := h _ (mem_of_getElem? hindex)
  refine ⟨fun other hother hne ↦ ?_, fun host _ ↦ ?_, fun job _ ↦ ?_⟩
  · change other ∈ lines (station.close env index).endpoints
    rw [hendpoints]
    refine mem_lines_endLine hother ?_
    rintro rfl
    exact hne hdevice
  · change (station.close env index).worker.loginHosts.lookup host = _
    rw [hworker]
  · change (station.close env index).manager.transWorkers.lookup job = _ ∧
      (station.close env index).manager.tunnelJobs.lookup job = _
    rw [hmanager]
    exact ⟨rfl, rfl⟩

theorem mem_lines : line ∈ lines endpoints ↔
    (∃ client ∈ endpoints.client, client.connected = true ∧ line = .client client.address) ∨
      ∃ entry ∈ endpoints.server.sessionIds, line = .session entry.2 := by
  have hclient : line ∈ clientLine endpoints ↔
      ∃ client ∈ endpoints.client, client.connected = true ∧ line = .client client.address := by
    unfold clientLine
    cases endpoints.client with
    | none => simp
    | some client =>
      by_cases hconnected : client.connected = true
      · simp [hconnected]
      · simp [hconnected]
  rw [lines, mem_append, hclient, mem_map]
  refine or_congr_right (exists_congr fun entry ↦ and_congr_right fun _ ↦ eq_comm)

theorem contained_sessionDisconnect_iff (env : Surroundings) (ip : QString) :
    station.Contained env peer owner (.sessionDisconnect ip) ↔
      station.Alone peer owner (.sessionDisconnect ip) := by
  constructor
  · rintro ⟨-, htold⟩
    refine ⟨fun client hclient hconnected ↦ ?_, fun entry hentry ↦ ?_⟩
    · exact htold (.client client.address) (mem_lines.mpr (.inl ⟨client, hclient, hconnected, rfl⟩))
    · exact htold (.session entry.2) (mem_lines.mpr (.inr ⟨entry, hentry, rfl⟩))
  · rintro ⟨hclients, hsessions⟩
    refine ⟨.of_same rfl rfl rfl, fun line hline ↦ ?_⟩
    rcases mem_lines.mp hline with ⟨client, hclient, hconnected, rfl⟩ | ⟨entry, hentry, rfl⟩
    · exact hclients client hclient hconnected
    · exact hsessions entry hentry

theorem Attributed.of_subset (h : station.Attributed peer owner)
    (hleaving : ∀ entry ∈ next.leaving, entry ∈ station.leaving) : next.Attributed peer owner :=
  fun entry hentry ↦ h entry (hleaving entry hentry)

theorem Attributed.tell (h : station.Attributed peer owner) {told : List Line}
    (htold : ∀ line ∈ told, deviceOf peer owner line = device)
    (hleaving : next.leaving = station.leaving ++ told.map fun line ↦ (device, line)) :
    next.Attributed peer owner := by
  intro entry hentry
  rw [hleaving] at hentry
  rcases mem_append.mp hentry with hold | hnew
  · exact h entry hold
  · obtain ⟨line, hline, rfl⟩ := mem_map.mp hnew
    exact htold line hline

theorem leaving_callback (state : RpcState) (msg : QString) :
    (station.callback env device state msg).leaving = station.leaving := by
  unfold callback
  split
  · rfl
  · rfl

theorem Attributed.step (h : station.Attributed peer owner) {event : Event Device}
    (halone : station.Alone peer owner event) :
    (station.step env peer owner event).Attributed peer owner := by
  cases event with
  | endpoints event => exact h
  | message line request =>
    refine h.of_subset fun entry hentry ↦ ?_
    rw [Station.step] at hentry
    split at hentry
    · exact hentry
    · exact hentry
  | stateChanged device state msg =>
    refine h.of_subset fun entry hentry ↦ ?_
    rwa [Station.step, leaving_callback] at hentry
  | slot listen started =>
    cases hhead : station.posted.head? with
    | none =>
      rw [Station.step, head?_eq_none_iff.mp hhead]
      exact h
    | some first =>
      obtain ⟨device, signal⟩ := first
      rw [step_slot hhead]
      cases signal with
      | onRejectConnection =>
        have htold : ∀ line ∈ rejected station.endpoints, deviceOf peer owner line = device :=
          (((contained_slot_iff env listen started).mpr halone) device
            .onRejectConnection hhead trivial).2
        exact h.tell htold rfl
      | onRemoteDisconnected | onCancelJob | onTransData | onTransCount | onConnectChanged =>
        exact h
  | close index =>
    refine h.of_subset fun entry hentry ↦ ?_
    rw [Station.step, close] at hentry
    split at hentry
    · exact hentry
    · dsimp only at hentry
      split at hentry
      · exact mem_of_mem_eraseIdx hentry
      · rw [leaving_callback] at hentry
        exact mem_of_mem_eraseIdx hentry
  | sessionDisconnect ip =>
    have htold := ((contained_sessionDisconnect_iff env ip).mpr halone).2
    exact h.tell htold rfl
  | manager event => exact h
  | updatePincode code => exact h
  | updateLogin ip logined => exact h

/-- In every run, the three events and what follows from them spare the other devices if and only
if each of them finds no other device that it would reach. -/
theorem contained_iff_alone (env : Surroundings) (peer : ℕ → Device) (owner : Address → Device)
    (events : List (Event Device)) :
    Throughout (step env peer owner) (Contained env peer owner) {} events ↔
      Throughout (step env peer owner) (Alone peer owner) {} events := by
  have hguard : ∀ station event, Contained env peer owner station event →
      Alone peer owner station event := by
    intro station event hcontained
    cases event with
    | slot listen started => exact (contained_slot_iff env listen started).mp hcontained
    | sessionDisconnect ip => exact (contained_sessionDisconnect_iff env ip).mp hcontained
    | _ => trivial
  have hkeep : ∀ station event, Attributed peer owner station → Alone peer owner station event →
      Attributed peer owner (step env peer owner station event) :=
    fun _ _ hattributed halone ↦ hattributed.step halone
  have hproperty : ∀ station event, Attributed peer owner station →
      Alone peer owner station event → Contained env peer owner station event := by
    intro station event hattributed halone
    cases event with
    | message line request => exact contained_message line request
    | slot listen started => exact (contained_slot_iff env listen started).mpr halone
    | close index => exact contained_close hattributed index
    | sessionDisconnect ip => exact (contained_sessionDisconnect_iff env ip).mpr halone
    | _ => trivial
  constructor
  · exact Throughout.mono hguard
  · exact Throughout.of_invariant hkeep hproperty fun _ hmem ↦ absurd hmem not_mem_nil

/-! ## Two peers -/

/-- Session 0 is of the peer 10.0.0.2, the others are of 10.0.0.3. -/
def twoPeers (id : ℕ) : Address := if id = 0 then "10.0.0.2" else "10.0.0.3"

/-- Both have sessions, and there is a transfer with 10.0.0.2. -/
def bothConnected : List (Event Address) :=
  [.endpoints (.server (.connected "10.0.0.2")), .endpoints (.server (.handshaked 0)),
    .endpoints (.server (.connected "10.0.0.3")), .endpoints (.server (.handshaked 1)),
    .manager (.recvFiles "10.0.0.2" "" true)]

def cancelText : String := "\x7b\"id\":\"10.0.0.2\",\"name\":\"all\",\"reason\":\"\"\x7d"

/-- Surroundings that read the text of the cancellation, too. -/
def threeTexts : Surroundings :=
  { twoTexts with
    parse := fun text ↦
      if text = cancelText then
        some (.object [("id", .string "10.0.0.2"), ("name", .string "all"), ("reason", .string "")])
      else twoTexts.parse text }

/-- A login of 10.0.0.3 that is rejected, its cancellation of the other's transfer, and a local
disconnection from 10.0.0.3. -/
theorem not_contained_two_peers :
    ¬ Throughout (step threeTexts twoPeers id) (Contained threeTexts twoPeers id) {}
        (bothConnected ++ [.message (.session 1) ⟨1, REQ_LOGIN, loginText⟩,
          .slot (.error "") false, .slot (.error "") false]) ∧
      ¬ Throughout (step threeTexts twoPeers id) (Contained threeTexts twoPeers id) {}
        (bothConnected ++ [.message (.session 1) ⟨1, REQ_TRANS_CANCLE, cancelText⟩,
          .slot (.error "") false]) ∧
      ¬ Throughout (step threeTexts twoPeers id) (Contained threeTexts twoPeers id) {}
        (bothConnected ++ [.sessionDisconnect "10.0.0.3"]) := by
  refine ⟨?_, ?_, ?_⟩
  · rintro ⟨-, -, -, -, -, -, -, hslot, -⟩
    have hdevice := (hslot "10.0.0.3" .onRejectConnection rfl trivial).2 (.session 0) (by decide)
    exact absurd hdevice (by decide)
  · rintro ⟨-, -, -, -, -, -, hslot, -⟩
    have htransfers := (hslot "10.0.0.3" (.onCancelJob "10.0.0.2" "") rfl trivial).1.transfers
      "10.0.0.2" (by decide)
    exact absurd htransfers.1 (by decide)
  · rintro ⟨-, -, -, -, -, hdisconnect, -⟩
    have hdevice := hdisconnect.2 (.session 0) (by decide)
    exact absurd hdevice (by decide)

end Station

end DdeCooperation.Session
