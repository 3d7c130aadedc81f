import DdeCooperation.Foundations.Registry
import DdeCooperation.Foundations.Runs
import DdeCooperation.Session.Server
import DdeCooperation.Tunnel.Forwards

/-!
# Transfer jobs and what they own

`SessionManager` runs a transfer with a worker, which it keeps under the address of the
peer. A transfer through the tunnel also has a job there: on the sending side it names
the service that was registered for the file server, on the receiving side the forward
that was started for it. A worker is stopped and a service or forward given back when the
transfer is released.

Both tables have one place for an address. As long as a transfer begins only where none
is recorded, the tables own exactly what is registered, started and running.
-/

namespace DdeCooperation.Session

open Foundations Qt Tunnel TunnelManager

structure TunnelJob where
  serviceId : QString
  /-- The job registered the service; otherwise it started the forward. -/
  sender : Bool
deriving DecidableEq

/-- The workers are numbered as they are created. -/
structure SessionManager where
  /-- `_trans_workers`. -/
  transWorkers : QHash QString ℕ := ∅
  /-- `_tunnel_jobs`. -/
  tunnelJobs : QHash QString TunnelJob := ∅
  tunnel : TunnelManager := {}
  nextWorker : ℕ := 0
  /-- The workers that `stop` was called for. -/
  stopped : List ℕ := []

def isHexDigit (char : Char) : Bool :=
  ('0' ≤ char && char ≤ '9') || ('a' ≤ char && char ≤ 'f') || ('A' ≤ char && char ≤ 'F')

/-- The form of a UUID without braces. -/
def isTransferServiceId (serviceId : QString) : Bool :=
  QString.size serviceId = 36 &&
    serviceId.toList.zipIdx.all fun entry ↦
      if entry.2 = 8 || entry.2 = 13 || entry.2 = 18 || entry.2 = 23 then entry.1 = '-'
      else isHexDigit entry.1

namespace SessionManager

def releaseTunnelJob (jobid : QString) (m : SessionManager) : SessionManager :=
  match m.tunnelJobs.lookup jobid with
  | none => m
  | some job => { m with
      tunnelJobs := m.tunnelJobs.erase jobid
      tunnel :=
        if job.sender then m.tunnel.unregisterService job.serviceId
        else m.tunnel.stopLocalForward job.serviceId }

def stopWorker (jobid : QString) (m : SessionManager) : SessionManager :=
  match m.transWorkers.lookup jobid with
  | none => m
  | some worker => { m with
      transWorkers := m.transWorkers.erase jobid
      stopped := worker :: m.stopped }

def releaseTransWorker (jobid : QString) (m : SessionManager) : SessionManager :=
  (m.stopWorker jobid).releaseTunnelJob jobid

/-- A new worker under an address; `started` is the result of `tryStartSend` or
`tryStartReceive`, without which the worker is dropped. -/
def startWorker (id : QString) (started : Bool) (m : SessionManager) : SessionManager :=
  { m with
    nextWorker := m.nextWorker + 1
    transWorkers := if started then m.transWorkers.insert id m.nextWorker else m.transWorkers }

/-- `uuid` is the id that `QUuid::createUuid` gives. -/
def sendFiles (ip : QString) (port : UInt16) (useTunnel : Bool) (uuid : QString) (started : Bool)
    (m : SessionManager) : SessionManager :=
  let (tunnelActive, tunnel) :=
    if useTunnel then m.tunnel.registerService uuid "127.0.0.1" port else (false, m.tunnel)
  let m := { m with tunnel := tunnel }.startWorker ip started
  if !tunnelActive then m
  else if started then { m with tunnelJobs := m.tunnelJobs.insert ip ⟨uuid, true⟩ }
  else { m with tunnel := m.tunnel.unregisterService uuid }

/-- The transfer is kept under the job id, or under the address when there is none. -/
def recvFiles (ip jobid : QString) (started : Bool) (m : SessionManager) : SessionManager :=
  m.startWorker (if jobid = "" then ip else jobid) started

/-- The handler that starts a forward selects the peer when none is selected, and never
replaces another. -/
def startForward (serviceId peerIp : QString) (listen : Except QString UInt16)
    (tunnel : TunnelManager) : UInt16 × TunnelManager :=
  if peerIp = "" then (0, tunnel)
  else
    let tunnel := if tunnel.peerIp = "" then tunnel.setPeer peerIp else tunnel
    if tunnel.peerIp = peerIp then tunnel.startLocalForward serviceId listen else (0, tunnel)

/-- The host of an endpoint `ip:port:token`. -/
def endpointHost (endpoint : QString) : Option QString :=
  match endpoint.toList.splitOn ':' with
  | [host, _, _] => some (String.ofList host)
  | _ => none

def handleTransData (endpoint : QString) (tunnel : Bool) (service : QString)
    (listen : Except QString UInt16) (started : Bool) (m : SessionManager) : SessionManager :=
  match endpointHost endpoint with
  | none => m
  | some host =>
    if tunnel && isTransferServiceId service then
      let (localPort, forwarded) := startForward service host listen m.tunnel
      let m := { m with tunnel := forwarded }
      if localPort ≠ 0 then
        let m := { m with tunnelJobs := m.tunnelJobs.insert host ⟨service, false⟩ }
        let m := m.recvFiles "127.0.0.1" host started
        if started then m else m.releaseTunnelJob host
      else m.recvFiles host "" started
    else m.recvFiles host "" started

inductive Event where
  | sendFiles (ip : QString) (port : UInt16) (useTunnel : Bool) (uuid : QString) (started : Bool)
  | recvFiles (ip jobid : QString) (started : Bool)
  | transData (endpoint : QString) (tunnel : Bool) (service : QString)
      (listen : Except QString UInt16) (started : Bool)
  /-- `handleCancelTrans`, for the peer, the user or an exception of the worker. -/
  | cancel (jobid : QString)
  | finish (jobid : QString)
  /-- The peer of the tunnel is gone. -/
  | peerDisconnected

def step (m : SessionManager) : Event → SessionManager
  | .sendFiles ip port useTunnel uuid started => m.sendFiles ip port useTunnel uuid started
  | .recvFiles ip jobid started => m.recvFiles ip jobid started
  | .transData endpoint tunnel service listen started =>
    m.handleTransData endpoint tunnel service listen started
  | .cancel jobid => m.releaseTransWorker jobid
  | .finish jobid => m.releaseTransWorker jobid
  | .peerDisconnected => { m with tunnel := m.tunnel.onPeerDisconnected }

/-- The tables own the services, the forwards and the workers: the services of the form of
a transfer are those of the sending jobs, the forwards those of the receiving jobs, and a
worker that is not recorded has been stopped. -/
structure Owned (m : SessionManager) : Prop where
  services : ∀ id, isTransferServiceId id = true →
    (id ∈ m.tunnel.services ↔ Registry.Holds m.tunnelJobs ⟨id, true⟩)
  forwards : ∀ id, isTransferServiceId id = true →
    (id ∈ m.tunnel.forwards ↔ Registry.Holds m.tunnelJobs ⟨id, false⟩)
  workers : ∀ worker < m.nextWorker, Registry.Holds m.transWorkers worker ∨ worker ∈ m.stopped

/-- No transfer is recorded under the address. -/
def Vacant (m : SessionManager) (ip : QString) : Prop :=
  ip ∉ m.transWorkers ∧ ip ∉ m.tunnelJobs

instance (m : SessionManager) (ip : QString) : Decidable (m.Vacant ip) :=
  inferInstanceAs (Decidable (_ ∧ _))

/-- A transfer begins, successfully, under an address where none is recorded. A new UUID is
not in use, the forward of a transfer is not there yet and gets a port, and the peer of
the tunnel leaves when no forward is recorded. -/
def Apart (m : SessionManager) : Event → Prop
  | .sendFiles ip _ useTunnel uuid started =>
    m.Vacant ip ∧ started = true ∧
      (useTunnel = true → isTransferServiceId uuid = true ∧ uuid ∉ m.tunnel.services)
  | .recvFiles ip jobid started => m.Vacant (if jobid = "" then ip else jobid) ∧ started = true
  | .transData endpoint tunnel service listen started =>
    (∀ host ∈ endpointHost endpoint, m.Vacant host) ∧ started = true ∧
      (tunnel = true → service ∉ m.tunnel.forwards ∧ listen ≠ .ok 0)
  | .cancel _ => True
  | .finish _ => True
  | .peerDisconnected => ∀ service, ¬ Registry.Holds m.tunnelJobs ⟨service, false⟩

/-- What the steps keep: the tables own what they record, and no job is recorded twice. -/
structure Accounted (m : SessionManager) : Prop where
  distinct : Registry.Distinct m.tunnelJobs
  owned : m.Owned

variable {m : SessionManager}

/-! ## Releasing -/

theorem Accounted.stopWorker (h : m.Accounted) (jobid : QString) :
    (m.stopWorker jobid).Accounted := by
  unfold SessionManager.stopWorker
  split
  · exact h
  · next worker hlookup =>
    refine ⟨h.distinct, h.owned.services, h.owned.forwards, ?_⟩
    intro other hother
    rcases h.owned.workers other hother with hholds | hstopped
    · rcases Registry.holds_erase_of_holds hholds with hkept | hgone
      · exact .inl hkept
      · have heq : worker = other := Option.some.inj (hlookup.symm.trans hgone)
        exact .inr (heq ▸ List.mem_cons_self)
    · exact .inr (List.mem_cons_of_mem _ hstopped)

/-- A job that is released takes what it owns with it, and nothing else. -/
theorem Accounted.releaseTunnelJob (h : m.Accounted) (jobid : QString) :
    (m.releaseTunnelJob jobid).Accounted := by
  unfold SessionManager.releaseTunnelJob
  split
  · exact h
  · next job hlookup =>
    have hholds : ∀ other, Registry.Holds (m.tunnelJobs.erase jobid) other ↔
        other ≠ job ∧ Registry.Holds m.tunnelJobs other :=
      fun _ ↦ Registry.holds_erase_iff h.distinct hlookup
    obtain ⟨service, sender⟩ := job
    refine ⟨h.distinct.erase, ?_, ?_, h.owned.workers⟩
    · intro id hid
      rw [hholds, ← h.owned.services id hid]
      cases sender with
      | true => simp [unregisterService, AList.mem_erase]
      | false => simp [services_stopLocalForward]
    · intro id hid
      rw [hholds, ← h.owned.forwards id hid]
      cases sender with
      | true => simp [unregisterService]
      | false => simp [mem_forwards_stopLocalForward]

theorem Accounted.releaseTransWorker (h : m.Accounted) (jobid : QString) :
    (m.releaseTransWorker jobid).Accounted :=
  (h.stopWorker jobid).releaseTunnelJob jobid

/-! ## Beginning -/

/-- A worker that starts where none is recorded replaces none. -/
theorem Accounted.startWorker {id : QString} (h : m.Accounted) (hvacant : id ∉ m.transWorkers) :
    (m.startWorker id true).Accounted := by
  refine ⟨h.distinct, h.owned.services, h.owned.forwards, ?_⟩
  intro worker hworker
  have hholds : Registry.Holds (m.startWorker id true).transWorkers worker ↔
      worker = m.nextWorker ∨ Registry.Holds m.transWorkers worker :=
    Registry.holds_insert_iff hvacant
  rw [hholds]
  rcases Nat.lt_succ_iff_lt_or_eq.mp hworker with hold | hnew
  · rcases h.owned.workers worker hold with hrecorded | hstopped
    · exact .inl (.inr hrecorded)
    · exact .inr hstopped
  · exact .inl (.inl hnew)

/-- A job that is recorded under a free address together with what it owns. -/
theorem Accounted.recordJob {ip : QString} {job : TunnelJob} {tunnel : TunnelManager}
    (h : m.Accounted) (hvacant : ip ∉ m.tunnelJobs)
    (hnew : ¬ Registry.Holds m.tunnelJobs job)
    (hservices : ∀ id, id ∈ tunnel.services ↔ ⟨id, true⟩ = job ∨ id ∈ m.tunnel.services)
    (hforwards : ∀ id, id ∈ tunnel.forwards ↔ ⟨id, false⟩ = job ∨ id ∈ m.tunnel.forwards) :
    Accounted { m with tunnel := tunnel, tunnelJobs := m.tunnelJobs.insert ip job } := by
  refine ⟨h.distinct.insert hnew, ?_, ?_, h.owned.workers⟩
  · intro id hid
    rw [Registry.holds_insert_iff hvacant, hservices, h.owned.services id hid]
  · intro id hid
    rw [Registry.holds_insert_iff hvacant, hforwards, h.owned.forwards id hid]

theorem registerService_cases (serviceId host : QString) (port : UInt16) (tunnel : TunnelManager) :
    tunnel.registerService serviceId host port = (false, tunnel) ∨
      tunnel.registerService serviceId host port =
        (true, { tunnel with services := tunnel.services.insert serviceId ⟨host, port⟩ }) := by
  unfold registerService
  split
  · exact .inl rfl
  · exact .inr rfl

theorem Accounted.sendFiles {ip uuid : QString} {port : UInt16} {useTunnel started : Bool}
    (h : m.Accounted) (hguard : m.Apart (.sendFiles ip port useTunnel uuid started)) :
    (m.sendFiles ip port useTunnel uuid started).Accounted := by
  obtain ⟨⟨hworker, hjob⟩, rfl, huuid⟩ := hguard
  cases useTunnel with
  | false => exact h.startWorker hworker
  | true =>
    obtain ⟨hform, hfresh⟩ := huuid rfl
    rcases registerService_cases uuid "127.0.0.1" port m.tunnel with hrefused | hregistered
    · simp only [SessionManager.sendFiles, if_true, hrefused]
      exact h.startWorker hworker
    · have hrecorded : Accounted { m with
          tunnel := { m.tunnel with services := m.tunnel.services.insert uuid ⟨"127.0.0.1", port⟩ }
          tunnelJobs := m.tunnelJobs.insert ip ⟨uuid, true⟩ } := by
        apply h.recordJob hjob
        · rwa [← h.owned.services uuid hform]
        · intro id
          simp [AList.mem_insert]
        · intro id
          simp
      simp only [SessionManager.sendFiles, if_true, hregistered]
      exact hrecorded.startWorker hworker

theorem services_startForward (tunnel : TunnelManager) (serviceId peerIp : QString)
    (listen : Except QString UInt16) :
    (startForward serviceId peerIp listen tunnel).2.services = tunnel.services := by
  unfold startForward
  split
  · rfl
  · dsimp only
    split_ifs
    all_goals first | rfl | exact services_startLocalForward _ _ _

theorem forwards_startForward {tunnel : TunnelManager} {serviceId : QString}
    {listen : Except QString UInt16} (hnew : serviceId ∉ tunnel.forwards) (hport : listen ≠ .ok 0)
    (peerIp : QString) :
    ((startForward serviceId peerIp listen tunnel).1 = 0 ∧
      (startForward serviceId peerIp listen tunnel).2.forwards = tunnel.forwards) ∨
    ((startForward serviceId peerIp listen tunnel).1 ≠ 0 ∧
      ∃ forward, (startForward serviceId peerIp listen tunnel).2.forwards =
        tunnel.forwards.insert serviceId forward) := by
  unfold startForward
  split
  · exact .inl ⟨rfl, rfl⟩
  · dsimp only
    split_ifs
    · exact forwards_startLocalForward (m := tunnel.setPeer peerIp) hnew hport
    · exact .inl ⟨rfl, rfl⟩
    · exact forwards_startLocalForward hnew hport
    · exact .inl ⟨rfl, rfl⟩

theorem Accounted.recvFiles {ip jobid : QString} {started : Bool} (h : m.Accounted)
    (hguard : m.Apart (.recvFiles ip jobid started)) :
    (m.recvFiles ip jobid started).Accounted := by
  obtain ⟨⟨hworker, -⟩, rfl⟩ := hguard
  exact h.startWorker hworker

/-- A change of the tunnel that leaves both of its tables as they are. -/
theorem Accounted.tunnel {tunnel : TunnelManager} (h : m.Accounted)
    (hservices : tunnel.services = m.tunnel.services)
    (hforwards : tunnel.forwards = m.tunnel.forwards) :
    Accounted { m with tunnel := tunnel } := by
  refine ⟨h.distinct, ?_, ?_, h.owned.workers⟩
  · intro id hid
    rw [hservices]
    exact h.owned.services id hid
  · intro id hid
    rw [hforwards]
    exact h.owned.forwards id hid

theorem Accounted.recvDirect {host : QString} (h : m.Accounted) (hworker : host ∉ m.transWorkers) :
    (m.recvFiles host "" true).Accounted := by
  unfold SessionManager.recvFiles
  rw [if_pos rfl]
  exact h.startWorker hworker

theorem Accounted.handleTransData {endpoint service : QString} {tunnel started : Bool}
    {listen : Except QString UInt16} (h : m.Accounted)
    (hguard : m.Apart (.transData endpoint tunnel service listen started)) :
    (m.handleTransData endpoint tunnel service listen started).Accounted := by
  obtain ⟨hvacant, rfl, hforward⟩ := hguard
  unfold SessionManager.handleTransData
  split
  · exact h
  · next host hhost =>
    obtain ⟨hworker, hjob⟩ := hvacant host hhost
    split
    · next htunnel =>
      obtain ⟨rfl, hform⟩ := Bool.and_eq_true_iff.mp htunnel
      obtain ⟨hnew, hport⟩ := hforward rfl
      have hservices := services_startForward m.tunnel service host listen
      -- without a port the forward was not started, and the transfer goes to the host itself
      rcases forwards_startForward hnew hport host with ⟨hzero, hsame⟩ | ⟨hnonzero, forward, hinsert⟩
      · simp only [hzero, ne_eq, not_true_eq_false, if_false]
        exact (h.tunnel hservices hsame).recvDirect hworker
      · simp only [hnonzero, ne_eq, not_false_eq_true, if_true]
        have hrecorded : Accounted { m with
            tunnel := (startForward service host listen m.tunnel).2
            tunnelJobs := m.tunnelJobs.insert host ⟨service, false⟩ } := by
          apply h.recordJob hjob
          · rwa [← h.owned.forwards service hform]
          · intro id
            simp [hservices]
          · intro id
            simp [hinsert, AList.mem_insert]
        have hnonempty : host ≠ "" := by
          rintro rfl
          exact hnonzero rfl
        unfold SessionManager.recvFiles
        rw [if_neg hnonempty]
        exact hrecorded.startWorker hworker
    · exact h.recvDirect hworker

theorem Accounted.peerDisconnected (h : m.Accounted) (hguard : m.Apart .peerDisconnected) :
    (m.step .peerDisconnected).Accounted := by
  refine ⟨h.distinct, ?_, ?_, h.owned.workers⟩
  · intro id hid
    rw [SessionManager.step, services_onPeerDisconnected]
    exact h.owned.services id hid
  · intro id _
    constructor
    · exact fun hmem ↦ absurd hmem (notMem_forwards_onPeerDisconnected _ id)
    · exact fun hholds ↦ absurd hholds (hguard id)

/-! ## Runs -/

theorem Accounted.step (m : SessionManager) (event : Event) (h : m.Accounted)
    (hguard : m.Apart event) : (m.step event).Accounted := by
  cases event with
  | sendFiles ip port useTunnel uuid started => exact h.sendFiles hguard
  | recvFiles ip jobid started => exact h.recvFiles hguard
  | transData endpoint tunnel service listen started => exact h.handleTransData hguard
  | cancel jobid | finish jobid => exact h.releaseTransWorker jobid
  | peerDisconnected => exact h.peerDisconnected hguard

theorem accounted_start {tunnel : TunnelManager}
    (hservices : ∀ id, isTransferServiceId id = true → id ∉ tunnel.services)
    (hforwards : ∀ id, isTransferServiceId id = true → id ∉ tunnel.forwards) :
    Accounted { tunnel := tunnel } := by
  refine ⟨Registry.distinct_empty, ?_, ?_, ?_⟩
  · intro id hid
    exact iff_of_false (hservices id hid) (Registry.not_holds_empty _)
  · intro id hid
    exact iff_of_false (hforwards id hid) (Registry.not_holds_empty _)
  · intro worker hworker
    cases hworker

/-- Transfers that keep apart own what the tunnel and the manager hold for them, from any tunnel
that serves no transfer yet. -/
theorem owned_of_apart {tunnel : TunnelManager}
    (hservices : ∀ id, isTransferServiceId id = true → id ∉ tunnel.services)
    (hforwards : ∀ id, isTransferServiceId id = true → id ∉ tunnel.forwards)
    (events : List Event)
    (hapart : Throughout SessionManager.step Apart { tunnel := tunnel } events) :
    (events.foldl SessionManager.step { tunnel := tunnel }).Owned := by
  have haccounted : (events.foldl SessionManager.step { tunnel := tunnel }).Accounted :=
    Throughout.invariant_foldl Accounted.step (accounted_start hservices hforwards) hapart
  exact haccounted.owned

/-- The tunnel as `NetworkUtil` sets it up, with the service of the shared keyboard and mouse. -/
def cooperationTunnel : TunnelManager :=
  (({ send := true } : TunnelManager).registerService "barrier" "127.0.0.1" 24802).2

theorem notMem_services_cooperationTunnel (id : QString) (h : isTransferServiceId id = true) :
    id ∉ cooperationTunnel.services := by
  intro hmem
  have hbarrier : id = "barrier" := List.mem_singleton.mp (AList.mem_keys.mp hmem)
  rw [hbarrier] at h
  exact absurd h (by decide +kernel)

theorem notMem_forwards_cooperationTunnel (id : QString) (_ : isTransferServiceId id = true) :
    id ∉ cooperationTunnel.forwards :=
  AList.notMem_empty id

/-- A transfer to one peer and one from another, through the tunnel and released in turn. -/
def inTurn : List Event :=
  [.sendFiles "10.0.0.2" 51598 true "6f1c0f0e-0000-4000-8000-000000000001" true,
   .transData "10.0.0.3:51598:token" true "6f1c0f0e-0000-4000-8000-000000000002" (.ok 40000) true,
   .finish "10.0.0.2", .cancel "10.0.0.3", .peerDisconnected]

theorem owned_of_apart_in_turn :
    (inTurn.foldl SessionManager.step { tunnel := cooperationTunnel }).Owned := by
  apply owned_of_apart notMem_services_cooperationTunnel notMem_forwards_cooperationTunnel
  refine ⟨⟨?_, rfl, fun _ ↦ ?_⟩, ⟨?_, rfl, fun _ ↦ ?_⟩, trivial, trivial, ?_, trivial⟩
  · decide +kernel
  · decide +kernel
  · have hhost : endpointHost "10.0.0.3:51598:token" = some "10.0.0.3" := by decide +kernel
    rw [hhost]
    rintro host ⟨⟩
    decide +kernel
  · decide +kernel
  · intro service hholds
    exact List.ne_nil_of_mem hholds.mem_entries (by decide +kernel)

/-- A second transfer to the same address takes the place of the first: the service of the first
stays registered without a job, and its worker is never stopped. -/
theorem not_owned_second_send :
    ¬ ([Event.sendFiles "10.0.0.2" 51598 true "6f1c0f0e-0000-4000-8000-000000000001" true,
      Event.sendFiles "10.0.0.2" 51599 true "6f1c0f0e-0000-4000-8000-000000000002" true].foldl
        SessionManager.step { tunnel := cooperationTunnel }).Owned := by
  intro howned
  have hrecorded := (howned.services "6f1c0f0e-0000-4000-8000-000000000001"
    (by decide +kernel)).mp (by decide +kernel)
  exact absurd hrecorded.mem_entries (by decide +kernel)

end SessionManager

end DdeCooperation.Session
