import Mathlib.Data.Finset.Basic
import DdeCooperation.Daemon.JobReports

/-!
# Receiving with the consent of the user

A remote host applies for a transfer, the user answers through a local application, and
the answer leaves through the sender of this application. On its way out it is noted: the
daemon keeps the names of the applications that have confirmed. A request for a receiving
job is granted if the application it names has confirmed; the name stands in the request.
When a job ends, its status is a queued signal, and the name is removed when the signal
arrives.

The machine keeps beside this what the names stand for: which host has applied through
which application, and which of these applications are confirmed and neither refused nor
ended since. A job is then received with consent, provided that the names tell the hosts
apart, that answers are given to applications and do leave, and that no request comes
while the end of a job of the same name is on its way.
-/

namespace DdeCooperation.Daemon

open Foundations Finset

inductive ApplyTransType where
  | APPLY_TRANS_APPLY
  | APPLY_TRANS_CONFIRM
  | APPLY_TRANS_REFUSED
deriving DecidableEq

structure ApplyTransFiles where
  appname : String
  tarAppname : String
  type : ApplyTransType
deriving DecidableEq

/-- A request with the names of the applications. -/
structure NamedTransJob extends FileTransJob where
  appWho : String
  targetAppname : String
deriving DecidableEq

structure Reception where
  /-- `_app_ips`; the address is empty where there is none. -/
  appIps : String → String := fun _ ↦ ""
  stoped : Bool := false
  authedToken : String := ""
  confirmedTransfers : Finset String := ∅
  manager : JobManager := {}
  /-- Signals `notifyJobResult` that are queued: the job and its status. -/
  signals : List (ℕ × JobResult) := []
  /-- The hosts that have applied, and the local applications they applied through. -/
  applied : Finset (String × String) := ∅
  /-- Of these, the confirmed that have since been neither refused nor ended. -/
  granted : Finset (String × String) := ∅

namespace Reception

inductive Event where
  | createRpcSender (appName targetip : String)
  | stop
  | saveAuthed (token : String)
  /-- A message `TRANS_APPLY` of a host. -/
  | applyTransFile (host : String) (info : ApplyTransFiles)
  /-- The user answers the application of a host; the message itself names no host. -/
  | reply (appName host : String) (type : ApplyTransType)
  /-- A message `TRANSJOB`: whether it can be parsed, and whether the peer of a sending job
  answers. -/
  | transJob (n : ℕ) (parsed answered : Bool)
  | newTransSendJob (n : ℕ) (answered : Bool)
  /-- What else happens to the jobs. -/
  | manage (event : JobManager.Event)
  /-- A job emits `notifyJobResult`. -/
  | emit (n : ℕ) (status : JobResult)
  /-- The signal that was queued first arrives. -/
  | deliver

/-- `rpcSender` finds an address. -/
def hasSender (appName : String) (reception : Reception) : Bool := reception.appIps appName ≠ ""

def createRpcSender (appName targetip : String) (reception : Reception) : Reception :=
  if reception.stoped then reception
  else { reception with appIps := Function.update reception.appIps appName targetip }

def confirmTransfer (appName : String) (reception : Reception) : Reception :=
  { reception with confirmedTransfers := insert appName reception.confirmedTransfers }

def removeConfirmedTransfer (appName : String) (reception : Reception) : Reception :=
  { reception with confirmedTransfers := reception.confirmedTransfers.erase appName }

def isTransferConfirmed (appName : String) (reception : Reception) : Bool :=
  appName ∈ reception.confirmedTransfers

/-- The application of this machine that a remote message is for. -/
def handleRemoteApplyTransFile (info : ApplyTransFiles) : String :=
  -- the two names are swapped, and the first is notified
  info.tarAppname

def applyTransFile (host : String) (info : ApplyTransFiles) (reception : Reception) : Reception :=
  if reception.authedToken = "" ∨ info.type ≠ .APPLY_TRANS_APPLY then reception
  else { reception with
    applied := insert (host, handleRemoteApplyTransFile info) reception.applied }

/-- `handleDoSendProtoMsg` with a message `TRANS_APPLY`. -/
def handleDoSendProtoMsg (appName : String) (type : ApplyTransType) (reception : Reception) :
    Reception :=
  if reception.stoped ∨ ¬ reception.hasSender appName then reception
  else
    match type with
    | .APPLY_TRANS_APPLY => reception
    | .APPLY_TRANS_CONFIRM => reception.confirmTransfer appName
    | .APPLY_TRANS_REFUSED => reception.removeConfirmedTransfer appName

/-- The answer of the user to the application of a host, whatever becomes of the message. -/
def answer (appName host : String) (type : ApplyTransType) (reception : Reception) : Reception :=
  match type with
  | .APPLY_TRANS_APPLY => reception
  | .APPLY_TRANS_CONFIRM =>
    if (host, appName) ∈ reception.applied then
      { reception with granted := insert (host, appName) reception.granted }
    else reception
  | .APPLY_TRANS_REFUSED =>
    { reception with granted := reception.granted.erase (host, appName) }

section Machine

variable (requests : ℕ → NamedTransJob) (hosts : ℕ → String)

/-- Whether a job is made for a request. -/
def accepts (n : ℕ) (parsed answered : Bool) (reception : Reception) : Bool :=
  parsed ∧
    if (requests n).write then reception.isTransferConfirmed (requests n).appWho
    else (requests n).ip ≠ "" ∧ answered

def handleRemoteRequestJob (n : ℕ) (parsed answered : Bool) (reception : Reception) : Reception :=
  if reception.accepts requests n parsed answered then
    { reception with
      manager := reception.manager.step (fun k ↦ (requests k).toFileTransJob) (.request n) }
  else reception

/-- A loop of `startRemoteServer` handles the message, if some login has been stored. -/
def transJob (n : ℕ) (parsed answered : Bool) (reception : Reception) : Reception :=
  if reception.authedToken = "" then reception
  else reception.handleRemoteRequestJob requests n parsed answered

/-- A local application sends. -/
def newTransSendJob (n : ℕ) (answered : Bool) (reception : Reception) : Reception :=
  if (requests n).write then reception
  else reception.handleRemoteRequestJob requests n true answered

def emit (n : ℕ) (status : JobResult) (reception : Reception) : Reception :=
  if (reception.manager.jobs n).loop = .unmade then reception
  else { reception with
    signals := reception.signals ++ [(n, status)]
    granted :=
      if status.terminal ∧ (requests n).write then
        reception.granted.erase (hosts n, (requests n).appWho)
      else reception.granted }

def handleJobTransStatus (appname : String) (status : JobResult) (reception : Reception) :
    Reception :=
  if status.terminal then reception.removeConfirmedTransfer appname else reception

def deliver (reception : Reception) : Reception :=
  match reception.signals with
  | [] => reception
  | (n, status) :: rest =>
    { reception with signals := rest }.handleJobTransStatus (requests n).appWho status

def step (reception : Reception) : Event → Reception
  | .createRpcSender appName targetip => reception.createRpcSender appName targetip
  | .stop => { reception with stoped := true }
  | .saveAuthed token => { reception with authedToken := token }
  | .applyTransFile host info => reception.applyTransFile host info
  | .reply appName host type =>
    (reception.handleDoSendProtoMsg appName type).answer appName host type
  | .transJob n parsed answered => reception.transJob requests n parsed answered
  | .newTransSendJob n answered => reception.newTransSendJob requests n answered
  | .manage event =>
    match event with
    | .request _ => reception
    | event =>
      { reception with
        manager := reception.manager.step (fun k ↦ (requests k).toFileTransJob) event }
  | .emit n status => reception.emit requests hosts n status
  | .deliver => reception.deliver requests

/-- A receiving job is made for a host only with an application of this host that has been
confirmed and neither refused nor ended since. -/
def Consented (reception : Reception) : Event → Prop
  | .transJob n parsed answered =>
    reception.authedToken ≠ "" → reception.accepts requests n parsed answered = true →
      (requests n).write = true → ∃ entry ∈ reception.granted, entry.1 = hosts n
  | _ => True

/-- The end of a receiving job of this name is on its way. -/
def Ending (appName : String) (reception : Reception) : Prop :=
  ∃ signal ∈ reception.signals,
    signal.2.terminal = true ∧ (requests signal.1).write = true ∧
      (requests signal.1).appWho = appName

/-- An application confirms only what the one host it belongs to has applied for; a refusal
leaves; and a request for a receiving job names an application that belongs to the
requesting host and for which no end of a job is on its way. -/
def Attributed (owner : String → String) (reception : Reception) : Event → Prop
  | .reply appName host .APPLY_TRANS_CONFIRM =>
    owner appName = host ∧ (host, appName) ∈ reception.applied
  | .reply appName _ .APPLY_TRANS_REFUSED =>
    reception.stoped = false ∧ reception.hasSender appName = true
  | .transJob n _ _ =>
    (requests n).write = true →
      owner (requests n).appWho = hosts n ∧ ¬ reception.Ending requests (requests n).appWho
  | _ => True

instance (appName : String) (reception : Reception) :
    Decidable (reception.Ending requests appName) :=
  inferInstanceAs (Decidable (∃ signal ∈ reception.signals, _))

instance (reception : Reception) (event : Event) :
    Decidable (reception.Consented requests hosts event) := by
  cases event <;> unfold Consented <;> infer_instance

instance (owner : String → String) (reception : Reception) (event : Event) :
    Decidable (reception.Attributed requests hosts owner event) := by
  unfold Attributed
  split <;> infer_instance

end Machine

/-! ## Names stand for hosts -/

variable {requests : ℕ → NamedTransJob} {hosts : ℕ → String} {owner : String → String}
  {reception next : Reception}

/-- A name that has confirmed, and whose job is not about to end, stands for an application
of its host that is granted. -/
def Backed (requests : ℕ → NamedTransJob) (owner : String → String) (reception : Reception) :
    Prop :=
  ∀ appName ∈ reception.confirmedTransfers, ¬ reception.Ending requests appName →
    (owner appName, appName) ∈ reception.granted

variable (h : reception.Backed requests owner)

include h

/-- What a step does to the names, the signals and the granted applications, if it is none
of those that change them. -/
theorem Backed.of_eq (hconfirmed : next.confirmedTransfers = reception.confirmedTransfers)
    (hsignals : next.signals = reception.signals) (hgranted : next.granted = reception.granted) :
    next.Backed requests owner := by
  intro appName hmem hending
  rw [hgranted]
  refine h appName (hconfirmed ▸ hmem) fun hends ↦ hending ?_
  rw [Ending, hsignals]
  exact hends

theorem Backed.createRpcSender (appName targetip : String) :
    (reception.createRpcSender appName targetip).Backed requests owner := by
  unfold Reception.createRpcSender
  split
  · exact h
  · exact h.of_eq rfl rfl rfl

theorem Backed.applyTransFile (host : String) (info : ApplyTransFiles) :
    (reception.applyTransFile host info).Backed requests owner := by
  unfold Reception.applyTransFile
  split
  · exact h
  · exact h.of_eq rfl rfl rfl

theorem Backed.handleRemoteRequestJob (n : ℕ) (parsed answered : Bool) :
    (reception.handleRemoteRequestJob requests n parsed answered).Backed requests owner := by
  unfold Reception.handleRemoteRequestJob
  split
  · exact h.of_eq rfl rfl rfl
  · exact h

/-- A confirmation reaches the set of names at most together with the granted application. -/
theorem Backed.confirm {appName host : String}
    (howner : owner appName = host) (happlied : (host, appName) ∈ reception.applied) :
    ((reception.handleDoSendProtoMsg appName .APPLY_TRANS_CONFIRM).answer appName host
      .APPLY_TRANS_CONFIRM).Backed requests owner := by
  have hsent : (reception.handleDoSendProtoMsg appName .APPLY_TRANS_CONFIRM).applied =
      reception.applied := by
    unfold handleDoSendProtoMsg
    split <;> rfl
  simp only [answer, hsent, if_pos happlied]
  intro name hname hending
  by_cases heq : name = appName
  · rw [heq, howner]
    exact mem_insert_self _ _
  · refine mem_insert_of_mem ?_
    unfold handleDoSendProtoMsg at hname hending ⊢
    split at hname
    · next hstays =>
      rw [if_pos hstays] at hending ⊢
      exact h name hname hending
    · next hleaves =>
      rw [if_neg hleaves] at hending ⊢
      exact h name (mem_of_mem_insert_of_ne hname heq) hending

/-- A refusal that leaves takes the name with it. -/
theorem Backed.refuse {appName : String} (host : String)
    (hstoped : reception.stoped = false) (hsender : reception.hasSender appName = true) :
    ((reception.handleDoSendProtoMsg appName .APPLY_TRANS_REFUSED).answer appName host
      .APPLY_TRANS_REFUSED).Backed requests owner := by
  have hleaves : ¬ (reception.stoped = true ∨ ¬ reception.hasSender appName = true) := by
    rw [hstoped, hsender]
    decide
  simp only [handleDoSendProtoMsg, if_neg hleaves, answer, removeConfirmedTransfer]
  intro name hname hending
  obtain ⟨hne, hmem⟩ := mem_erase.mp hname
  exact mem_erase.mpr ⟨fun heq ↦ hne (congrArg Prod.snd heq), h name hmem hending⟩

/-- The end of a job takes the granted application away, and its signal is on its way. -/
theorem Backed.emit (n : ℕ) (status : JobResult) :
    (reception.emit requests hosts n status).Backed requests owner := by
  unfold Reception.emit
  split
  · exact h
  · intro name hname hending
    have hbefore : ¬ reception.Ending requests name := by
      rintro ⟨signal, hsignal, hends⟩
      exact hending ⟨signal, List.mem_append_left _ hsignal, hends⟩
    have hgranted := h name hname hbefore
    dsimp only
    split
    · next hterminal =>
      refine mem_erase.mpr ⟨fun heq ↦ hending ?_, hgranted⟩
      refine ⟨(n, status), List.mem_append_right _ (List.mem_singleton_self _), hterminal.1,
        hterminal.2, (congrArg Prod.snd heq).symm⟩
    · exact hgranted

/-- A signal that arrives takes its name away, so what was on its way has come. -/
theorem Backed.deliver : (reception.deliver requests).Backed requests owner := by
  unfold Reception.deliver
  split
  · exact h
  · next n status rest hsignals =>
    have hshorter : ∀ name, reception.Ending requests name →
        (∃ signal ∈ rest, signal.2.terminal = true ∧ (requests signal.1).write = true ∧
          (requests signal.1).appWho = name) ∨
        status.terminal = true ∧ (requests n).appWho = name := by
      rintro name ⟨signal, hsignal, hterminal, hwrite, hname⟩
      rw [hsignals] at hsignal
      rcases List.mem_cons.mp hsignal with heq | hrest
      · rw [heq] at hterminal hname
        exact .inr ⟨hterminal, hname⟩
      · exact .inl ⟨signal, hrest, hterminal, hwrite, hname⟩
    unfold handleJobTransStatus
    split
    · intro name hname hending
      obtain ⟨hne, hmem⟩ := mem_erase.mp hname
      refine h name hmem fun hends ↦ ?_
      rcases hshorter name hends with hrest | ⟨-, heq⟩
      · exact hending hrest
      · exact hne heq.symm
    · next hdoing =>
      intro name hname hending
      refine h name hname fun hends ↦ ?_
      rcases hshorter name hends with hrest | ⟨hterminal, -⟩
      · exact hending hrest
      · exact hdoing hterminal

theorem Backed.step {event : Event}
    (hattributed : reception.Attributed requests hosts owner event) :
    (reception.step requests hosts event).Backed requests owner := by
  cases event with
  | createRpcSender appName targetip => exact h.createRpcSender appName targetip
  | stop | saveAuthed token => exact h.of_eq rfl rfl rfl
  | applyTransFile host info => exact h.applyTransFile host info
  | reply appName host type =>
    cases type with
    | APPLY_TRANS_APPLY =>
      simp only [Reception.step, handleDoSendProtoMsg, ite_self, answer]
      exact h
    | APPLY_TRANS_CONFIRM => exact h.confirm hattributed.1 hattributed.2
    | APPLY_TRANS_REFUSED => exact h.refuse host hattributed.1 hattributed.2
  | transJob n parsed answered =>
    simp only [Reception.step, Reception.transJob]
    split
    · exact h
    · exact h.handleRemoteRequestJob n parsed answered
  | newTransSendJob n answered =>
    simp only [Reception.step, Reception.newTransSendJob]
    split
    · exact h
    · exact h.handleRemoteRequestJob n true answered
  | manage event =>
    cases event with
    | request n => exact h
    | start n | check n | idle n | process n exception last | scanError n | finished n
    | cancel id | remoteCancel id | reportError id | reportFinish id | offline ip =>
      exact h.of_eq rfl rfl rfl
  | emit n status => exact h.emit n status
  | deliver => exact h.deliver

/-- A request that names the application of its host is granted with consent. -/
theorem Backed.consented {event : Event}
    (hattributed : reception.Attributed requests hosts owner event) :
    reception.Consented requests hosts event := by
  cases event with
  | transJob n parsed answered =>
    intro _ haccepts hwrite
    obtain ⟨howner, hending⟩ := hattributed hwrite
    simp only [accepts, hwrite, if_true, decide_eq_true_eq, isTransferConfirmed] at haccepts
    exact ⟨_, h _ haccepts.2 hending, howner⟩
  | createRpcSender | stop | saveAuthed | applyTransFile | reply | newTransSendJob | manage
  | emit | deliver => trivial

omit h

/-- A run whose names tell the hosts apart receives only with consent. -/
theorem consented_of_attributed (owner : String → String) (events : List Event)
    (h : Throughout (step requests hosts) (Attributed requests hosts owner) {} events) :
    Throughout (step requests hosts) (Consented requests hosts) {} events := by
  have hinitial : Backed requests owner {} := fun _ hmem ↦ absurd hmem (notMem_empty _)
  exact Throughout.of_invariant (fun _ _ hbacked hattributed ↦ hbacked.step hattributed)
    (fun _ _ hbacked hattributed ↦ hbacked.consented hattributed) hinitial h

/-- Requests for receiving jobs, from one host after the other, that name the same
application. -/
def sampleRequests (n : ℕ) : NamedTransJob where
  jobId := n
  write := true
  ip := "10.0.0.2"
  appWho := "dde-cooperation"
  targetAppname := "dde-cooperation"

def sampleHosts : ℕ → String
  | 1 => "10.0.0.3"
  | _ => "10.0.0.2"

/-- A host applies, the user confirms, and a job is requested. -/
def sampleRun (n : ℕ) : List Event :=
  [.saveAuthed "token",
    .createRpcSender "dde-cooperation" "10.0.0.2",
    .applyTransFile "10.0.0.2" ⟨"dde-cooperation", "dde-cooperation", .APPLY_TRANS_APPLY⟩,
    .reply "dde-cooperation" "10.0.0.2" .APPLY_TRANS_CONFIRM,
    .transJob n true true]

/-- The host that was confirmed has its job made, and once the job has ended and the signal
has arrived, none more. -/
theorem consented_of_attributed_sampleRun :
    Throughout (step sampleRequests sampleHosts) (Consented sampleRequests sampleHosts) {}
      (sampleRun 0 ++
        [.emit 0 .JOB_TRANS_FINISHED, .deliver, .transJob 2 true true]) ∧
    ((((sampleRun 0).foldl (step sampleRequests sampleHosts) {}).manager.jobs 0).loop =
      .waiting) :=
  ⟨consented_of_attributed (fun _ ↦ "10.0.0.2") _ (by decide +kernel), by decide +kernel⟩

/-- The confirmation that was given to one host makes a job for another. -/
theorem not_consented_other_host :
    ¬ Throughout (step sampleRequests sampleHosts) (Consented sampleRequests sampleHosts) {}
      (sampleRun 1) := by
  decide +kernel

end Reception

end DdeCooperation.Daemon
