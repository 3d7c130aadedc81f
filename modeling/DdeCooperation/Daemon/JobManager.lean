import Mathlib.Data.List.AList
import DdeCooperation.Foundations.Runs

/-!
# The registry of transfer jobs

The daemon keeps the jobs that send and the jobs that receive in two tables, by job ids
that local applications and remote hosts choose. A job runs in a thread of its own: it
goes around a loop that looks at the status of the job, takes a block and processes it.
Requests, cancellations, reports and the loss of a peer come from other threads at any
time; they store a status and do not wait for the loop. When the loop is over, the job
says so with its id, and the manager removes what stands under this id in both tables.

Jobs are numbered; whether there is a block for a job, and whether its processing fails,
is left open. A job is dismissed when it has been superseded, cancelled, or has failed.
-/

namespace DdeCooperation.Daemon

open Foundations Function

inductive JobState where
  | NONE
  | INIT
  | STARTED
  | PAUSE
  | CANCELING
  | WAIT_DONE
  | STOPED
deriving DecidableEq

/-- The request for a job: the fields that the registry uses. -/
structure FileTransJob where
  jobId : ℤ
  write : Bool
  ip : String
deriving DecidableEq

/-- Where the thread of a job is. -/
inductive Loop where
  | unmade
  /-- The thread has not come to `start`. -/
  | waiting
  /-- Before the status is looked at. -/
  | head
  /-- Before a block is taken. -/
  | body
  | over
  /-- The manager has been told. -/
  | removed
deriving DecidableEq

structure TransferJob where
  status : JobState := .NONE
  offlined : Bool := false
  loop : Loop := .unmade
  /-- Superseded, cancelled or failed. -/
  dismissed : Bool := false
deriving DecidableEq

namespace TransferJob

def ended (job : TransferJob) : Bool := job.status = .STOPED

def initJob : TransferJob := { status := .INIT, loop := .waiting }

def start (job : TransferJob) : TransferJob :=
  match job.loop with
  | .waiting => { job with status := .STARTED, loop := .head }
  | _ => job

/-- `stop`, by which a job is superseded. -/
def stop (job : TransferJob) : TransferJob := { job with status := .STOPED, dismissed := true }

def waitFinish (job : TransferJob) : TransferJob := { job with status := .WAIT_DONE }

def cancel (notify : Bool) (job : TransferJob) : TransferJob :=
  if notify then
    { job with
      status := if job.status = .STARTED then .CANCELING else job.status, dismissed := true }
  else { job with status := .STOPED, dismissed := true }

def cancelUnlessEnded (job : TransferJob) : TransferJob :=
  if job.ended then job else job.cancel false

/-- Whether `offlineCancel` takes effect. -/
def losesPeer (ip tarIp : String) (job : TransferJob) : Bool :=
  ¬ (job.offlined ∨ ip = "" ∨ ip ≠ tarIp)

def offlineCancel (job : TransferJob) : TransferJob :=
  { job with offlined := true, dismissed := true }

/-- The end of `handleBlockQueque`. -/
def leave (job : TransferJob) : TransferJob := { job with status := .STOPED, loop := .over }

/-- The loop looks at the status. -/
def check (job : TransferJob) : TransferJob :=
  match job.loop with
  | .head =>
    if job.status = .STOPED ∨ job.status = .CANCELING then job.leave
    else { job with loop := .body }
  | _ => job

/-- The loop finds no block. -/
def idle (job : TransferJob) : TransferJob :=
  match job.loop with
  | .body => { job with loop := .head }
  | _ => job

/-- The loop processes a block, which may fail, or be the last. -/
def process (exception last : Bool) (job : TransferJob) : TransferJob :=
  match job.loop with
  | .body =>
    if exception ∨ job.offlined then { job.leave with dismissed := true }
    else if last then job.leave
    else { job with loop := .head }
  | _ => job

/-- The loop is over. -/
def Gone (job : TransferJob) : Prop := job.loop = .over ∨ job.loop = .removed

/-- The loop has begun and is not in the middle of a block. -/
def Between (job : TransferJob) : Prop := job.loop = .head ∨ job.Gone

/-- A job that has been dismissed will not come to another block. -/
def Settled (job : TransferJob) : Prop :=
  job.dismissed = true → job.Gone ∨
    job.loop = .head ∧ (job.status = .STOPED ∨ job.status = .CANCELING)

theorem settled_initJob : initJob.Settled := nofun

variable {job : TransferJob}

theorem Gone.settled (h : job.Gone) : job.Settled := fun _ ↦ .inl h

/-- A job that has not begun, or is in the middle of a block, has not been dismissed. -/
theorem Settled.not_dismissed (h : job.Settled) (hloop : ¬ job.Between) :
    job.dismissed = false := by
  rw [Bool.eq_false_iff]
  exact fun hdismissed ↦ hloop ((h hdismissed).elim .inr fun hhead ↦ .inl hhead.1)

theorem Settled.of_not_between (h : job.Settled) (hloop : ¬ job.Between) {next : TransferJob}
    (hsame : next.dismissed = job.dismissed) : next.Settled := by
  intro hdismissed
  rw [hsame, h.not_dismissed hloop] at hdismissed
  cases hdismissed

theorem Settled.start (h : job.Settled) : job.start.Settled := by
  unfold TransferJob.start
  split
  · next hwaiting => exact h.of_not_between (by simp [Between, Gone, hwaiting]) rfl
  · exact h

theorem Settled.check (h : job.Settled) : job.check.Settled := by
  unfold TransferJob.check
  split
  · next hhead =>
    split
    · exact Gone.settled (.inl rfl)
    · next hstatus =>
      intro hdismissed
      rcases h hdismissed with hgone | ⟨-, hended⟩
      · simp [Gone, hhead] at hgone
      · exact absurd hended hstatus
  · exact h

theorem Settled.idle (h : job.Settled) : job.idle.Settled := by
  unfold TransferJob.idle
  split
  · next hbody => exact h.of_not_between (by simp [Between, Gone, hbody]) rfl
  · exact h

theorem Settled.process (h : job.Settled) (exception last : Bool) :
    (job.process exception last).Settled := by
  unfold TransferJob.process
  split
  · next hbody =>
    split
    · exact Gone.settled (.inl rfl)
    · split
      · exact Gone.settled (.inl rfl)
      · exact h.of_not_between (by simp [Between, Gone, hbody]) rfl
  · exact h

/-- A job that is stopped between two blocks goes no further. -/
theorem Between.settled (h : job.Between) {next : TransferJob} (hloop : next.loop = job.loop)
    (hstatus : next.status = .STOPED) : next.Settled := by
  intro _
  rcases h with hhead | hgone
  · exact .inr ⟨hloop.trans hhead, .inl hstatus⟩
  · refine .inl ?_
    rw [Gone, hloop]
    exact hgone

/-- A local cancellation takes effect between two blocks of a job that runs. -/
theorem settled_cancel (h : job.Gone ∨ job.loop = .head ∧
      (job.status = .STARTED ∨ job.status = .CANCELING ∨ job.status = .STOPED)) :
    (job.cancel true).Settled := by
  intro _
  rcases h with hgone | ⟨hhead, heq | heq | heq⟩
  · exact .inl hgone
  · exact .inr ⟨hhead, .inr (if_pos heq)⟩
  · exact .inr ⟨hhead, .inr ((if_neg (by rw [heq]; nofun)).trans heq)⟩
  · exact .inr ⟨hhead, .inl ((if_neg (by rw [heq]; nofun)).trans heq)⟩

end TransferJob

structure JobManager where
  sends : AList (fun _ : ℤ ↦ ℕ) := ∅
  recvs : AList (fun _ : ℤ ↦ ℕ) := ∅
  jobs : ℕ → TransferJob := fun _ ↦ {}

namespace JobManager

/-- The table of a direction. -/
def table (write : Bool) (manager : JobManager) : AList (fun _ : ℤ ↦ ℕ) :=
  if write then manager.recvs else manager.sends

def setTable (write : Bool) (table : AList (fun _ : ℤ ↦ ℕ)) (manager : JobManager) : JobManager :=
  if write then { manager with recvs := table } else { manager with sends := table }

def modify (n : ℕ) (f : TransferJob → TransferJob) (manager : JobManager) : JobManager :=
  { manager with jobs := Function.update manager.jobs n (f (manager.jobs n)) }

/-- `QMap::first`. -/
def first (table : AList (fun _ : ℤ ↦ ℕ)) : Option ℕ := table.keys.min?.bind table.lookup

/-- The job that is asked when a peer is lost. -/
def firstJob (manager : JobManager) : Option ℕ :=
  if manager.sends.entries = [] then first manager.recvs else first manager.sends

inductive Event where
  /-- `handleRemoteRequestJob` has made a job. -/
  | request (n : ℕ)
  | start (n : ℕ)
  | check (n : ℕ)
  | idle (n : ℕ)
  | process (n : ℕ) (exception last : Bool)
  /-- The thread that scans the files of a job gives up. -/
  | scanError (n : ℕ)
  /-- `notifyJobFinished` reaches the manager. -/
  | finished (n : ℕ)
  /-- `doJobAction`: a local application cancels. -/
  | cancel (id : ℤ)
  /-- `handleCancelJob`: a remote host cancels. -/
  | remoteCancel (id : ℤ)
  /-- `handleTransReport` with `IO_ERROR` and with `FINIASH`. -/
  | reportError (id : ℤ)
  | reportFinish (id : ℤ)
  | offline (ip : String)

section Machine

variable (requests : ℕ → FileTransJob)

/-- A job of the same direction and id that has not ended is stopped. -/
def supersede (write : Bool) (id : ℤ) (manager : JobManager) : JobManager :=
  match (manager.table write).lookup id with
  | some old => if (manager.jobs old).ended then manager else manager.modify old TransferJob.stop
  | none => manager

def handleRemoteRequestJob (n : ℕ) (manager : JobManager) : JobManager :=
  let id := (requests n).jobId
  let write := (requests n).write
  let manager := manager.supersede write id
  (manager.modify n fun _ ↦ .initJob).setTable write ((manager.table write).insert id n)

/-- The jobs under an id, of either direction. -/
def under (id : ℤ) (manager : JobManager) : List ℕ :=
  (manager.recvs.lookup id).toList ++ (manager.sends.lookup id).toList

def doJobAction (id : ℤ) (manager : JobManager) : JobManager :=
  (manager.under id).foldl (fun manager n ↦ manager.modify n (TransferJob.cancel true)) manager

def handleCancelJob (id : ℤ) (manager : JobManager) : JobManager :=
  (manager.under id).foldl (fun manager n ↦ manager.modify n TransferJob.cancelUnlessEnded) manager

/-- A job whose peer reports an error is put aside. -/
def handleReportError (id : ℤ) (manager : JobManager) : JobManager :=
  match manager.sends.lookup id with
  | none => manager
  | some n =>
    { manager.modify n fun job ↦ { job with dismissed := true } with
      sends := manager.sends.erase id }

def handleReportFinish (id : ℤ) (manager : JobManager) : JobManager :=
  match manager.recvs.lookup id with
  | none => manager
  | some n => { manager.modify n TransferJob.waitFinish with recvs := manager.recvs.erase id }

def handleRemoveJob (id : ℤ) (manager : JobManager) : JobManager :=
  { manager with recvs := manager.recvs.erase id, sends := manager.sends.erase id }

def handleOtherOffline (ip : String) (manager : JobManager) : JobManager :=
  match manager.firstJob with
  | none => manager
  | some n =>
    if (manager.jobs n).losesPeer ip (requests n).ip then
      { manager.modify n TransferJob.offlineCancel with sends := ∅, recvs := ∅ }
    else manager

def step (manager : JobManager) : Event → JobManager
  | .request n =>
    match (manager.jobs n).loop with
    | .unmade => manager.handleRemoteRequestJob requests n
    | _ => manager
  | .start n => manager.modify n TransferJob.start
  | .check n => manager.modify n TransferJob.check
  | .idle n => manager.modify n TransferJob.idle
  | .process n exception last => manager.modify n (TransferJob.process exception last)
  | .scanError n => manager.modify n (TransferJob.cancel false)
  | .finished n =>
    match (manager.jobs n).loop with
    | .over =>
      (manager.modify n fun job ↦ { job with loop := .removed }).handleRemoveJob (requests n).jobId
    | _ => manager
  | .cancel id => manager.doJobAction id
  | .remoteCancel id => manager.handleCancelJob id
  | .reportError id => manager.handleReportError id
  | .reportFinish id => manager.handleReportFinish id
  | .offline ip => manager.handleOtherOffline requests ip

/-! ## What is to be kept -/

/-- The event is the end of the registered job itself: it says that it has finished, it is
superseded, or it is the one whose peer is lost. A report only names an id. -/
def EndOf (manager : JobManager) (write : Bool) (id : ℤ) (k : ℕ) : Event → Prop
  | .request n => (requests n).write = write ∧ (requests n).jobId = id
  | .finished n => n = k
  | .offline _ => manager.firstJob = some k
  | _ => False

/-- A job leaves a table only when it has ended or by its own end. -/
def KeepsOthers (manager : JobManager) (event : Event) : Prop :=
  ∀ write id k, (manager.table write).lookup id = some k →
    ((manager.step requests event).table write).lookup id ≠ some k →
      (manager.jobs k).ended = true ∨ manager.EndOf requests write id k event

/-- When a job has finished, any other job under its id has ended; when the first job loses
its peer, all other jobs have ended; and a report that removes a job finds that it has ended. -/
def EndsAlone (manager : JobManager) : Event → Prop
  | .finished n => (manager.jobs n).loop = .over → ∀ write k,
      (manager.table write).lookup (requests n).jobId = some k →
        (manager.jobs k).ended = true ∨ n = k
  | .reportError id => ∀ k, (manager.table false).lookup id = some k → (manager.jobs k).ended = true
  | .reportFinish id => ∀ k, (manager.table true).lookup id = some k → (manager.jobs k).ended = true
  | .offline ip => ∀ n, manager.firstJob = some n →
      (manager.jobs n).losesPeer ip (requests n).ip = true → ∀ write id k,
        (manager.table write).lookup id = some k → (manager.jobs k).ended = true ∨ n = k
  | _ => True

/-- A block is processed only by a job that has not been dismissed. -/
def ProcessesLive (manager : JobManager) : Event → Prop
  | .process n _ _ => (manager.jobs n).loop = .body → (manager.jobs n).dismissed = false
  | _ => True

/-- A job is superseded or cancelled only between two blocks, and by a local application
only while it is started; it is told to finish only while it is not dismissed; and its peer
reports an error or is lost only when the job is over. -/
def Considerate (manager : JobManager) : Event → Prop
  | .request n => ∀ k, (manager.table (requests n).write).lookup (requests n).jobId = some k →
      (manager.jobs k).ended = false → (manager.jobs k).Between
  | .scanError n => (manager.jobs n).Between
  | .cancel id => ∀ k ∈ manager.under id, (manager.jobs k).Gone ∨
      (manager.jobs k).loop = .head ∧ ((manager.jobs k).status = .STARTED ∨
        (manager.jobs k).status = .CANCELING ∨ (manager.jobs k).status = .STOPED)
  | .remoteCancel id => ∀ k ∈ manager.under id, (manager.jobs k).ended = false →
      (manager.jobs k).Between
  | .reportError id => ∀ k, manager.sends.lookup id = some k → (manager.jobs k).Gone
  | .reportFinish id => ∀ k, manager.recvs.lookup id = some k →
      (manager.jobs k).dismissed = true → (manager.jobs k).Gone
  | .offline ip => ∀ n, manager.firstJob = some n →
      (manager.jobs n).losesPeer ip (requests n).ip = true → (manager.jobs n).Gone
  | _ => True

end Machine

variable {requests : ℕ → FileTransJob} {manager : JobManager}

/-! ## The tables -/

variable {write : Bool} {n : ℕ}

theorem table_modify (f : TransferJob → TransferJob) :
    (manager.modify n f).table write = manager.table write := by
  cases write <;> rfl

variable {other : Bool}

theorem table_setTable (table : AList (fun _ : ℤ ↦ ℕ)) :
    (manager.setTable write table).table other =
      if other = write then table else manager.table other := by
  cases write <;> cases other <;> rfl

theorem table_foldl_modify {f : JobManager → ℕ → JobManager}
    (hf : ∀ manager n, (f manager n).table write = manager.table write) (ns : List ℕ) :
    (ns.foldl f manager).table write = manager.table write := by
  induction ns generalizing manager with
  | nil => rfl
  | cons n ns ih => exact ih.trans (hf manager n)

variable {id : ℤ}

theorem table_supersede : (manager.supersede write id).table other = manager.table other := by
  unfold supersede
  split
  · split
    · rfl
    · exact table_modify _
  · rfl

theorem table_handleRemoteRequestJob :
    (manager.handleRemoteRequestJob requests n).table write =
      if write = (requests n).write then (manager.table write).insert (requests n).jobId n
      else manager.table write := by
  rw [handleRemoteRequestJob, table_setTable]
  split
  · next heq => rw [table_supersede, heq]
  · rw [table_modify, table_supersede]

theorem table_handleRemoveJob :
    (manager.handleRemoveJob id).table write = (manager.table write).erase id := by
  cases write <;> rfl

variable {event : Event}

/-- What an event does to the table of a direction, if it is none of those that remove. -/
theorem keepsOthers_of_table
    (h : ∀ write, (manager.step requests event).table write = manager.table write) :
    manager.KeepsOthers requests event := by
  intro write id k hlookup hgone
  rw [h] at hgone
  exact absurd hlookup hgone

/-- An event that is no job's end removes what stands under one id of one table. -/
theorem keepsOthers_iff_of_erased (h : ∀ direction other,
      ((manager.step requests event).table direction).lookup other =
        if direction = write ∧ other = id then none else (manager.table direction).lookup other)
    (hend : ∀ direction other k, ¬ manager.EndOf requests direction other k event) :
    manager.KeepsOthers requests event ↔
      ∀ k, (manager.table write).lookup id = some k → (manager.jobs k).ended = true := by
  constructor
  · intro hkeeps k hlookup
    refine (hkeeps write id k hlookup ?_).resolve_right (hend write id k)
    rw [h, if_pos ⟨rfl, rfl⟩]
    exact nofun
  · intro hended direction other k hlookup hgone
    rw [h] at hgone
    split at hgone
    · next heq =>
      obtain ⟨rfl, rfl⟩ := heq
      exact .inl (hended k hlookup)
    · exact absurd hlookup hgone

theorem lookup_erase_of_ne (table : AList (fun _ : ℤ ↦ ℕ)) (other : ℤ) :
    (table.erase id).lookup other = if other = id then none else table.lookup other := by
  split
  · next heq => rw [heq, AList.lookup_erase]
  · next hne => exact AList.lookup_erase_ne hne

theorem keepsOthers_iff_endsAlone (manager : JobManager) (event : Event) :
    manager.KeepsOthers requests event ↔ manager.EndsAlone requests event := by
  cases event with
  | request n =>
    refine iff_of_true (fun write id k hlookup hgone ↦ ?_) trivial
    simp only [step] at hgone
    split at hgone
    · rw [table_handleRemoteRequestJob] at hgone
      split at hgone
      · next hwrite =>
        by_cases hid : id = (requests n).jobId
        · exact .inr ⟨hwrite.symm, hid.symm⟩
        · rw [AList.lookup_insert_ne hid] at hgone
          exact absurd hlookup hgone
      · exact absurd hlookup hgone
    · exact absurd hlookup hgone
  | start n | check n | idle n | process n exception last | scanError n =>
    exact iff_of_true (keepsOthers_of_table fun write ↦ table_modify _) trivial
  | finished n =>
    simp only [KeepsOthers, EndsAlone, step]
    split
    · next hover =>
      simp only [table_handleRemoveJob, table_modify]
      constructor
      · intro h _ write k hlookup
        refine h write _ k hlookup ?_
        rw [AList.lookup_erase]
        exact nofun
      · intro h write id k hlookup hgone
        by_cases hid : id = (requests n).jobId
        · exact h hover write k (hid ▸ hlookup)
        · rw [AList.lookup_erase_ne hid] at hgone
          exact absurd hlookup hgone
    · next hnot =>
      exact iff_of_true (fun _ _ _ hlookup hgone ↦ absurd hlookup hgone)
        fun hover ↦ absurd hover hnot
  | cancel id | remoteCancel id =>
    refine iff_of_true (keepsOthers_of_table fun write ↦ ?_) trivial
    exact table_foldl_modify (fun _ _ ↦ table_modify _) _
  | reportError id =>
    refine keepsOthers_iff_of_erased (fun direction other ↦ ?_) nofun
    simp only [step, handleReportError]
    split
    · next hnone =>
      cases direction with
      | true => simp [table]
      | false => simpa [table] using (fun heq ↦ heq ▸ hnone)
    · cases direction <;> simp [table, modify, lookup_erase_of_ne]
  | reportFinish id =>
    refine keepsOthers_iff_of_erased (fun direction other ↦ ?_) nofun
    simp only [step, handleReportFinish]
    split
    · next hnone =>
      cases direction with
      | true => simpa [table] using (fun heq ↦ heq ▸ hnone)
      | false => simp [table]
    · cases direction <;> simp [table, modify, lookup_erase_of_ne]
  | offline ip =>
    simp only [KeepsOthers, EndsAlone, EndOf, step, handleOtherOffline]
    cases hfirst : manager.firstJob with
    | none => exact iff_of_true (fun _ _ _ hlookup hgone ↦ absurd hlookup hgone) nofun
    | some n =>
      dsimp only
      split
      · next hloses =>
        have hempty : ∀ write, (JobManager.table write
            { manager.modify n TransferJob.offlineCancel with sends := ∅, recvs := ∅ }) = ∅ := by
          intro write
          cases write <;> rfl
        simp only [hempty, AList.lookup_empty, ne_eq, reduceCtorEq, not_false_eq_true, true_implies,
          Option.some.injEq, forall_eq', hloses]
      · next hkeeps =>
        refine iff_of_true (fun _ _ _ hlookup hgone ↦ absurd hlookup hgone) fun m hm hloses ↦ ?_
        rw [← Option.some.inj hm] at hloses
        exact absurd hloses hkeeps

/-! ## The jobs -/

/-- Every job that has been dismissed is settled. -/
def Calm (manager : JobManager) : Prop := ∀ n, (manager.jobs n).Settled

variable {n : ℕ} {f : TransferJob → TransferJob}

theorem Calm.modify (h : manager.Calm) (hf : (f (manager.jobs n)).Settled) :
    (manager.modify n f).Calm := by
  intro m
  change (update manager.jobs n _ m).Settled
  by_cases heq : m = n
  · rw [heq, update_self]
    exact hf
  · rw [update_of_ne heq]
    exact h m

theorem jobs_setTable (table : AList (fun _ : ℤ ↦ ℕ)) :
    (manager.setTable write table).jobs = manager.jobs := by
  cases write <;> rfl

variable (h : manager.Calm)

include h

theorem Calm.handleRemoteRequestJob (hconsiderate : manager.Considerate requests (.request n)) :
    (manager.handleRemoteRequestJob requests n).Calm := by
  have hstopped : (manager.supersede (requests n).write (requests n).jobId).Calm := by
    unfold supersede
    split
    · next old hold =>
      split
      · exact h
      · next hended =>
        exact h.modify ((hconsiderate old hold (Bool.eq_false_iff.mpr hended)).settled rfl rfl)
    · exact h
  intro m
  rw [JobManager.handleRemoteRequestJob, jobs_setTable]
  exact hstopped.modify TransferJob.settled_initJob m

/-- The jobs under an id are changed one by one; what is asked of a job does not change
with the others, unless it is the same job under both directions. -/
theorem Calm.foldl_modify {p : TransferJob → Prop} (hf : ∀ job, p job → (f job).Settled)
    (hagain : ∀ job, p job → p (f job)) {ns : List ℕ} (hns : ∀ n ∈ ns, p (manager.jobs n)) :
    (ns.foldl (fun manager n ↦ manager.modify n f) manager).Calm := by
  induction ns generalizing manager with
  | nil => exact h
  | cons n ns ih =>
    rw [List.forall_mem_cons] at hns
    refine ih (h.modify (hf _ hns.1)) fun m hm ↦ ?_
    change p (update manager.jobs n _ m)
    by_cases heq : m = n
    · rw [heq, update_self]
      exact hagain _ hns.1
    · rw [update_of_ne heq]
      exact hns.2 m hm

variable {id : ℤ}

theorem Calm.doJobAction (hconsiderate : manager.Considerate requests (.cancel id)) :
    (manager.doJobAction id).Calm := by
  refine h.foldl_modify (fun job ↦ TransferJob.settled_cancel) (fun job hjob ↦ ?_) hconsiderate
  rcases hjob with hgone | ⟨hhead, hstatus⟩
  · exact .inl hgone
  · refine .inr ⟨hhead, ?_⟩
    rcases hstatus with heq | heq | heq
    · exact .inr (.inl (if_pos heq))
    · exact .inr (.inl ((if_neg (by rw [heq]; nofun)).trans heq))
    · exact .inr (.inr ((if_neg (by rw [heq]; nofun)).trans heq))

theorem Calm.handleCancelJob (hconsiderate : manager.Considerate requests (.remoteCancel id)) :
    (manager.handleCancelJob id).Calm := by
  have hsettled : ∀ job : TransferJob, job.Settled ∧ (job.ended = false → job.Between) →
      job.cancelUnlessEnded.Settled := by
    rintro job ⟨hsettled, hbetween⟩
    unfold TransferJob.cancelUnlessEnded
    split
    · exact hsettled
    · next hended => exact (hbetween (Bool.eq_false_iff.mpr hended)).settled rfl rfl
  refine h.foldl_modify hsettled (fun job hjob ↦ ⟨hsettled job hjob, fun hnot ↦ ?_⟩)
    fun n hn ↦ ⟨h n, hconsiderate n hn⟩
  -- afterwards the job has ended
  unfold TransferJob.cancelUnlessEnded at hnot
  split at hnot
  · next hended =>
    rw [hended] at hnot
    cases hnot
  · cases hnot

theorem Calm.step (hconsiderate : manager.Considerate requests event) :
    (manager.step requests event).Calm := by
  cases event with
  | request n =>
    simp only [JobManager.step]
    split
    · exact h.handleRemoteRequestJob hconsiderate
    · exact h
  | start n => exact h.modify (h n).start
  | check n => exact h.modify (h n).check
  | idle n => exact h.modify (h n).idle
  | process n exception last => exact h.modify ((h n).process exception last)
  | scanError n => exact h.modify (TransferJob.Between.settled hconsiderate rfl rfl)
  | finished n =>
    simp only [JobManager.step]
    split
    · have hremoved : (manager.modify n fun job ↦ { job with loop := .removed }).Calm :=
        h.modify (TransferJob.Gone.settled (.inr rfl))
      exact hremoved
    · exact h
  | cancel id => exact h.doJobAction hconsiderate
  | remoteCancel id => exact h.handleCancelJob hconsiderate
  | reportError id =>
    simp only [JobManager.step, handleReportError]
    split
    · exact h
    · next n hn =>
      have haside : (manager.modify n fun job ↦ { job with dismissed := true }).Calm :=
        h.modify fun _ ↦ .inl (hconsiderate n hn)
      exact haside
  | reportFinish id =>
    simp only [JobManager.step, handleReportFinish]
    split
    · exact h
    · next n hn =>
      have hwaits : (manager.modify n TransferJob.waitFinish).Calm :=
        h.modify fun hdismissed ↦ .inl (hconsiderate n hn hdismissed)
      exact hwaits
  | offline ip =>
    simp only [JobManager.step, handleOtherOffline]
    split
    · exact h
    · next n hn =>
      split
      · next hloses =>
        have hlost : (manager.modify n TransferJob.offlineCancel).Calm :=
          h.modify fun _ ↦ .inl (hconsiderate n hn hloses)
        exact hlost
      · exact h

theorem Calm.processesLive (event : Event) : manager.ProcessesLive event := by
  cases event with
  | process n exception last =>
    exact fun hbody ↦ (h n).not_dismissed (by simp [TransferJob.Between, TransferJob.Gone, hbody])
  | _ => trivial

omit h

/-- In every run of the manager: jobs leave the tables only when they have ended or by
their own end, if and only if no job under the id of one that has finished, or of a report, and
no job beside the one that has lost its peer, is still to be ended. And if jobs are dismissed
only between two blocks, in a state in which that takes effect, no job that has been
dismissed processes another block. -/
theorem keepsOthers_iff_and_processesLive (requests : ℕ → FileTransJob) (events : List Event) :
    (Throughout (step requests) (KeepsOthers requests) {} events ↔
      Throughout (step requests) (EndsAlone requests) {} events) ∧
    (Throughout (step requests) (Considerate requests) {} events →
      Throughout (step requests) ProcessesLive {} events) := by
  refine ⟨Throughout.congr keepsOthers_iff_endsAlone, fun h ↦ ?_⟩
  have hinit : ({} : JobManager).Calm := fun _ ↦ nofun
  have hkeep : ∀ (manager : JobManager) event, manager.Calm → manager.Considerate requests event →
      (manager.step requests event).Calm := fun _ _ hcalm ↦ hcalm.step
  have hlive : ∀ (manager : JobManager) event, manager.Calm → manager.Considerate requests event →
      manager.ProcessesLive event := fun _ event hcalm _ ↦ hcalm.processesLive event
  exact Throughout.of_invariant hkeep hlive hinit h

/-- A remote host cancels a job between two blocks. -/
theorem keepsOthers_iff_and_processesLive_cancel :
    Throughout (step fun _ ↦ ⟨7, true, "10.0.0.2"⟩) ProcessesLive {}
      [.request 0, .start 0, .check 0, .process 0 false false, .remoteCancel 7, .check 0] := by
  refine (keepsOthers_iff_and_processesLive _ _).2 ⟨nofun, trivial, trivial, trivial, ?_, trivial,
    trivial⟩
  intro k hk _
  rw [List.mem_singleton.mp hk]
  exact .inl rfl

/-- The end of a sending job removes a receiving job with the same id; the end of a job
that has been superseded removes its successor; the loss of a peer removes a job for
another peer; and a job that is cancelled before its thread starts processes a block. -/
theorem not_keepsOthers_and_not_processesLive :
    (¬ Throughout (step fun n ↦ ⟨7, n = 1, "10.0.0.2"⟩) (KeepsOthers fun n ↦ ⟨7, n = 1, "10.0.0.2"⟩)
      {} [.request 0, .request 1, .start 0, .check 0, .process 0 false true, .finished 0]) ∧
    (¬ Throughout (step fun _ ↦ ⟨7, true, "10.0.0.2"⟩) (KeepsOthers fun _ ↦ ⟨7, true, "10.0.0.2"⟩)
      {} [.request 0, .start 0, .request 1, .check 0, .finished 0]) ∧
    (¬ Throughout (step fun n ↦ ⟨n, false, if n = 0 then "10.0.0.2" else "10.0.0.3"⟩)
      (KeepsOthers fun n ↦ ⟨n, false, if n = 0 then "10.0.0.2" else "10.0.0.3"⟩)
      {} [.request 0, .request 1, .offline "10.0.0.2"]) ∧
    ¬ Throughout (step fun _ ↦ ⟨7, true, "10.0.0.2"⟩) ProcessesLive {}
      [.request 0, .remoteCancel 7, .start 0, .check 0, .process 0 false false] := by
  refine ⟨fun h ↦ ?_, fun h ↦ ?_, fun h ↦ ?_, fun h ↦ ?_⟩
  · rcases h.2.2.2.2.2.1 true 7 1 (by decide) (by decide) with hended | hself
    · revert hended
      decide
    · cases hself
  · rcases h.2.2.2.2.1 true 7 1 (by decide) (by decide) with hended | hself
    · revert hended
      decide
    · cases hself
  · rcases h.2.2.1 false 1 1 (by decide) (by decide) with hended | hself
    · revert hended
      decide
    · revert hself
      simp only [EndOf]
      decide
  · exact absurd (h.2.2.2.2.1 (by decide)) (by decide)

end JobManager

end DdeCooperation.Daemon
