import DdeCooperation.Daemon.JobReports

/-!
# The ends of all jobs

The registry of jobs and the jobs with their reports. An event of the registry is turned
into calls of jobs: those under an id, the one that is superseded, or the first one when a
peer is lost. The tables change as in `JobManager`, of whose jobs only the status and the
place count here.

A job reports its end once if the calls that reach it are orderly. When a peer is lost, all
jobs of this peer fail if and only if each has failed before or is the first.
-/

namespace DdeCooperation.Daemon

open Foundations ReportingJob

/-- The place of a thread, as the registry sees it. -/
def Place.loop : Place → Loop
  | .unmade => .unmade
  | .waiting => .waiting
  | .starting | .head | .looked => .head
  | .body | .closing _ | .reporting | .ending => .body
  | .returned => .over
  | .removed => .removed

def ReportingJob.toTransferJob (job : ReportingJob) : TransferJob where
  status := job.status
  offlined := job.offlined
  loop := job.place.loop

structure JobBoard where
  sends : AList (fun _ : ℤ ↦ ℕ) := ∅
  recvs : AList (fun _ : ℤ ↦ ℕ) := ∅
  jobs : ℕ → ReportingJob := fun _ ↦ {}

namespace JobBoard

def toManager (board : JobBoard) : JobManager where
  sends := board.sends
  recvs := board.recvs
  jobs n := (board.jobs n).toTransferJob

inductive Event where
  /-- The thread of a job goes on. -/
  | advance (n : ℕ) (block : Option Outcome)
  /-- What the registry does; the threads of its jobs are left out. -/
  | manage (event : JobManager.Event)

section Machine

variable (requests : ℕ → FileTransJob)

/-- The calls of jobs that an event makes. -/
def calls (board : JobBoard) : Event → List (ℕ × ReportingJob.Call)
  | .advance n block => [(n, .advance block)]
  | .manage (.request n) =>
    match (board.jobs n).place with
    | .unmade =>
      let old := (board.toManager.table (requests n).write).lookup (requests n).jobId
      (old.toList.filter fun k ↦ ¬ (board.jobs k).ended).map (·, .stop) ++ [(n, .initJob)]
    | _ => []
  | .manage (.scanError n) => [(n, .cancel false)]
  | .manage (.finished n) => [(n, .remove)]
  | .manage (.cancel id) => (board.toManager.under id).map (·, .cancel true)
  | .manage (.remoteCancel id) => (board.toManager.under id).map (·, .cancelUnlessEnded)
  | .manage (.reportFinish id) => (board.recvs.lookup id).toList.map (·, .waitFinish)
  | .manage (.offline ip) => board.toManager.firstJob.toList.map (·, .offlineCancel ip)
  | .manage (.reportError _) => []
  | .manage (.start _) | .manage (.check _) | .manage (.idle _) | .manage (.process _ _ _) => []

def call (jobs : ℕ → ReportingJob) (entry : ℕ × ReportingJob.Call) : ℕ → ReportingJob :=
  Function.update jobs entry.1 ((jobs entry.1).step (requests entry.1) entry.2)

def step (board : JobBoard) (event : Event) : JobBoard :=
  let jobs := (board.calls requests event).foldl (call requests) board.jobs
  match event with
  | .advance _ _ => { board with jobs }
  | .manage event =>
    let manager := board.toManager.step requests event
    { sends := manager.sends, recvs := manager.recvs, jobs }

def run (board : JobBoard) (events : List Event) : JobBoard :=
  events.foldl (step requests) board

/-- Every call of a job that has not been superseded is orderly. -/
def Orderly (board : JobBoard) (event : Event) : Prop :=
  Throughout (call requests)
    (fun jobs entry ↦ (jobs entry.1).notNotify = false →
      (jobs entry.1).Orderly (requests entry.1) entry.2)
    board.jobs (board.calls requests event)

/-- When a peer is lost, every registered job with this target that has not ended fails,
and no job with another target reports anything. -/
def FailsTarget (board : JobBoard) : Event → Prop
  | .manage (.offline ip) =>
    (∀ write id k, (board.toManager.table write).lookup id = some k →
      (board.jobs k).ended = false → (requests k).ip = ip →
        .JOB_TRANS_FAILED ∈ ((board.step requests (.manage (.offline ip))).jobs k).reports) ∧
    ∀ k, (requests k).ip ≠ ip →
      ((board.step requests (.manage (.offline ip))).jobs k).reports = (board.jobs k).reports
  | _ => True

/-- Every registered job of the lost peer that has not ended has failed before, or is the
first of all jobs and takes notice. -/
def FirstOnly (board : JobBoard) : Event → Prop
  | .manage (.offline ip) =>
    ∀ write id k, (board.toManager.table write).lookup id = some k →
      (board.jobs k).ended = false → (requests k).ip = ip →
        .JOB_TRANS_FAILED ∈ (board.jobs k).reports ∨
          board.toManager.firstJob = some k ∧ (board.jobs k).losesPeer ip (requests k).ip = true
  | _ => True

instance (board : JobBoard) (event : Event) : Decidable (board.Orderly requests event) :=
  inferInstanceAs (Decidable (Throughout _ _ _ _))

end Machine

variable {requests : ℕ → FileTransJob} {board : JobBoard}

theorem jobs_step (event : Event) :
    (board.step requests event).jobs =
      (board.calls requests event).foldl (call requests) board.jobs := by
  cases event <;> rfl

/-! ## Reports of the jobs -/

def AllKept (jobs : ℕ → ReportingJob) : Prop := ∀ n, (jobs n).Kept

def Kept (board : JobBoard) : Prop := AllKept board.jobs

theorem AllKept.call {jobs : ℕ → ReportingJob} {entry : ℕ × ReportingJob.Call} (h : AllKept jobs)
    (horderly : (jobs entry.1).notNotify = false →
      (jobs entry.1).Orderly (requests entry.1) entry.2) : AllKept (call requests jobs entry) := by
  intro n
  unfold JobBoard.call
  by_cases heq : n = entry.1
  · rw [heq, Function.update_self]
    exact (h entry.1).step horderly
  · rw [Function.update_of_ne heq]
    exact h n

theorem Kept.step (h : board.Kept) {event : Event} (horderly : board.Orderly requests event) :
    (board.step requests event).Kept := by
  rw [Kept, jobs_step]
  exact Throughout.invariant_foldl (fun _ _ hjobs hentry ↦ hjobs.call hentry) h horderly

theorem kept_run (events : List Event)
    (h : Throughout (step requests) (Orderly requests) {} events) :
    (run requests {} events).Kept := by
  have hinitial : Kept {} := fun _ ↦ Accounted.kept rfl
  exact Throughout.invariant_foldl (fun _ _ hboard hevent ↦ hboard.step hevent) hinitial h

/-! ## Loss of a peer -/

/-- What the loss of a peer does to a job. -/
theorem reports_offline (ip : String) (k : ℕ) :
    ((board.step requests (.manage (.offline ip))).jobs k).reports =
      if board.toManager.firstJob = some k ∧ (board.jobs k).losesPeer ip (requests k).ip = true then
        (board.jobs k).reports ++ [.JOB_TRANS_FAILED]
      else (board.jobs k).reports := by
  rw [jobs_step]
  cases hfirst : board.toManager.firstJob with
  | none =>
    simp only [calls, hfirst, Option.toList_none, List.map_nil, List.foldl_nil]
    rw [if_neg (fun h ↦ nomatch h.1)]
  | some n =>
    simp only [calls, hfirst, Option.toList_some, List.map_cons, List.map_nil, List.foldl_cons,
      List.foldl_nil, call]
    by_cases heq : k = n
    · rw [heq, Function.update_self]
      simp only [ReportingJob.step, offlineCancel, true_and]
      split <;> rfl
    · rw [Function.update_of_ne heq, if_neg]
      exact fun h ↦ heq (Option.some.inj h.1).symm

theorem failsTarget_iff (event : Event) :
    board.FailsTarget requests event ↔ board.FirstOnly requests event := by
  cases event with
  | advance n block => exact Iff.rfl
  | manage event =>
    cases event with
    | offline ip =>
      simp only [FailsTarget, FirstOnly, reports_offline]
      constructor
      · rintro ⟨hfails, -⟩ write id k hlookup hended htarget
        have hfail := hfails write id k hlookup hended htarget
        split at hfail
        · next hfirst => exact .inr hfirst
        · exact .inl hfail
      · intro hfirst
        refine ⟨fun write id k hlookup hended htarget ↦ ?_, fun k htarget ↦ if_neg fun h ↦ ?_⟩
        · split
          · exact List.mem_append_right _ (List.mem_singleton_self _)
          · next hother => exact (hfirst write id k hlookup hended htarget).resolve_right hother
        · -- a job takes notice only of the loss of its own peer
          simp only [losesPeer, not_or, decide_eq_true_eq, not_not] at h
          exact htarget h.2.2.2.symm
    | request | start | check | idle | process | scanError | finished | cancel | remoteCancel
    | reportError | reportFinish => exact Iff.rfl

/-- In a run with orderly calls every job reports its end properly; and the loss of a peer
ends its jobs if and only if they are the first or have failed before. -/
theorem endsProperly_and_failsTarget_iff (requests : ℕ → FileTransJob) (events : List Event) :
    (Throughout (step requests) (Orderly requests) {} events →
      ∀ n, ((run requests {} events).jobs n).EndsProperly) ∧
    (Throughout (step requests) (FailsTarget requests) {} events ↔
      Throughout (step requests) (FirstOnly requests) {} events) := by
  constructor
  · intro h n
    exact (kept_run events h n).endsProperly
  · exact Throughout.congr fun _ event ↦ failsTarget_iff event

/-- A receiving job and a sending job, both with the peer `10.0.0.2`. -/
def sampleRequests (n : ℕ) : FileTransJob where
  jobId := n
  write := n = 0
  ip := "10.0.0.2"

/-- A job is made and its thread comes to a block. -/
def untilBlock (n : ℕ) : List Event :=
  .manage (.request n) :: List.replicate 4 (.advance n none)

/-- The thread goes on until it returns. -/
def untilReturn (n : ℕ) : List Event := List.replicate 4 (.advance n none)

/-- A job that is not disturbed processes its last block and reports that it has finished;
one that a remote host cancels reports this. -/
theorem endsProperly_sampleRun :
    ((run sampleRequests {} (untilBlock 0 ++ [.advance 0 (some (.done true))] ++
      untilReturn 0)).jobs 0).ends = [.JOB_TRANS_FINISHED] ∧
    ∀ n, ((run sampleRequests {} (untilBlock 0 ++ [.advance 0 (some (.done true))] ++
      untilReturn 0 ++ untilBlock 1 ++ [.manage (.remoteCancel 1)] ++
      untilReturn 1)).jobs n).EndsProperly :=
  ⟨by decide +kernel, (endsProperly_and_failsTarget_iff _ _).1 (by decide +kernel)⟩

/-- A sending job whose peer cannot be invoked reports two failures; one that a local
application cancels reports nothing; one that is cancelled while it starts reports that it
has finished, without a block; and of two jobs of a lost peer one is not told. -/
theorem not_endsProperly_not_failsTarget :
    ¬ ((run sampleRequests {} (untilBlock 1 ++ [.advance 1 (some .unreachable)] ++
      untilReturn 1)).jobs 1).EndsProperly ∧
    ¬ ((run sampleRequests {} (untilBlock 1 ++ [.manage (.cancel 1)] ++
      untilReturn 1 ++ untilReturn 1)).jobs 1).EndsProperly ∧
    ¬ ((run sampleRequests {} ([.manage (.request 1), .advance 1 none,
      .manage (.remoteCancel 1)] ++ untilReturn 1)).jobs 1).EndsProperly ∧
    ¬ (run sampleRequests {} (untilBlock 0 ++ untilBlock 1)).FailsTarget sampleRequests
      (.manage (.offline "10.0.0.2")) := by
  refine ⟨by decide +kernel, by decide +kernel, by decide +kernel, fun h ↦ ?_⟩
  have hfails := h.1 true 0 0 (by decide +kernel) (by decide +kernel) rfl
  revert hfails
  decide +kernel

end JobBoard

end DdeCooperation.Daemon
