import DdeCooperation.Daemon.JobReports

/-!
# Whether the two ends of a transfer agree on the free space

The sender announces the total size in a `FILE_COUNTED` block. On the receiving side two threads
judge it: `handleFSData` queues the block and forms the reply, and the job compares the size again
when it takes the block from its queue. The two comparisons differ, and the reply may be formed
before the job knows the free size.
-/

namespace DdeCooperation.Daemon

/-- What a job at one of the ends knows of the free space. -/
structure SpaceJob where
  /-- `_device_free_size`. -/
  deviceFreeSize : ℤ := -1
  /-- The sizes in the blocks of `_block_queue`. -/
  blockQueue : List ℤ := []
  /-- `_device_not_enough`. -/
  deviceNotEnough : Bool := false
  /-- The results that were reported, and whether `::not enough` stood behind the path. -/
  reports : List (JobResult × Bool) := []

namespace SpaceJob

def handleJobStatus (status : JobResult) (job : SpaceJob) : SpaceJob :=
  { job with reports := job.reports ++ [(status, job.deviceNotEnough)] }

def writeAndCreateFile (dataSize : ℤ) (job : SpaceJob) : Bool × SpaceJob :=
  if job.deviceFreeSize ≤ dataSize then (false, { job with deviceNotEnough := true })
  else (true, job)

/-- The reply carries `OK` or `IO_ERROR`. -/
def sendToRemote (ok : Bool) (job : SpaceJob) : Bool × SpaceJob :=
  if ok then (true, job) else (false, { job with deviceNotEnough := true })

/-- What the loop of `handleBlockQueque` does after a block was written or sent. -/
def judge (handled : Bool × SpaceJob) : SpaceJob :=
  if handled.1 then handled.2 else handled.2.handleJobStatus .JOB_TRANS_FAILED

end SpaceJob

structure SpaceCheck where
  sender : SpaceJob := {}
  receiver : SpaceJob := {}
  /-- What `handleFSData` returns. -/
  reply : Option Bool := none

namespace SpaceCheck

inductive Access where
  /-- `start` asks the device for its free size. -/
  | start
  | pushQueque
  /-- `handleFSData` returns, and the sender hears it. -/
  | answer
  /-- The receiving job takes the block. -/
  | popQueue
deriving DecidableEq

def Access.ofJob : Access → Bool
  | .start | .popQueue => true
  | .pushQueque | .answer => false

variable (bytesFree dataSize : ℤ)

def step (s : SpaceCheck) : Access → SpaceCheck
  | .start => { s with receiver.deviceFreeSize := bytesFree }
  | .pushQueque => { s with receiver.blockQueue := s.receiver.blockQueue ++ [dataSize] }
  | .answer =>
    let ok := !decide (s.receiver.deviceFreeSize < dataSize)
    { s with reply := some ok, sender := .judge (s.sender.sendToRemote ok) }
  | .popQueue =>
    match s.receiver.blockQueue with
    | [] => s
    | size :: rest =>
      { s with receiver := .judge ({ s.receiver with blockQueue := rest }.writeAndCreateFile size) }

/-- Each thread goes its way, and the job finds the block only after it was queued. -/
structure Interleaved (accesses : List Access) : Prop where
  handleFSData : accesses.filter (!·.ofJob) = [.pushQueque, .answer]
  job : accesses.filter Access.ofJob = [.start, .popQueue]
  queued : [.pushQueque, .popQueue].Sublist accesses

/-- The reply refuses the block exactly if the receiving job finds the space short, and both
jobs end in the same way. -/
@[mk_iff agrees_def]
structure Agrees (s : SpaceCheck) : Prop where
  reply : s.reply = some false ↔ s.receiver.deviceNotEnough = true
  status : s.sender.reports = s.receiver.reports

/-- The end of a run in which the reply was formed with the given free size. -/
def outcome (seen : ℤ) : SpaceCheck where
  sender := .judge (SpaceJob.sendToRemote (!decide (seen < dataSize)) {})
  receiver := .judge (SpaceJob.writeAndCreateFile dataSize { deviceFreeSize := bytesFree })
  reply := some (!decide (seen < dataSize))

variable {bytesFree dataSize} {accesses : List Access} {seen : ℤ}

theorem Interleaved.mem (h : Interleaved accesses) :
    accesses ∈ [[.start, .pushQueque, .answer, .popQueue],
      [.start, .pushQueque, .popQueue, .answer], [.pushQueque, .start, .answer, .popQueue],
      [.pushQueque, .start, .popQueue, .answer],
      [Access.pushQueque, .answer, .start, .popQueue]] := by
  obtain ⟨hrpc, hjob, hqueued⟩ := h
  have hlength : accesses.length = 4 := by
    rw [List.length_eq_length_filter_add Access.ofJob, hjob, hrpc]
    rfl
  obtain ⟨a, b, c, d, rfl⟩ := List.length_eq_four.mp hlength
  revert hrpc hjob hqueued
  cases a <;> cases b <;> cases c <;> cases d <;> decide

theorem deviceFreeSize_judge (job : SpaceJob) :
    (SpaceJob.judge (job.writeAndCreateFile dataSize)).deviceFreeSize = job.deviceFreeSize := by
  unfold SpaceJob.writeAndCreateFile
  split <;> rfl

/-- The reply is formed with the free size if the job has started before. -/
theorem Interleaved.run (h : Interleaved accesses) :
    accesses.foldl (step bytesFree dataSize) {} = outcome bytesFree dataSize
      (if [.start, .answer].Sublist accesses then bytesFree else -1) := by
  have hmem := h.mem
  simp only [List.mem_cons, List.not_mem_nil, or_false] at hmem
  rcases hmem with rfl | rfl | rfl | rfl | rfl
  · rfl
  · simp [step, outcome, deviceFreeSize_judge]
  · rfl
  · simp [step, outcome, deviceFreeSize_judge]
  · rfl

theorem agrees_outcome :
    (outcome bytesFree dataSize seen).Agrees ↔ (seen < dataSize ↔ bytesFree ≤ dataSize) := by
  unfold outcome SpaceJob.sendToRemote SpaceJob.writeAndCreateFile
  by_cases hseen : seen < dataSize <;> by_cases hfree : bytesFree ≤ dataSize <;>
    simp [hseen, hfree, agrees_def, SpaceJob.judge, SpaceJob.handleJobStatus]

/-- Both ends agree if and only if the reply is formed with the free size and the total differs
from it, or without it and the total is negative exactly if it fits. -/
theorem agrees_iff (h : Interleaved accesses) :
    (accesses.foldl (step bytesFree dataSize) {}).Agrees ↔
      if [.start, .answer].Sublist accesses then dataSize ≠ bytesFree
      else (0 ≤ dataSize ↔ bytesFree ≤ dataSize) := by
  rw [h.run, agrees_outcome]
  split_ifs <;> omega

/-- A total that does not fit. -/
theorem agrees_iff_large :
    ([.start, .pushQueque, .answer, .popQueue].foldl (step 10 20) {}).Agrees :=
  (agrees_iff ⟨rfl, rfl, by decide⟩).mpr (by decide)

/-- The total is the free size, or it would fit but the job has not started yet. -/
theorem not_agrees_exact_or_early :
    ¬ ([.start, .pushQueque, .answer, .popQueue].foldl (step 10 10) {}).Agrees ∧
      ¬ ([.pushQueque, .answer, .start, .popQueue].foldl (step 10 5) {}).Agrees :=
  ⟨fun h ↦ absurd h.reply (by decide), fun h ↦ absurd h.reply (by decide)⟩

end SpaceCheck

end DdeCooperation.Daemon
