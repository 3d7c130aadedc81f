import Mathlib.Algebra.Ring.Nat
import DdeCooperation.Foundations.Runs

/-!
# The bytes that are reported

The callback of a download writes a chunk to the file and then adds its size to a counter. Once
a second the timer reads the counter, sets it to zero and reports what it has read. These are
single steps of two threads. The last chunk of a file is written without being added, and what
is added after the timer has read the counter is gone when the timer sets it to zero.
-/

namespace DdeCooperation.Web

open Foundations

/-- Where `doCalculateSpeed` is, with the value that it has read. -/
inductive SpeedTimer where
  | idle
  | loaded (bytesize : ℕ)
  | stored (bytesize : ℕ)

/-- The counter of a `TransferWorker`, with what was written and reported. -/
structure TransferWorker where
  /-- The bytes in local files. -/
  written : ℕ := 0
  /-- A chunk that is written and not yet added. -/
  chunk : ℕ := 0
  secsize : ℕ := 0
  timer : SpeedTimer := .idle
  /-- The sizes that were reported with `TRANS_FILE_SPEED`. -/
  speeds : List ℕ := []

namespace TransferWorker

inductive Event where
  /-- `RES_BODY` writes a chunk. -/
  | body (size : ℕ)
  /-- `onProgress` adds its size. -/
  | onProgress
  /-- `RES_FINISH` writes the last chunk. -/
  | finish (size : ℕ)
  /-- `doCalculateSpeed` takes its next step. -/
  | speed

def doCalculateSpeed (s : TransferWorker) : TransferWorker :=
  match s.timer with
  | .idle => { s with timer := .loaded s.secsize }
  | .loaded bytesize => { s with secsize := 0, timer := .stored bytesize }
  | .stored bytesize => { s with speeds := s.speeds ++ [bytesize], timer := .idle }

/-- The callback does not write again before it has added what it wrote. -/
def step (s : TransferWorker) : Event → TransferWorker
  | .body size => if s.chunk = 0 then { s with written := s.written + size, chunk := size } else s
  | .onProgress => { s with secsize := s.secsize + s.chunk, chunk := 0 }
  | .finish size => if s.chunk = 0 then { s with written := s.written + size } else s
  | .speed => s.doCalculateSpeed

/-- What is reported and what is in the counter are the bytes that were written. -/
def Accounted (s : TransferWorker) : Prop := s.speeds.sum + s.secsize = s.written

/-- The value that the timer has taken out of the counter and not yet reported. -/
def taken (s : TransferWorker) : ℕ :=
  match s.timer with
  | .stored bytesize => bytesize
  | _ => 0

/-- No chunk waits to be added, and no value to be reported. -/
def AtRest (s : TransferWorker) : Prop := s.chunk = 0 ∧ s.taken = 0

/-- The bytes that a step loses: a last chunk, or what came into the counter since it was
read. -/
def lost (s : TransferWorker) : Event → ℕ
  | .finish size => if s.chunk = 0 then size else 0
  | .speed => match s.timer with
    | .loaded bytesize => s.secsize - bytesize
    | _ => 0
  | _ => 0

/-- The counter has at least the value that the timer has read. -/
def Sound (s : TransferWorker) : Prop :=
  ∀ bytesize, s.timer = .loaded bytesize → bytesize ≤ s.secsize

variable {s : TransferWorker}

theorem Sound.step (h : s.Sound) (event : Event) : (s.step event).Sound := by
  cases event with
  | body size | finish size =>
    unfold TransferWorker.step
    split_ifs
    · exact h
    · exact h
  | onProgress => exact fun bytesize htimer ↦ Nat.le_add_right_of_le (h bytesize htimer)
  | speed =>
    cases htimer : s.timer with
    | idle | loaded bytesize | stored bytesize =>
      simp [Sound, TransferWorker.step, doCalculateSpeed, htimer]

/-- The bytes that are written and lost nowhere. -/
def held (s : TransferWorker) : ℕ := s.speeds.sum + s.secsize + s.chunk + s.taken

theorem Sound.held_step (h : s.Sound) (event : Event) :
    (s.step event).written + s.held = s.written + (s.step event).held + s.lost event := by
  cases event with
  | body size | finish size =>
    unfold TransferWorker.step
    split_ifs with hchunk
    · simp only [held, taken, lost, hchunk, if_true]
      omega
    · simp [lost, hchunk]
  | onProgress =>
    simp only [TransferWorker.step, held, taken, lost]
    omega
  | speed =>
    unfold TransferWorker.step doCalculateSpeed
    cases htimer : s.timer with
    | idle => simp [held, taken, lost, htimer]
    | loaded bytesize =>
      have hle := h bytesize htimer
      simp only [held, taken, lost, htimer]
      omega
    | stored bytesize =>
      simp only [held, taken, lost, htimer, List.sum_append, List.sum_singleton]
      omega

/-- What is missing after a run is what its steps have lost. -/
theorem Sound.written_foldl (h : s.Sound) (events : List Event) {missing : ℕ}
    (hheld : s.written = s.held + missing) :
    ∃ more, (events.foldl TransferWorker.step s).written =
        (events.foldl TransferWorker.step s).held + missing + more ∧
      (more = 0 ↔ Throughout TransferWorker.step (fun s event ↦ s.lost event = 0) s events) := by
  induction events generalizing s missing with
  | nil => exact ⟨0, hheld, by simp [Throughout]⟩
  | cons event events ih =>
    have hnext : (s.step event).written = (s.step event).held + (missing + s.lost event) := by
      have hstep := h.held_step event
      omega
    obtain ⟨more, hwritten, hmore⟩ := ih (h.step event) hnext
    refine ⟨s.lost event + more, by rw [List.foldl_cons]; omega, ?_⟩
    rw [Throughout, ← hmore, Nat.add_eq_zero_iff]

/-- The account is exact if and only if no step has lost anything, and no bytes are on their way
to the counter or from it. -/
theorem accounted_iff (events : List Event) : Accounted (events.foldl step {}) ↔
    AtRest (events.foldl step {}) ∧ Throughout step (fun s event ↦ s.lost event = 0) {} events := by
  have hsound : Sound {} := fun _ htimer ↦ by cases htimer
  obtain ⟨more, hwritten, hmore⟩ := hsound.written_foldl events (Nat.add_zero _).symm
  rw [← hmore, Accounted, AtRest]
  unfold held at hwritten
  omega

/-- The last chunk of a file is not counted. -/
theorem not_accounted_finish :
    ¬ Accounted ([.body 4, .onProgress, .finish 2, .speed, .speed, .speed].foldl step {}) := by
  unfold Accounted
  decide

end TransferWorker

end DdeCooperation.Web
