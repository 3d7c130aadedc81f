import DdeCooperation.Daemon.JobManager

/-!
# How a transfer job reports its end

The thread of a job stores the status `STARTED`, forgets a cancellation, and goes around
the loop of `handleBlockQueque`; when the loop is left, it decides whether the end is still
to be reported. Its accesses to what it shares with other threads are steps of their own
here, and calls of other threads come between any two of them.

An end is reported from four places: a block cannot be written or sent, the peer is found
or declared lost, a remote host or the scan of the files cancels, or the loop is left and
nothing else was marked. Each looks at flags of its own. `Accounted` says what the flags and
the place of the thread tell about the reports so far; calls that are `Orderly` keep it. Of
a job that is superseded only `Truthful` is kept, for which nothing is asked of the calls.
-/

namespace DdeCooperation.Daemon

inductive JobResult where
  | JOB_TRANS_FAILED
  | JOB_TRANS_DOING
  | JOB_TRANS_FINISHED
  | JOB_TRANS_CANCELED
deriving DecidableEq

def JobResult.terminal : JobResult → Bool
  | .JOB_TRANS_DOING => false
  | _ => true

/-- Where the thread of a job is. -/
inductive Place where
  | unmade
  /-- Before `start`. -/
  | waiting
  /-- The status is stored, the cancellation not yet forgotten. -/
  | starting
  /-- Before the status is compared with `STOPED`. -/
  | head
  /-- Before the status is compared with `CANCELING`. -/
  | looked
  /-- Before a block is taken. -/
  | body
  /-- The loop has been left. -/
  | closing (exception : Bool)
  /-- The job is going to report that it has finished. -/
  | reporting
  /-- Before the status is stored for the last time. -/
  | ending
  | returned
  /-- The manager has been told. -/
  | removed
deriving DecidableEq

/-- What becomes of a block. -/
inductive Outcome where
  /-- The block is written or sent; it may be the one with `FILE_TRANS_OVER`. -/
  | done (last : Bool)
  /-- It cannot be written, or the peer answers that it cannot. -/
  | failed
  /-- The peer cannot be invoked. -/
  | unreachable
deriving DecidableEq

structure ReportingJob where
  status : JobState := .NONE
  notNotify : Bool := false
  markCanceled : Bool := false
  offlined : Bool := false
  place : Place := .unmade
  /-- The signals `notifyJobResult` so far. -/
  reports : List JobResult := []
  /-- The block with `FILE_TRANS_OVER` has been processed. -/
  lastHandled : Bool := false
deriving DecidableEq

namespace ReportingJob

def ended (job : ReportingJob) : Bool := job.status = .STOPED

def initJob : ReportingJob := { status := .INIT, place := .waiting }

def handleJobStatus (result : JobResult) (job : ReportingJob) : ReportingJob :=
  { job with reports := job.reports ++ [result] }

/-- `stop(false)`, by which a job is superseded. -/
def stop (job : ReportingJob) : ReportingJob := { job with notNotify := true, status := .STOPED }

def waitFinish (job : ReportingJob) : ReportingJob := { job with status := .WAIT_DONE }

def cancel (notify : Bool) (job : ReportingJob) : ReportingJob :=
  if notify then
    { job with
      markCanceled := true, status := if job.status = .STARTED then .CANCELING else job.status }
  else
    { job.handleJobStatus .JOB_TRANS_CANCELED with markCanceled := true, status := .STOPED }

def cancelUnlessEnded (job : ReportingJob) : ReportingJob :=
  if job.ended then job else job.cancel false

/-- Whether `offlineCancel` takes effect. -/
def losesPeer (ip tarIp : String) (job : ReportingJob) : Bool :=
  ¬ (job.offlined ∨ ip = "" ∨ ip ≠ tarIp)

def offlineCancel (ip tarIp : String) (job : ReportingJob) : ReportingJob :=
  if job.losesPeer ip tarIp then { job.handleJobStatus .JOB_TRANS_FAILED with offlined := true }
  else job

section Thread

variable (fsjob : FileTransJob)

/-- `writeAndCreateFile` or `sendToRemote`, and whether it is an exception. -/
def transfer (outcome : Outcome) (job : ReportingJob) : ReportingJob × Bool :=
  match outcome with
  | .done _ => (job, false)
  | .failed => (job, true)
  | .unreachable =>
    if fsjob.write then (job, true)
    -- a job whose peer has been declared lost goes on as if the block had been sent
    else if job.offlined then (job, false)
    else (job.offlineCancel fsjob.ip fsjob.ip, true)

/-- The loop after the transfer of a block. -/
def judge (outcome : Outcome) (exception : Bool) (job : ReportingJob) : ReportingJob :=
  if exception ∨ job.offlined then
    { job.handleJobStatus .JOB_TRANS_FAILED with place := .closing exception }
  else if outcome = .done true then { job with lastHandled := true, place := .closing false }
  else { job with place := .head }

def handleBlock (outcome : Outcome) (job : ReportingJob) : ReportingJob :=
  let (next, exception) := job.transfer fsjob outcome
  next.judge outcome exception

/-- The thread goes on to the next place. In the body of the loop there is a block, or none,
or one that is skipped. -/
def advance (block : Option Outcome) (job : ReportingJob) : ReportingJob :=
  match job.place with
  | .waiting => { job with status := .STARTED, place := .starting }
  | .starting =>
    let job := { job with markCanceled := false, place := .head }
    if fsjob.write then job.handleJobStatus .JOB_TRANS_DOING else job
  | .head => { job with place := if job.status = .STOPED then .closing false else .looked }
  | .looked => { job with place := if job.status = .CANCELING then .closing true else .body }
  | .body =>
    match block with
    | none => { job with place := .head }
    | some outcome => job.handleBlock fsjob outcome
  | .closing exception =>
    { job with place :=
        if ¬ job.notNotify ∧ ¬ exception ∧ ¬ job.markCanceled ∧ ¬ job.offlined then .reporting
        else .ending }
  | .reporting => { job.handleJobStatus .JOB_TRANS_FINISHED with place := .ending }
  | .ending => { job with status := .STOPED, place := .returned }
  | .unmade | .returned | .removed => job

end Thread

/-- What happens to a job: its thread goes on, or another thread calls. -/
inductive Call where
  | initJob
  | advance (block : Option Outcome)
  | stop
  | waitFinish
  | cancel (notify : Bool)
  | cancelUnlessEnded
  | offlineCancel (ip : String)
  /-- The manager hears that the job is over. -/
  | remove
deriving DecidableEq

def step (fsjob : FileTransJob) (job : ReportingJob) : Call → ReportingJob
  | .initJob => initJob
  | .advance block => job.advance fsjob block
  | .stop => job.stop
  | .waitFinish => job.waitFinish
  | .cancel notify => job.cancel notify
  | .cancelUnlessEnded => job.cancelUnlessEnded
  | .offlineCancel ip => job.offlineCancel ip fsjob.ip
  | .remove => { job with place := if job.place = .returned then .removed else job.place }

/-- The ends among the reports. -/
def ends (job : ReportingJob) : List JobResult := job.reports.filter JobResult.terminal

/-- `handleBlockQueque` has returned. -/
def Returned (job : ReportingJob) : Prop := job.place = .returned ∨ job.place = .removed

/-- One end is reported, and it is not a finish without the last block. -/
def EndsOnce (job : ReportingJob) : Prop :=
  job.ends.length = 1 ∧ (.JOB_TRANS_FINISHED ∈ job.ends → job.lastHandled = true)

/-- A job that is not superseded has reported one end when it returns, and no job reports
that it has finished before the last block. -/
def EndsProperly (job : ReportingJob) : Prop :=
  (job.Returned → job.notNotify = false → job.ends.length = 1) ∧
    (.JOB_TRANS_FINISHED ∈ job.reports → job.lastHandled = true)

/-- The thread is in the loop, or has left it without an exception and not yet decided. -/
def InLoop (job : ReportingJob) : Prop :=
  job.place = .head ∨ job.place = .looked ∨ job.place = .body ∨ job.place = .closing false

/-- Nothing that ends the job has been marked. -/
def Unmarked (job : ReportingJob) : Prop := job.markCanceled = false ∧ job.offlined = false

/-- Conditions under which a call leads to one report:
* no block is transferred after the peer is lost, none fails after a cancellation, and the
  peer of a job that sends can be invoked;
* a local application cancels a job that has been started only after it was cancelled
  otherwise or has lost its peer;
* a remote host or the scan cancels only a job in its loop, and once;
* the peer is lost only before the end is decided and before a cancellation. -/
def Orderly (fsjob : FileTransJob) (job : ReportingJob) : Call → Prop
  | .advance (some (.done _)) => job.place = .body → job.offlined = false
  | .advance (some .failed) => job.place = .body → job.Unmarked
  | .advance (some .unreachable) => job.place = .body → fsjob.write = true ∧ job.Unmarked
  | .cancel true =>
    (job.place = .starting → job.offlined = true) ∧ (job.InLoop → ¬ job.Unmarked)
  | .cancel false => job.InLoop ∧ job.Unmarked
  | .cancelUnlessEnded => job.ended = false → job.InLoop ∧ job.Unmarked
  | .offlineCancel ip => job.losesPeer ip fsjob.ip = true →
      (job.place = .waiting ∨ job.place = .starting ∨ job.InLoop) ∧ job.markCanceled = false
  | .initJob | .advance none | .stop | .waitFinish | .remove => True

instance (job : ReportingJob) : Decidable job.Returned :=
  inferInstanceAs (Decidable (_ ∨ _))

instance (job : ReportingJob) : Decidable job.EndsOnce :=
  inferInstanceAs (Decidable (_ ∧ _))

instance (job : ReportingJob) : Decidable job.EndsProperly :=
  inferInstanceAs (Decidable ((_ → _ → _) ∧ _))

instance (job : ReportingJob) : Decidable job.InLoop :=
  inferInstanceAs (Decidable (_ ∨ _))

instance (job : ReportingJob) : Decidable job.Unmarked :=
  inferInstanceAs (Decidable (_ ∧ _))

instance (fsjob : FileTransJob) (job : ReportingJob) (call : Call) :
    Decidable (job.Orderly fsjob call) := by
  unfold Orderly
  split <;> infer_instance

/-! ## What flags and place tell about the reports -/

variable {fsjob : FileTransJob} {job : ReportingJob}

theorem ends_handleJobStatus (result : JobResult) :
    (job.handleJobStatus result).ends =
      if result.terminal then job.ends ++ [result] else job.ends := by
  unfold ends handleJobStatus
  rw [List.filter_append]
  cases result <;> simp [JobResult.terminal]

/-- Nothing is reported, and nothing will make the loop end without a report. -/
structure Open (job : ReportingJob) : Prop where
  ends : job.ends = []
  offlined : job.offlined = false
  status : job.status ≠ .STOPED ∧ job.status ≠ .CANCELING

/-- One end that is no finish has been reported, and a flag prevents a second. -/
structure Settled (job : ReportingJob) : Prop where
  ends : job.ends.length = 1
  unfinished : .JOB_TRANS_FINISHED ∉ job.ends
  marked : ¬ job.Unmarked

/-- The reports of a job when its thread is at a place. -/
def AccountedAt (job : ReportingJob) : Place → Prop
  | .unmade => job.ends = []
  | .waiting => job.ends = [] ∧ job.offlined = false ∨ job.Settled ∧ job.offlined = true
  | .starting => job.Open ∨ job.Settled ∧ job.offlined = true
  | .head | .looked | .body => job.Open ∧ job.markCanceled = false ∨ job.Settled
  | .closing true => job.ends.length = 1 ∧ .JOB_TRANS_FINISHED ∉ job.ends
  | .closing false =>
    (job.ends = [] ∧ job.Unmarked) ∧ job.lastHandled = true ∨ job.Settled
  | .reporting => job.ends = [] ∧ job.lastHandled = true
  | .ending | .returned | .removed => job.EndsOnce

def Accounted (job : ReportingJob) : Prop := job.AccountedAt job.place

/-! ## One step -/

variable {next : ReportingJob}

theorem ends_of_reports (h : next.reports = job.reports) : next.ends = job.ends := by
  rw [ends, ends, h]

/-- The first report of an end that is no finish. -/
theorem settled_of_report (result : JobResult) (hends : job.ends = [])
    (hterminal : result.terminal = true) (hresult : result ≠ .JOB_TRANS_FINISHED)
    (hreports : next.reports = (job.handleJobStatus result).reports) (hmarked : ¬ next.Unmarked) :
    next.Settled := by
  have hnext : next.ends = [result] := by
    rw [ends_of_reports hreports, ends_handleJobStatus, if_pos hterminal, hends]
    rfl
  refine ⟨by rw [hnext]; rfl, ?_, hmarked⟩
  rw [hnext, List.mem_singleton]
  exact hresult.symm

theorem Settled.of_eq (h : job.Settled)
    (hreports : next.reports = job.reports) (hmarked : ¬ next.Unmarked) : next.Settled := by
  refine ⟨?_, ?_, hmarked⟩
  · rw [ends_of_reports hreports]
    exact h.ends
  · rw [ends_of_reports hreports]
    exact h.unfinished

theorem Settled.endsOnce (h : job.Settled) (hreports : next.reports = job.reports) : next.EndsOnce := by
  refine ⟨?_, fun hfinished ↦ ?_⟩
  · rw [ends_of_reports hreports]
    exact h.ends
  · rw [ends_of_reports hreports] at hfinished
    exact absurd hfinished h.unfinished

/-- What is known of a job in its loop. -/
def Looping (job : ReportingJob) : Prop := job.Open ∧ job.markCanceled = false ∨ job.Settled

theorem Looping.elsewhere (h : job.Looping) (place : Place) : Looping { job with place } :=
  h.imp (fun h ↦ ⟨⟨h.1.ends, h.1.offlined, h.1.status⟩, h.2⟩) fun h ↦ h.of_eq rfl h.marked

/-- A report that the job is under way is no end. -/
theorem Looping.doing (h : job.Looping) : (job.handleJobStatus .JOB_TRANS_DOING).Looping := by
  have hends := job.ends_handleJobStatus .JOB_TRANS_DOING
  rw [if_neg (by decide)] at hends
  rcases h with ⟨hopen, hmark⟩ | hsettled
  · exact .inl ⟨{ hopen with ends := hends.trans hopen.ends }, hmark⟩
  · exact .inr ⟨hends.symm ▸ hsettled.ends, hends.symm ▸ hsettled.unfinished, hsettled.marked⟩

/-- The transfer of a block leaves the loop with a report, or goes on. -/
theorem Accounted.handleBlock (h : job.Looping) (hplace : job.place = .body) {outcome : Outcome}
    (horderly : job.Orderly fsjob (.advance (some outcome))) :
    (job.handleBlock fsjob outcome).Accounted := by
  -- a failure comes to a job that has reported nothing, and is its end
  have hfails : job.Unmarked →
      Accounted { job.handleJobStatus .JOB_TRANS_FAILED with place := .closing true } := by
    intro hunmarked
    rcases h with ⟨hopen, -⟩ | hsettled
    · have hends : (job.handleJobStatus .JOB_TRANS_FAILED).ends = [.JOB_TRANS_FAILED] := by
        rw [ends_handleJobStatus, hopen.ends]
        rfl
      change (job.handleJobStatus .JOB_TRANS_FAILED).ends.length = 1 ∧
        _ ∉ (job.handleJobStatus .JOB_TRANS_FAILED).ends
      rw [hends]
      decide
    · exact absurd hunmarked hsettled.marked
  cases outcome with
  | failed =>
    simp only [ReportingJob.handleBlock, transfer, judge, true_or, if_true]
    exact hfails (horderly hplace)
  | unreachable =>
    obtain ⟨hwrite, hunmarked⟩ := horderly hplace
    simp only [ReportingJob.handleBlock, transfer, hwrite, judge, true_or, if_true]
    exact hfails hunmarked
  | done last =>
    have honline : job.offlined = false := horderly hplace
    have hgoes : ¬ (false = true ∨ job.offlined = true) := by
      rw [honline]
      decide
    simp only [ReportingJob.handleBlock, transfer]
    rw [judge, if_neg hgoes]
    split
    · exact h.imp (fun h ↦ ⟨⟨h.1.ends, h.2, honline⟩, rfl⟩) fun h ↦ h.of_eq rfl h.marked
    · exact h.elsewhere .head

theorem Accounted.advance (h : job.Accounted) (hnotify : job.notNotify = false)
    {block : Option Outcome} (horderly : job.Orderly fsjob (.advance block)) :
    (job.advance fsjob block).Accounted := by
  rw [Accounted] at h
  unfold ReportingJob.advance
  revert h
  cases hplace : job.place with
  | unmade | returned | removed =>
    intro h
    rwa [Accounted, hplace]
  | waiting =>
    rintro (⟨hends, honline⟩ | ⟨hsettled, hoffline⟩)
    · exact .inl ⟨hends, honline, nofun, nofun⟩
    · exact .inr ⟨hsettled.of_eq rfl hsettled.marked, hoffline⟩
  | starting =>
    intro h
    have hlooping : Looping { job with markCanceled := false, place := .head } := by
      rcases h with hopen | ⟨hsettled, hoffline⟩
      · exact .inl ⟨{ hopen with }, rfl⟩
      · refine .inr (hsettled.of_eq rfl fun hunmarked ↦ ?_)
        exact Bool.false_ne_true (hunmarked.2.symm.trans hoffline)
    dsimp only
    split
    · exact hlooping.doing
    · exact hlooping
  | head =>
    intro h
    dsimp only
    split
    · next hstopped =>
      have hsettled : job.Settled := h.resolve_left fun h ↦ h.1.status.1 hstopped
      exact .inr (hsettled.of_eq rfl hsettled.marked)
    · exact Looping.elsewhere h .looked
  | looked =>
    intro h
    dsimp only
    split
    · next hcanceling =>
      have hsettled : job.Settled := h.resolve_left fun h ↦ h.1.status.2 hcanceling
      exact ⟨hsettled.ends, hsettled.unfinished⟩
    · exact Looping.elsewhere h .body
  | body =>
    intro h
    cases block with
    | none => exact Looping.elsewhere h .head
    | some outcome => exact Accounted.handleBlock h hplace horderly
  | closing exception =>
    intro h
    dsimp only
    rw [hnotify]
    cases exception with
    | true => exact ⟨h.1, fun hfinished ↦ absurd hfinished h.2⟩
    | false =>
      rcases h with ⟨⟨hends, hmark, honline⟩, hlast⟩ | hsettled
      · rw [if_pos (by rw [hmark, honline]; decide)]
        exact ⟨hends, hlast⟩
      · rw [if_neg]
        · exact hsettled.endsOnce rfl
        · rintro ⟨-, -, hmark, honline⟩
          exact hsettled.marked ⟨Bool.eq_false_iff.mpr hmark, Bool.eq_false_iff.mpr honline⟩
  | reporting =>
    intro h
    have hends := job.ends_handleJobStatus .JOB_TRANS_FINISHED
    rw [h.1] at hends
    refine ⟨?_, fun _ ↦ h.2⟩
    change (job.handleJobStatus .JOB_TRANS_FINISHED).ends.length = 1
    rw [hends]
    rfl
  | ending => exact id

theorem Accounted.waitFinish (h : job.Accounted) : job.waitFinish.Accounted := by
  have hopen : job.Open → job.waitFinish.Open := fun hopen ↦
    ⟨hopen.ends, hopen.offlined, nofun, nofun⟩
  have hsettled : job.Settled → job.waitFinish.Settled := fun hsettled ↦
    hsettled.of_eq rfl hsettled.marked
  have hkeeps : ∀ place, job.AccountedAt place → job.waitFinish.AccountedAt place := by
    intro place h
    cases place with
    | unmade | reporting | ending | returned | removed => exact h
    | waiting => exact h.imp_right fun h ↦ ⟨hsettled h.1, h.2⟩
    | starting => exact h.imp hopen fun h ↦ ⟨hsettled h.1, h.2⟩
    | head | looked | body => exact h.imp (fun h ↦ ⟨hopen h.1, h.2⟩) hsettled
    | closing exception =>
      cases exception with
      | true => exact h
      | false => exact h.imp_right hsettled
  exact hkeeps job.place h

/-- A local cancellation reports nothing. -/
theorem Accounted.cancel_true (h : job.Accounted) (horderly : job.Orderly fsjob (.cancel true)) :
    (job.cancel true).Accounted := by
  have hsettled : job.Settled → (job.cancel true).Settled := fun hsettled ↦
    hsettled.of_eq rfl fun hunmarked ↦ Bool.false_ne_true hunmarked.1.symm
  have hclosed : job.InLoop → ∀ p, (p → job.Unmarked) → p ∨ job.Settled → job.Settled :=
    fun hin p hp hor ↦ hor.resolve_left fun hleft ↦ horderly.2 hin (hp hleft)
  change AccountedAt _ job.place
  rw [Accounted] at h
  revert h
  cases hplace : job.place with
  | unmade | reporting | ending | returned | removed => exact id
  | waiting => exact fun h ↦ h.imp_right fun h ↦ ⟨hsettled h.1, h.2⟩
  | starting =>
    rintro (hopen | ⟨h, hoffline⟩)
    · exact absurd (hopen.offlined.symm.trans (horderly.1 hplace)) Bool.false_ne_true
    · exact .inr ⟨hsettled h, hoffline⟩
  | head | looked | body =>
    have hin : job.InLoop := by simp [InLoop, hplace]
    exact fun h ↦ .inr (hsettled (hclosed hin _ (fun h ↦ ⟨h.2, h.1.offlined⟩) h))
  | closing exception =>
    cases exception with
    | true => exact id
    | false =>
      have hin : job.InLoop := by simp [InLoop, hplace]
      exact fun h ↦ .inr (hsettled (hclosed hin _ (fun h ↦ h.1.2) h))

/-- In the loop, nothing has been reported of a job on which nothing is marked. -/
theorem Accounted.ends_eq_nil (h : job.Accounted) (hin : job.InLoop) (hunmarked : job.Unmarked) :
    job.ends = [] := by
  rw [Accounted] at h
  rcases hin with hplace | hplace | hplace | hplace <;> rw [hplace] at h
  · exact (h.resolve_right fun hsettled ↦ hsettled.marked hunmarked).1.ends
  · exact (h.resolve_right fun hsettled ↦ hsettled.marked hunmarked).1.ends
  · exact (h.resolve_right fun hsettled ↦ hsettled.marked hunmarked).1.ends
  · exact (h.resolve_right fun hsettled ↦ hsettled.marked hunmarked).1.1

theorem Settled.accounted (h : job.Settled) (hin : job.InLoop) : job.Accounted := by
  rw [Accounted]
  rcases hin with hplace | hplace | hplace | hplace <;> rw [hplace] <;> exact .inr h

variable (h : job.Accounted)

include h

theorem Accounted.cancel_false (hin : job.InLoop) (hunmarked : job.Unmarked) :
    (job.cancel false).Accounted := by
  refine Settled.accounted ?_ hin
  exact settled_of_report .JOB_TRANS_CANCELED (h.ends_eq_nil hin hunmarked) rfl nofun rfl
    fun hnone ↦ Bool.false_ne_true hnone.1.symm

theorem Accounted.cancelUnlessEnded (horderly : job.Orderly fsjob .cancelUnlessEnded) :
    job.cancelUnlessEnded.Accounted := by
  unfold ReportingJob.cancelUnlessEnded
  split
  · exact h
  · next hended =>
    obtain ⟨hin, hunmarked⟩ := horderly (Bool.eq_false_iff.mpr hended)
    exact h.cancel_false hin hunmarked

theorem Accounted.offlineCancel {ip : String} (horderly : job.Orderly fsjob (.offlineCancel ip)) :
    (job.offlineCancel ip fsjob.ip).Accounted := by
  unfold ReportingJob.offlineCancel
  split
  · next hloses =>
    obtain ⟨hplaces, hmark⟩ := horderly hloses
    have honline : job.offlined = false := by
      simp only [losesPeer, not_or, Bool.not_eq_true, decide_eq_true_eq] at hloses
      exact hloses.1
    have hsettled : job.ends = [] → Settled
        { job.handleJobStatus .JOB_TRANS_FAILED with offlined := true } := fun hends ↦
      settled_of_report .JOB_TRANS_FAILED hends rfl nofun rfl
        fun hnone ↦ Bool.false_ne_true hnone.2.symm
    -- before the loop, a job that is not offline has reported nothing
    have hearly : ∀ p, p ∨ job.Settled ∧ job.offlined = true → p := fun p hor ↦
      hor.resolve_right fun h ↦ Bool.false_ne_true (honline.symm.trans h.2)
    rcases hplaces with hplace | hplace | hin
    · rw [Accounted, hplace] at h
      change AccountedAt _ job.place
      rw [hplace]
      exact .inr ⟨hsettled (hearly _ h).1, rfl⟩
    · rw [Accounted, hplace] at h
      change AccountedAt _ job.place
      rw [hplace]
      exact .inr ⟨hsettled (hearly _ h).ends, rfl⟩
    · exact (hsettled (h.ends_eq_nil hin ⟨hmark, honline⟩)).accounted hin
  · exact h

theorem Accounted.remove : (job.step fsjob .remove).Accounted := by
  simp only [ReportingJob.step]
  split
  · next hplace =>
    rw [Accounted, hplace] at h
    exact h
  · exact h

variable {call : Call}

theorem Accounted.step (hnotify : job.notNotify = false)
    (hcall : call ≠ .stop) (horderly : job.Orderly fsjob call) :
    (job.step fsjob call).Accounted := by
  cases call with
  | initJob => exact .inl ⟨rfl, rfl⟩
  | advance block => exact h.advance hnotify horderly
  | stop => exact absurd rfl hcall
  | waitFinish => exact h.waitFinish
  | cancel notify =>
    cases notify with
    | true => exact h.cancel_true horderly
    | false => exact h.cancel_false horderly.1 horderly.2
  | cancelUnlessEnded => exact h.cancelUnlessEnded horderly
  | offlineCancel ip => exact h.offlineCancel horderly
  | remove => exact h.remove

omit h

/-! ## Jobs that are superseded -/

/-- A finish is reported, or about to be, only after the last block. -/
structure Truthful (job : ReportingJob) : Prop where
  finished : .JOB_TRANS_FINISHED ∈ job.reports → job.lastHandled = true
  reporting : job.place = .reporting → job.lastHandled = true

theorem finished_mem_ends : .JOB_TRANS_FINISHED ∈ job.ends ↔ .JOB_TRANS_FINISHED ∈ job.reports := by
  rw [ends, List.mem_filter]
  exact and_iff_left rfl

theorem Accounted.truthful (h : job.Accounted) : job.Truthful := by
  have hnone : job.ends = [] → .JOB_TRANS_FINISHED ∉ job.ends := by
    intro hends
    rw [hends]
    exact List.not_mem_nil
  have hplaces : ∀ place, job.AccountedAt place → place ≠ .reporting →
      .JOB_TRANS_FINISHED ∈ job.ends → job.lastHandled = true := by
    intro place h hplace hfinished
    cases place with
    | unmade => exact absurd hfinished (hnone h)
    | waiting => exact absurd hfinished (h.elim (fun h ↦ hnone h.1) fun h ↦ h.1.unfinished)
    | starting => exact absurd hfinished (h.elim (fun h ↦ hnone h.ends) fun h ↦ h.1.unfinished)
    | head | looked | body =>
      exact absurd hfinished (h.elim (fun h ↦ hnone h.1.ends) fun h ↦ h.unfinished)
    | closing exception =>
      cases exception with
      | true => exact absurd hfinished h.2
      | false => exact absurd hfinished (h.elim (fun h ↦ hnone h.1.1) fun h ↦ h.unfinished)
    | reporting => exact absurd rfl hplace
    | ending | returned | removed => exact h.2 hfinished
  rw [Accounted] at h
  by_cases hplace : job.place = .reporting
  · rw [hplace] at h
    exact ⟨fun _ ↦ h.2, fun _ ↦ h.2⟩
  · exact ⟨fun hfinished ↦ hplaces _ h hplace (finished_mem_ends.mpr hfinished),
      fun hreporting ↦ absurd hreporting hplace⟩

/-- A step that reports nothing, or something else than a finish. -/
theorem Truthful.of_reports (h : job.Truthful)
    (hreports : .JOB_TRANS_FINISHED ∈ next.reports → .JOB_TRANS_FINISHED ∈ job.reports)
    (hlast : job.lastHandled = true → next.lastHandled = true)
    (hplace : next.place = .reporting → job.place = .reporting) : next.Truthful :=
  ⟨fun hfinished ↦ hlast (h.finished (hreports hfinished)), fun hnext ↦
    hlast (h.reporting (hplace hnext))⟩

theorem finished_mem_handleJobStatus {result : JobResult} (hresult : result ≠ .JOB_TRANS_FINISHED)
    (h : .JOB_TRANS_FINISHED ∈ (job.handleJobStatus result).reports) :
    .JOB_TRANS_FINISHED ∈ job.reports := by
  rcases List.mem_append.mp h with hmem | hmem
  · exact hmem
  · exact absurd (List.mem_singleton.mp hmem).symm hresult

theorem Truthful.cancel (h : job.Truthful) (notify : Bool) : (job.cancel notify).Truthful := by
  cases notify with
  | true => exact h.of_reports id id id
  | false => exact h.of_reports (finished_mem_handleJobStatus nofun) id id

theorem Truthful.offlineCancel (h : job.Truthful) (ip tarIp : String) :
    (job.offlineCancel ip tarIp).Truthful := by
  unfold ReportingJob.offlineCancel
  split
  · exact h.of_reports (finished_mem_handleJobStatus nofun) id id
  · exact h

theorem Truthful.handleBlock (h : job.Truthful) (outcome : Outcome) :
    (job.handleBlock fsjob outcome).Truthful := by
  have hjudge : ∀ (next : ReportingJob) (exception : Bool), next.Truthful →
      (next.judge outcome exception).Truthful := by
    intro next exception hnext
    unfold judge
    split
    · exact hnext.of_reports (finished_mem_handleJobStatus nofun) id nofun
    · split
      · exact hnext.of_reports id (fun _ ↦ rfl) nofun
      · exact hnext.of_reports id id nofun
  have htransfer : (job.transfer fsjob outcome).1.Truthful := by
    unfold transfer
    split
    · exact h
    · exact h
    · split
      · exact h
      · split
        · exact h
        · exact h.offlineCancel fsjob.ip fsjob.ip
  exact hjudge _ _ htransfer

/-- The thread of a superseded job does not decide to report a finish. -/
theorem Truthful.advance (h : job.Truthful) (hsuperseded : job.notNotify = true)
    (block : Option Outcome) : (job.advance fsjob block).Truthful := by
  unfold ReportingJob.advance
  split
  · exact h.of_reports id id nofun
  · dsimp only
    split
    · exact h.of_reports (finished_mem_handleJobStatus nofun) id nofun
    · exact h.of_reports id id nofun
  · refine h.of_reports id id fun hplace ↦ ?_
    dsimp only at hplace
    split at hplace <;> cases hplace
  · refine h.of_reports id id fun hplace ↦ ?_
    dsimp only at hplace
    split at hplace <;> cases hplace
  · split
    · exact h.of_reports id id nofun
    · exact h.handleBlock _
  · refine h.of_reports id id fun hplace ↦ ?_
    dsimp only at hplace
    rw [if_neg (fun hreports ↦ hreports.1 hsuperseded)] at hplace
    cases hplace
  · next hplace => exact ⟨fun _ ↦ h.reporting hplace, nofun⟩
  · exact h.of_reports id id nofun
  · exact h
  · exact h
  · exact h

theorem Truthful.step (h : job.Truthful) (hsuperseded : job.notNotify = true)
    (hcall : call ≠ .initJob) : (job.step fsjob call).Truthful := by
  cases call with
  | initJob => exact absurd rfl hcall
  | advance block => exact h.advance hsuperseded block
  | stop | waitFinish => exact h.of_reports id id id
  | cancel notify => exact h.cancel notify
  | cancelUnlessEnded =>
    simp only [ReportingJob.step, cancelUnlessEnded]
    split
    · exact h
    · exact h.cancel false
  | offlineCancel ip => exact h.offlineCancel ip fsjob.ip
  | remove =>
    refine h.of_reports id id fun hplace ↦ ?_
    simp only [ReportingJob.step] at hplace
    split at hplace
    · cases hplace
    · exact hplace

theorem notNotify_handleBlock (outcome : Outcome) :
    (job.handleBlock fsjob outcome).notNotify = job.notNotify := by
  have hjudge : ∀ (next : ReportingJob) (exception : Bool),
      (next.judge outcome exception).notNotify = next.notNotify := by
    intro next exception
    unfold judge
    split
    · rfl
    · split <;> rfl
  have htransfer : (job.transfer fsjob outcome).1.notNotify = job.notNotify := by
    unfold transfer ReportingJob.offlineCancel
    split
    · rfl
    · rfl
    · split
      · rfl
      · split
        · rfl
        · dsimp only
          split <;> rfl
  exact (hjudge _ _).trans htransfer

theorem notNotify_step (hinit : call ≠ .initJob) (hstop : call ≠ .stop) :
    (job.step fsjob call).notNotify = job.notNotify := by
  cases call with
  | initJob => exact absurd rfl hinit
  | stop => exact absurd rfl hstop
  | advance block =>
    simp only [ReportingJob.step, ReportingJob.advance]
    split
    case h_5 =>
      split
      · rfl
      · exact notNotify_handleBlock _
    case h_2 => split <;> rfl
    all_goals rfl
  | waitFinish | remove => rfl
  | cancel notify => cases notify <;> rfl
  | cancelUnlessEnded =>
    simp only [ReportingJob.step, cancelUnlessEnded]
    split <;> rfl
  | offlineCancel ip =>
    simp only [ReportingJob.step, ReportingJob.offlineCancel]
    split <;> rfl

/-- What holds of a job throughout its life. -/
structure Kept (job : ReportingJob) : Prop where
  truthful : job.Truthful
  accounted : job.notNotify = false → job.Accounted

theorem Accounted.kept (h : job.Accounted) : job.Kept := ⟨h.truthful, fun _ ↦ h⟩

theorem Kept.step (h : job.Kept) (horderly : job.notNotify = false → job.Orderly fsjob call) :
    (job.step fsjob call).Kept := by
  by_cases hinit : call = .initJob
  · rw [hinit]
    exact Accounted.kept (.inl ⟨rfl, rfl⟩)
  by_cases hstop : call = .stop
  · rw [hstop]
    exact ⟨h.truthful.of_reports id id id, fun hnot ↦ absurd hnot.symm Bool.false_ne_true⟩
  cases hnotify : job.notNotify with
  | true =>
    refine ⟨h.truthful.step hnotify hinit, fun hnot ↦ ?_⟩
    rw [notNotify_step hinit hstop, hnotify] at hnot
    exact absurd hnot.symm Bool.false_ne_true
  | false => exact ((h.accounted hnotify).step hnotify hstop (horderly hnotify)).kept

theorem Kept.endsProperly (h : job.Kept) : job.EndsProperly := by
  refine ⟨fun hreturned hnotify ↦ ?_, h.truthful.finished⟩
  have hjob := h.accounted hnotify
  rw [Accounted] at hjob
  rcases hreturned with hplace | hplace
  · rw [hplace] at hjob
    exact hjob.1
  · rw [hplace] at hjob
    exact hjob.1

end ReportingJob

end DdeCooperation.Daemon
