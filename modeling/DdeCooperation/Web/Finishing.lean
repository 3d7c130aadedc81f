import DdeCooperation.Web.Fetching

/-!
# What the end of a download stands for

The thread reports the end of the transfer when its loop over the offered names is done. It
looks neither at whether its requests were answered nor at how the downloads went, and for a
name without information it creates an empty file.

The books of a run are balanced while every file that was found has been downloaded or is
still in the queue. An event that goes wrong leaves a name without answer or a file that is
missing for good, and the report at the end is then not true.
-/

namespace DdeCooperation.Web.Fetch

open Foundations BaseKit List FileClient

variable {s s' : Fetch} {next : Control} {event : Event}

/-- The files that have been found and are still to be downloaded. -/
def Control.outstanding : Control → List StdString
  | .file name => [name]
  | .entries _ _ files => files
  | .nested _ _ _ files => files
  | .queue _ files => files
  | .download name _ next => name :: next.outstanding
  | _ => []

def Finished (s : Fetch) : Prop := .WEB_TRANS_FINISH ∈ s.reports

instance (s : Fetch) : Decidable s.Finished := inferInstanceAs (Decidable (_ ∈ _))

/-- The end is only reported when all information was given and each file was downloaded as
often as it was found, and nothing is created for a name whose information was not given. -/
structure Truthful (s : Fetch) : Prop where
  complete : s.Finished → s.unanswered = [] ∧ ∀ name, s.found.count name ≤ s.fetched.count name
  nothing : ∀ name ∈ s.unanswered, name ∉ s.created

variable (receiver : Receiver)

/-- There is a place for a file, unless the search for it does not come to an end. -/
def Places (saveName : StdString) (s : Fetch) : Prop :=
  (createNextAvailableName receiver.process true receiver.home receiver.savedir
    receiver.rounds saveName s.volume.fs).2 ≠ .returned []

/-- If a download is about to start, there is a place for its file. -/
def Placeable (s : Fetch) : Prop :=
  match s.control with
  | .file name => s.Places receiver name
  | .queue folder (subName :: _) =>
    let rename := renamed folder.name folder.rename subName
    s.stop = true ∨ s.Places receiver (if rename = [] then subName else rename)
  | _ => True

/-- If information is waited for, it is given. -/
def Answers (answer : Option InfoEntry) (s : Fetch) : Prop :=
  match s.control with
  | .info _ => answer.isSome
  | .listing _ => answer.isSome
  | .nested .. => answer.isSome
  | _ => True

/-- If a download is waited for, the whole content arrives and is stored. -/
def Arrives (content : List UInt8) (delivery : Delivery) (s : Fetch) : Prop :=
  match s.control with
  | .download _ path _ => stores receiver path delivery s.volume ∧ delivery.bytes = content
  | _ => True

/-- Nothing goes wrong. -/
def Smooth (s : Fetch) : Event → Prop
  | .go => s.Placeable receiver
  | .info answer => s.Answers answer
  | .served content delivery => s.Arrives receiver content delivery
  | .stop => True

/-! ## What a step does to the books -/

section Fields

variable (s : Fetch) (name saveName : StdString) (isfile : Bool)

/-- Where the state after a call of `createNextAvailableName` differs. -/
theorem place_cases : ∃ volume created, (∃ path, s.place receiver name saveName isfile =
        ({ s with volume := volume, created := created }, some path) ∧
      (createNextAvailableName receiver.process isfile receiver.home receiver.savedir
        receiver.rounds saveName s.volume.fs).2 = .returned path) ∨
    s.place receiver name saveName isfile =
        ({ s with volume := volume, created := created, control := .ended }, none) ∧
      ∀ path, (createNextAvailableName receiver.process isfile receiver.home
        receiver.savedir receiver.rounds saveName s.volume.fs).2 ≠ .returned path := by
  unfold place
  generalize createNextAvailableName receiver.process isfile receiver.home
    receiver.savedir receiver.rounds saveName s.volume.fs = result
  obtain ⟨fs, outcome⟩ := result
  refine ⟨.ofContent 0 fs s.volume.content,
    if fs.nodes.keys.any (· ∉ s.volume.fs.nodes) then s.created ++ [name] else s.created, ?_⟩
  cases outcome with
  | returned path => exact .inl ⟨path, rfl, rfl⟩
  | thrown | searching => exact .inr ⟨rfl, by simp⟩

end Fields

/-- The records that the report at the end is about. -/
structure Books where
  unanswered : List StdString
  found : List StdString
  fetched : List StdString
  finished : Bool

def books (s : Fetch) : Books := ⟨s.unanswered, s.found, s.fetched, s.Finished⟩

/-- A step where nothing goes wrong. -/
inductive Good (s s' : Fetch) : Prop
  | moved (hbooks : s'.books = s.books) (hout : s'.control.outstanding = s.control.outstanding)
  | found (name : StdString) (hbooks : s'.books = { s.books with found := s.found ++ [name] })
      (hout : s'.control.outstanding = s.control.outstanding ++ [name])
  | fetched (name : StdString)
      (hbooks : s'.books = { s.books with fetched := s.fetched ++ [name] })
      (hout : s.control.outstanding = name :: s'.control.outstanding)
  /-- The flag is set, and the rest of the queue is left. -/
  | stopped (hbooks : s'.books = s.books) (hcontrol : s'.control = .check) (hstop : s'.stop = true)
  /-- A call does not return. -/
  | died (hbooks : s'.books = s.books) (hcontrol : s'.control = .ended)
  | finished (hbooks : s'.books = { s.books with finished := true })
      (hcontrol : s'.control = .ended) (hout : s.control.outstanding = [])

/-- A step where something goes wrong. -/
inductive Bad (s s' : Fetch) : Prop
  | unheard (name : StdString)
      (hbooks : s'.books = { s.books with unanswered := s.unanswered ++ [name] })
      (hout : s'.control.outstanding = s.control.outstanding)
  | lost (name : StdString) (hbooks : s'.books = s.books)
      (hout : s.control.outstanding = name :: s'.control.outstanding)

theorem create_cases (s : Fetch) (name saveName : StdString) (next : Control) :
    ∃ volume created control, (control = next ∨ control = .ended) ∧
      s.create receiver name saveName next =
        { s with volume := volume, created := created, control := control } := by
  obtain ⟨volume, created, ⟨path, hplace, -⟩ | ⟨hplace, -⟩⟩ :=
    place_cases receiver s name saveName true
  · exact ⟨volume, created, next, .inl rfl, by rw [create, hplace]; rfl⟩
  · exact ⟨volume, created, .ended, .inr rfl, by rw [create, hplace]⟩

theorem good_create (name saveName : StdString) (hout : next.outstanding = s.control.outstanding) :
    Good s (s.create receiver name saveName next) := by
  obtain ⟨volume, created, control, rfl | rfl, hcreate⟩ := create_cases receiver s name saveName next
  · rw [hcreate]
    exact .moved rfl hout
  · rw [hcreate]
    exact .died rfl rfl

theorem books_report {progress : Progress} (h : progress ≠ .WEB_TRANS_FINISH)
    (hreports : s'.reports = s.reports ++ [progress]) (hunanswered : s'.unanswered = s.unanswered)
    (hfound : s'.found = s.found) (hfetched : s'.fetched = s.fetched) : s'.books = s.books := by
  have hmem : s'.Finished ↔ s.Finished := by
    simp [Finished, hreports, Ne.symm h]
  simp only [books, hmem, hunanswered, hfound, hfetched]

variable {name rename : StdString}

theorem good_startDownload (hout : s.control.outstanding = name :: next.outstanding)
    (h : s.Places receiver (if rename = [] then name else rename)) :
    Good s (s.startDownload receiver name rename next) := by
  obtain ⟨volume, created, ⟨path, hplace, hpath⟩ | ⟨hplace, -⟩⟩ :=
    place_cases receiver s name (if rename = [] then name else rename) true
  · have hne : path ≠ [] := by
      rintro rfl
      exact h hpath
    simp only [startDownload, hplace, if_neg hne]
    exact .moved rfl hout.symm
  · simp only [startDownload, hplace]
    exact .died rfl rfl

theorem bad_startDownload (hout : s.control.outstanding = name :: next.outstanding)
    (h : ¬ s.Places receiver (if rename = [] then name else rename)) :
    Bad s (s.startDownload receiver name rename next) := by
  have hempty := not_not.mp h
  obtain ⟨volume, created, ⟨path, hplace, hpath⟩ | ⟨-, hnone⟩⟩ :=
    place_cases receiver s name (if rename = [] then name else rename) true
  · rw [hpath, Outcome.returned.injEq] at hempty
    simp only [startDownload, hplace, if_pos hempty]
    exact .lost name (books_report (by simp) rfl rfl rfl rfl) hout
  · exact absurd hempty (hnone [])

theorem good_startFolder (name : StdString) (hout : s.control.outstanding = []) :
    Good s (s.startFolder receiver name) := by
  obtain ⟨volume, created, ⟨path, hplace, -⟩ | ⟨hplace, -⟩⟩ := place_cases receiver s name name false
  · by_cases hpath : path = []
    · simp only [startFolder, hplace, if_pos hpath]
      exact .moved rfl hout.symm
    · simp only [startFolder, hplace, if_neg hpath]
      exact .moved rfl hout.symm
  · simp only [startFolder, hplace]
    exact .died rfl rfl

theorem good_lookAt {folder : Folder} {files : List StdString} (entry : Entry)
    (pending : List Entry) (hout : s.control.outstanding = files) :
    Good s (s.lookAt receiver folder files entry pending) := by
  unfold lookAt
  split_ifs
  · exact .moved rfl hout.symm
  · refine .found entry.name rfl ?_
    rw [hout]
    rfl
  · exact good_create receiver _ _ hout.symm
  · exact good_create receiver _ _ hout.symm
  · exact .moved rfl hout.symm

theorem good_go (h : s.Placeable receiver) : Good s (s.go receiver) := by
  unfold Placeable at h
  unfold go
  split
  · next hcontrol =>
    have hout : s.control.outstanding = [] := by rw [hcontrol]; rfl
    split
    · refine .finished ?_ rfl hout
      simp [books, Finished, goto, report, request]
    · exact .moved (books_report (by simp) rfl rfl rfl rfl) hout.symm
  · next name hcontrol =>
    rw [hcontrol] at h
    exact good_startDownload receiver (by rw [hcontrol]; rfl) h
  · next name hcontrol => exact good_startFolder receiver name (by rw [hcontrol]; rfl)
  · next hcontrol => exact .moved rfl (by rw [hcontrol]; rfl)
  · next folder entry pending files hcontrol =>
    split_ifs
    · exact .moved rfl (by rw [hcontrol]; rfl)
    · exact good_lookAt receiver entry pending (by rw [hcontrol]; rfl)
  · next hcontrol => exact .moved rfl (by rw [hcontrol]; rfl)
  · next folder subName files hcontrol =>
    rw [hcontrol] at h
    split_ifs with hstop
    · exact .stopped rfl rfl hstop
    · exact good_startDownload receiver (by rw [hcontrol]; rfl) (h.resolve_left hstop)
  · next hcontrol =>
    refine .moved rfl ?_
    rw [hcontrol]
    show (if s.stop = true then Control.ended else .index).outstanding = []
    split_ifs <;> rfl
  · exact .moved rfl rfl

theorem bad_go (h : ¬ s.Placeable receiver) : Bad s (s.go receiver) := by
  unfold Placeable at h
  split at h
  · next name hcontrol =>
    simp only [go, hcontrol]
    exact bad_startDownload receiver (by rw [hcontrol]; rfl) h
  · next folder subName files hcontrol =>
    rw [not_or] at h
    simp only [go, hcontrol, if_neg h.1]
    exact bad_startDownload receiver (by rw [hcontrol]; rfl) h.2
  · exact absurd trivial h

variable {answer : Option InfoEntry}

theorem good_onInfo (h : s.Answers answer) : Good s (s.onInfo receiver answer) := by
  cases answer with
  | none =>
    have hidle : s.onInfo receiver none = s := by
      unfold Answers at h
      unfold onInfo
      cases hcontrol : s.control <;> simp_all
    rw [hidle]
    exact .moved rfl rfl
  | some info =>
    unfold onInfo
    split
    · next name hcontrol =>
      have hout : s.control.outstanding = [] := by rw [hcontrol]; rfl
      have hheard : s.hear name (some info) = s := rfl
      simp only [hheard]
      split_ifs
      · exact good_create receiver _ _ hout.symm
      · refine .found name rfl ?_
        rw [hout]
        rfl
      · exact .moved rfl hout.symm
    · next hcontrol => exact .moved rfl (by rw [hcontrol]; rfl)
    · next hcontrol => exact .moved rfl (by rw [hcontrol]; rfl)
    · exact .moved rfl rfl

theorem bad_onInfo (h : ¬ s.Answers answer) : Bad s (s.onInfo receiver answer) := by
  unfold Answers at h
  cases answer with
  | some info =>
    split at h
    · exact absurd rfl h
    · exact absurd rfl h
    · exact absurd rfl h
    · exact absurd trivial h
  | none =>
    split at h
    · next name hcontrol =>
      rw [onInfo, hcontrol]
      dsimp only
      obtain ⟨volume, created, control, hnext, hcreate⟩ :=
        create_cases receiver (s.hear name none) name name .index
      have hsize : ((none : Option InfoEntry).getD {}).size = 0 := rfl
      rw [if_pos hsize, hcreate]
      refine .unheard name rfl ?_
      rw [hcontrol]
      rcases hnext with rfl | rfl <;> rfl
    · next folder hcontrol =>
      rw [onInfo, hcontrol]
      exact .unheard folder.name rfl (by rw [hcontrol]; rfl)
    · next folder name pending files hcontrol =>
      rw [onInfo, hcontrol]
      exact .unheard name rfl (by rw [hcontrol]; rfl)
    · exact absurd trivial h

variable {content : List UInt8} {delivery : Delivery}

theorem good_onServed (h : s.Arrives receiver content delivery) :
    Good s (s.onServed receiver content delivery) := by
  unfold Arrives at h
  unfold onServed
  split
  · next name path next hcontrol =>
    rw [hcontrol] at h
    have hwhole : (stores receiver path delivery s.volume && delivery.bytes = content) = true := by
      simp [h.1, h.2]
    rw [hwhole]
    exact .fetched name rfl (by rw [hcontrol]; rfl)
  · exact .moved rfl rfl

theorem bad_onServed (h : ¬ s.Arrives receiver content delivery) :
    Bad s (s.onServed receiver content delivery) := by
  unfold Arrives at h
  split at h
  · next name path next hcontrol =>
    have hwhole : (stores receiver path delivery s.volume && delivery.bytes = content) = false := by
      simpa using h
    rw [onServed, hcontrol]
    simp only [hwhole]
    exact .lost name rfl (by rw [hcontrol]; rfl)
  · exact absurd trivial h

theorem good_step (h : s.Smooth receiver event) : Good s (s.step receiver event) := by
  cases event with
  | go => exact good_go receiver h
  | info answer => exact good_onInfo receiver h
  | served content delivery => exact good_onServed receiver h
  | stop => exact .moved rfl rfl

theorem bad_step (h : ¬ s.Smooth receiver event) : Bad s (s.step receiver event) := by
  cases event with
  | go => exact bad_go receiver h
  | info answer => exact bad_onInfo receiver h
  | served content delivery => exact bad_onServed receiver h
  | stop => exact absurd trivial h

/-! ## Runs where nothing goes wrong -/

/-- The thread ends without a report, or is about to. -/
def Aborted (s : Fetch) : Prop :=
  ¬ s.Finished ∧ (s.control = .ended ∨ s.control = .check ∧ s.stop = true)

/-- Nothing has gone wrong, and unless the thread ends without a report, each file that was
found has been downloaded or is outstanding. -/
structure Balanced (s : Fetch) : Prop where
  answered : s.unanswered = []
  reported : s.Finished → s.control = .ended
  files : s.found = s.fetched ++ s.control.outstanding ∨ s.Aborted

variable {receiver}

theorem Aborted.step (h : s.Aborted) (event : Event) : (s.step receiver event).Aborted := by
  obtain ⟨hfinished, hcontrol | ⟨hcontrol, hstop⟩⟩ := h
  · cases event with
    | stop => exact ⟨hfinished, .inl hcontrol⟩
    | _ =>
      simp only [Fetch.step, go, onInfo, onServed, hcontrol]
      exact ⟨hfinished, .inl hcontrol⟩
  · cases event with
    | go =>
      simp only [Fetch.step, go, hcontrol, hstop, if_true]
      exact ⟨hfinished, .inl rfl⟩
    | stop => exact ⟨hfinished, .inr ⟨hcontrol, rfl⟩⟩
    | _ =>
      simp only [Fetch.step, onInfo, onServed, hcontrol]
      exact ⟨hfinished, .inr ⟨hcontrol, hstop⟩⟩

theorem finished_congr (h : s'.books.finished = s.books.finished) : s'.Finished ↔ s.Finished := by
  simpa [books] using h

/-- The thread does nothing after its end. -/
theorem control_step_of_ended (h : s.control = .ended) (event : Event) :
    (s.step receiver event).control = .ended := by
  cases event with
  | stop => exact h
  | _ =>
    simp only [Fetch.step, go, onInfo, onServed, h]

theorem Balanced.step (h : s.Balanced) (hsmooth : s.Smooth receiver event) :
    (s.step receiver event).Balanced := by
  have hgood := good_step receiver hsmooth
  have habort : s.Aborted → (s.step receiver event).Aborted := fun haborted ↦ haborted.step event
  have hended : s.control = .ended → (s.step receiver event).control = .ended :=
    fun hcontrol ↦ control_step_of_ended hcontrol event
  generalize s.step receiver event = s' at hgood habort hended
  -- what stays balanced if only the files have to be accounted for
  have hfiles (hbooks : s'.unanswered = s.unanswered ∧ s'.books.finished = s.books.finished)
      (h' : s.found = s.fetched ++ s.control.outstanding →
        s'.found = s'.fetched ++ s'.control.outstanding) : s'.Balanced :=
    ⟨hbooks.1.trans h.answered, fun hnow ↦ hended (h.reported ((finished_congr hbooks.2).mp hnow)),
      h.files.imp h' habort⟩
  cases hgood with
  | moved hbooks hout =>
    have hfound : s'.found = s.found := congrArg Books.found hbooks
    have hfetched : s'.fetched = s.fetched := congrArg Books.fetched hbooks
    refine hfiles ⟨congrArg Books.unanswered hbooks, by rw [hbooks]⟩ fun hold ↦ ?_
    rw [hfound, hfetched, hout, hold]
  | found name hbooks hout =>
    have hfound : s'.found = s.found ++ [name] := congrArg Books.found hbooks
    have hfetched : s'.fetched = s.fetched := congrArg Books.fetched hbooks
    refine hfiles ⟨congrArg Books.unanswered hbooks, by rw [hbooks]⟩ fun hold ↦ ?_
    rw [hfound, hfetched, hout, hold, append_assoc]
  | fetched name hbooks hout =>
    have hfound : s'.found = s.found := congrArg Books.found hbooks
    have hfetched : s'.fetched = s.fetched ++ [name] := congrArg Books.fetched hbooks
    refine hfiles ⟨congrArg Books.unanswered hbooks, by rw [hbooks]⟩ fun hold ↦ ?_
    rw [hfound, hfetched, append_assoc, singleton_append, ← hout, hold]
  | stopped hbooks hcontrol hstop =>
    have hfinished := finished_congr (congrArg Books.finished hbooks)
    have hunfinished : ¬ s'.Finished := by
      intro hnow
      have hend := hended (h.reported (hfinished.mp hnow))
      rw [hcontrol] at hend
      cases hend
    exact ⟨(congrArg Books.unanswered hbooks).trans h.answered,
      fun hnow ↦ absurd hnow hunfinished, .inr ⟨hunfinished, .inr ⟨hcontrol, hstop⟩⟩⟩
  | died hbooks hcontrol =>
    have hfinished := finished_congr (congrArg Books.finished hbooks)
    refine ⟨(congrArg Books.unanswered hbooks).trans h.answered, fun _ ↦ hcontrol, ?_⟩
    by_cases hnow : s'.Finished
    · refine h.files.imp (fun hfiles ↦ ?_) habort
      have hfound : s'.found = s.found := congrArg Books.found hbooks
      have hfetched : s'.fetched = s.fetched := congrArg Books.fetched hbooks
      rw [hfound, hfetched, hcontrol, hfiles, h.reported (hfinished.mp hnow)]
    · exact .inr ⟨hnow, .inl hcontrol⟩
  | finished hbooks hcontrol hout =>
    have hfound : s'.found = s.found := congrArg Books.found hbooks
    have hfetched : s'.fetched = s.fetched := congrArg Books.fetched hbooks
    refine ⟨(congrArg Books.unanswered hbooks).trans h.answered, fun _ ↦ hcontrol,
      h.files.imp (fun hfiles ↦ ?_) habort⟩
    rw [hfound, hfetched, hcontrol, hfiles, hout]
    rfl

theorem Balanced.truthful (h : s.Balanced) : s.Truthful where
  complete hfinished := by
    refine ⟨h.answered, fun name ↦ ?_⟩
    rcases h.files with hfiles | haborted
    · rw [h.reported hfinished] at hfiles
      rw [hfiles]
      simp [Control.outstanding]
    · exact absurd hfinished haborted.1
  nothing name hname := by
    rw [h.answered] at hname
    cases hname

/-! ## Runs where something goes wrong -/

/-- No more files have been downloaded or are outstanding than were found. -/
def Bounded (s : Fetch) : Prop :=
  s.fetched.length + s.control.outstanding.length ≤ s.found.length

/-- A name has not been answered, or a file is missing for good. -/
def Spoiled (s : Fetch) : Prop :=
  s.unanswered ≠ [] ∨ s.fetched.length + s.control.outstanding.length < s.found.length

/-- In a step where nothing goes wrong, what is no longer outstanding is downloaded or left. -/
theorem Good.length_le (h : Good s s') :
    s'.fetched.length + s'.control.outstanding.length + s.found.length ≤
      s'.found.length + s.fetched.length + s.control.outstanding.length := by
  have hfields : ∀ {books : Books}, s'.books = books →
      s'.fetched = books.fetched ∧ s'.found = books.found := by
    rintro books rfl
    exact ⟨rfl, rfl⟩
  cases h with
  | moved hbooks hout =>
    obtain ⟨hfetched, hfound⟩ := hfields hbooks
    simp only [hfetched, hfound, hout, books]
    omega
  | found name hbooks hout =>
    obtain ⟨hfetched, hfound⟩ := hfields hbooks
    simp only [hfetched, hfound, hout, books, length_append]
    omega
  | fetched name hbooks hout =>
    obtain ⟨hfetched, hfound⟩ := hfields hbooks
    simp only [hfetched, hfound, hout, books, length_append, length_cons, length_nil]
    omega
  | stopped hbooks hcontrol hstop | died hbooks hcontrol | finished hbooks hcontrol hout =>
    obtain ⟨hfetched, hfound⟩ := hfields hbooks
    simp only [hfetched, hfound, hcontrol, books, Control.outstanding, length_nil]
    omega

theorem Good.unanswered_eq (h : Good s s') : s'.unanswered = s.unanswered := by
  cases h with
  | moved hbooks | found _ hbooks | fetched _ hbooks | stopped hbooks | died hbooks
  | finished hbooks => exact congrArg Books.unanswered hbooks

theorem Bad.bounded (h : Bad s s') (hbounded : s.Bounded) : s'.Bounded ∧ s'.Spoiled := by
  unfold Bounded at hbounded ⊢
  cases h with
  | unheard name hbooks hout =>
    have hunanswered : s'.unanswered = s.unanswered ++ [name] := congrArg Books.unanswered hbooks
    have hfetched : s'.fetched = s.fetched := congrArg Books.fetched hbooks
    have hfound : s'.found = s.found := congrArg Books.found hbooks
    refine ⟨?_, .inl (by simp [hunanswered])⟩
    rw [hfetched, hfound, hout]
    exact hbounded
  | lost name hbooks hout =>
    have hfetched : s'.fetched = s.fetched := congrArg Books.fetched hbooks
    have hfound : s'.found = s.found := congrArg Books.found hbooks
    rw [hout, length_cons] at hbounded
    rw [Spoiled, hfetched, hfound]
    exact ⟨by omega, .inr (by omega)⟩

theorem Good.bounded (h : Good s s') (hbounded : s.Bounded) : s'.Bounded := by
  have hlength := h.length_le
  unfold Bounded at hbounded ⊢
  omega

theorem Good.spoiled (h : Good s s') (hspoiled : s.Spoiled) : s'.Spoiled := by
  have hlength := h.length_le
  unfold Spoiled at hspoiled ⊢
  rw [h.unanswered_eq]
  exact hspoiled.imp id fun hmissing ↦ by omega

theorem Bounded.step (h : s.Bounded) (event : Event) : (s.step receiver event).Bounded := by
  by_cases hsmooth : s.Smooth receiver event
  · exact (good_step receiver hsmooth).bounded h
  · exact ((bad_step receiver hsmooth).bounded h).1

/-- What has gone wrong is not made good later. -/
theorem Spoiled.step (h : s.Spoiled) (hbounded : s.Bounded) (event : Event) :
    (s.step receiver event).Spoiled := by
  by_cases hsmooth : s.Smooth receiver event
  · exact (good_step receiver hsmooth).spoiled h
  · exact ((bad_step receiver hsmooth).bounded hbounded).2

theorem Spoiled.foldl (h : s.Spoiled) (hbounded : s.Bounded) (events : List Event) :
    (events.foldl (Fetch.step receiver) s).Spoiled := by
  induction events generalizing s with
  | nil => exact h
  | cons event rest ih => exact ih (h.step hbounded event) (hbounded.step event)

theorem spoiled_of_not_smooth (hbounded : s.Bounded) {events : List Event}
    (h : ¬ Throughout (Fetch.step receiver) (Smooth receiver) s events) :
    (events.foldl (Fetch.step receiver) s).Spoiled := by
  induction events generalizing s with
  | nil => exact absurd trivial h
  | cons event rest ih =>
    by_cases hsmooth : s.Smooth receiver event
    · exact ih (hbounded.step event) fun hrest ↦ h ⟨hsmooth, hrest⟩
    · have hspoiled := ((bad_step receiver hsmooth).bounded hbounded).2
      exact hspoiled.foldl (hbounded.step event) rest

/-- A file that is missing is counted more often among the files found. -/
theorem Spoiled.not_truthful (h : s.Spoiled) (hfinished : s.Finished) : ¬ s.Truthful := by
  intro htruthful
  obtain ⟨hanswered, hcount⟩ := htruthful.complete hfinished
  rcases h with hunanswered | hmissing
  · exact hunanswered hanswered
  · have hlength := (subperm_ext_iff.mpr fun name _ ↦ hcount name).length_le
    omega

theorem balanced_start (volume : Volume UInt8 UInt8) (webnames : List StdString) :
    (start volume webnames).Balanced :=
  ⟨rfl, fun h ↦ by simp [Finished, start] at h, .inl rfl⟩

/-- Where nothing goes wrong, all that the thread reports is true. A thread that reports the
end after something went wrong reports what is not true. -/
theorem truthful_iff_smooth (receiver : Receiver) (volume : Volume UInt8 UInt8)
    (webnames : List StdString) (events : List Event) :
    (Throughout (Fetch.step receiver) (Smooth receiver) (start volume webnames) events →
      (after receiver volume webnames events).Truthful) ∧
    ((after receiver volume webnames events).Finished →
      ((after receiver volume webnames events).Truthful ↔
        Throughout (Fetch.step receiver) (Smooth receiver) (start volume webnames) events)) := by
  have hsmooth : Throughout (Fetch.step receiver) (Smooth receiver) (start volume webnames) events →
      (after receiver volume webnames events).Truthful := by
    intro h
    exact (Throughout.invariant_foldl (fun _ _ hbalanced hsmooth ↦ hbalanced.step hsmooth)
      (balanced_start volume webnames) h).truthful
  refine ⟨hsmooth, fun hfinished ↦ ⟨fun htruthful ↦ ?_, hsmooth⟩⟩
  by_contra hdisturbed
  have hbounded : (start volume webnames).Bounded := le_rfl
  exact (spoiled_of_not_smooth hbounded hdisturbed).not_truthful hfinished htruthful

/-! ## A name without information -/

def sampleReceiver : Receiver where
  process := { cwd := [] }
  home := none
  savedir := ascii "/d"
  rounds := 1

def emptyVolume : Volume UInt8 UInt8 :=
  .ofContent 0 (.ofDirectories [[ascii "d"]]) fun _ ↦ []

/-- The request for the only offered name is not answered. The thread creates an empty file for
it and reports the end of the transfer. -/
theorem not_truthful_unanswered :
    let s := after sampleReceiver emptyVolume [ascii "a"] [.go, .info none, .go]
    s.Finished ∧ s.unanswered = [ascii "a"] ∧ s.created = [ascii "a"] ∧
      s.volume.fs.nodes.lookup [ascii "a", ascii "d"] = some (.file 0) ∧ ¬ s.Truthful := by
  have hunanswered : (after sampleReceiver emptyVolume [ascii "a"]
      [.go, .info none, .go]).unanswered = [ascii "a"] := by decide +kernel
  have hcreated : (after sampleReceiver emptyVolume [ascii "a"]
      [.go, .info none, .go]).created = [ascii "a"] := by decide +kernel
  refine ⟨by decide +kernel, hunanswered, hcreated, by decide +kernel, fun htruthful ↦ ?_⟩
  have hnothing := htruthful.nothing (ascii "a")
  exact hnothing mem_cons_self mem_cons_self

end DdeCooperation.Web.Fetch
