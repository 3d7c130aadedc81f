import DdeCooperation.Web.Preservation

/-!
# The thread follows the walk

The walk through a remote of `Walk` and the thread of `Fetching` are two readings of the same
functions: the one recurses through the folders with the answers of a remote, the other moves
from event to event. Whenever the walk returns, the thread has a run on the answers of the same
remote, without a stop, that makes the same requests and reports and leaves the same files.
So what holds of all runs of the thread holds of the walk, as the last section shows for the
files that were there before.
-/

namespace DdeCooperation.Web.Fetch

open Foundations BaseKit Computation

/-- The events that the answers of a remote to the last request allow. -/
def Gives (remote : Remote) (s : Fetch) : Event → Prop
  | .go => True
  | .info answer => ∃ earlier name, s.requests = earlier ++ [.info name] ∧
      answer = remote.info earlier name
  | .served _ delivery => ∃ earlier name, s.requests = earlier ++ [.download name] ∧
      delivery.served = remote.content earlier name
  | .stop => False

/-- The thread is where the walk is, with the given names left and the given thing to do. -/
structure Matches (t : Transfer) (s : Fetch) (names : List StdString) (control : Control) : Prop where
  fs : s.volume.fs = t.fs
  requests : s.requests = t.requests
  reports : s.reports = t.reports
  names : s.names = names
  control : s.control = control
  stop : s.stop = false

/-- The thread has a run from one state to the other on the answers of the remote. -/
def Reaches (receiver : Receiver) (remote : Remote) (s s' : Fetch) : Prop :=
  ∃ events, Throughout (step receiver) (Gives remote) s events ∧ events.foldl (step receiver) s = s'

section

variable {receiver : Receiver} {remote : Remote} {s s' s'' : Fetch}

theorem Reaches.refl (s : Fetch) : Reaches receiver remote s s := ⟨[], trivial, rfl⟩

theorem Reaches.head (event : Event) (hevent : Gives remote s event)
    (h : Reaches receiver remote (s.step receiver event) s') : Reaches receiver remote s s' := by
  obtain ⟨events, hevents, hend⟩ := h
  exact ⟨event :: events, ⟨hevent, hevents⟩, hend⟩

theorem Reaches.trans (h : Reaches receiver remote s s') (h' : Reaches receiver remote s' s'') :
    Reaches receiver remote s s'' := by
  obtain ⟨events, hevents, rfl⟩ := h
  induction events generalizing s with
  | nil => exact h'
  | cons event rest ih => exact .head event hevents.1 (ih hevents.2 h')

variable {t t' : Transfer} {names files files' : List StdString} {folder : Folder}
  {pending : List Entry} {name rename saveName path : StdString} {isfile : Bool} {control : Control}
  {depth : ℕ}

/-! ## Single calls -/

theorem of_available (h : Returns (FileClient.available receiver saveName isfile) t path t') :
    ∃ fs, FileClient.createNextAvailableName receiver.process isfile receiver.home receiver.savedir
      receiver.rounds saveName t.fs = (fs, .returned path) ∧ t' = { t with fs := fs } := by
  unfold FileClient.available at h
  obtain ⟨t₁, t₂, hget, hrest⟩ := h.of_bind
  cases hget
  rcases hresult : FileClient.createNextAvailableName receiver.process isfile receiver.home
    receiver.savedir receiver.rounds saveName t.fs with ⟨fs, outcome⟩
  simp only [hresult] at hrest
  obtain ⟨u, t₃, hset, hend⟩ := hrest.of_bind
  cases hset
  cases outcome with
  | returned found =>
    obtain ⟨rfl, rfl⟩ := hend.of_pure
    exact ⟨fs, rfl, rfl⟩
  | thrown => cases hend
  | searching => cases hend

theorem of_requestInfo {info : InfoEntry} (h : Returns (FileClient.requestInfo remote name) t info t') :
    info = (remote.info t.requests name).getD {} ∧
      t' = { t with requests := t.requests ++ [.info name] } := by
  cases h
  exact ⟨rfl, rfl⟩

theorem of_sendInfobyHeader {mask : HeaderInfo} {u : Unit}
    (h : Returns (FileClient.sendInfobyHeader mask name) t u t') :
    t' = { t with requests := t.requests ++ [.head mask name] } := by
  cases h
  rfl

theorem of_report {progress : Progress} {u : Unit}
    (h : Returns (FileClient.report progress) t u t') :
    t' = { t with reports := t.reports ++ [progress] } := by
  cases h
  rfl

theorem Matches.place (h : Matches t s names control)
    (havailable : Returns (FileClient.available receiver saveName isfile) t path t')
    (name : StdString) : ∃ s', s.place receiver name saveName isfile = (s', some path) ∧
      Matches t' s' names control := by
  obtain ⟨fs, hresult, rfl⟩ := of_available havailable
  rw [← h.fs] at hresult
  unfold Fetch.place
  rw [hresult]
  exact ⟨_, rfl, rfl, h.requests, h.reports, h.names, h.control, h.stop⟩

theorem Matches.create (h : Matches t s names control)
    (havailable : Returns (FileClient.available receiver saveName true) t path t')
    (name : StdString) (next : Control) :
    Matches t' (s.create receiver name saveName next) names next := by
  obtain ⟨s', hplace, hmatches⟩ := h.place havailable name
  rw [Fetch.create, hplace]
  exact ⟨hmatches.fs, hmatches.requests, hmatches.reports, hmatches.names, rfl, hmatches.stop⟩

/-- A download that is started comes to its end with the answer of the remote. -/
theorem Matches.download (h : Matches t s names control)
    (hdownload : Returns (FileClient.downloadFile receiver remote name rename) t () t')
    (next : Control) : ∃ s', Reaches receiver remote (s.startDownload receiver name rename next) s' ∧
      Matches t' s' names next := by
  unfold FileClient.downloadFile at hdownload
  obtain ⟨path, t₁, havailable, hrest⟩ := hdownload.of_bind
  obtain ⟨s₁, hplace, hmatches⟩ := h.place havailable name
  rw [startDownload, hplace]
  by_cases hpath : path = []
  · rw [if_pos hpath] at hrest
    simp only [if_pos hpath]
    cases hrest
    exact ⟨_, .refl _, hmatches.fs, hmatches.requests,
      congrArg (· ++ [Progress.WEB_IO_ERROR]) hmatches.reports, hmatches.names, rfl, hmatches.stop⟩
  · rw [if_neg hpath] at hrest
    simp only [if_neg hpath]
    cases hrest
    let served := remote.content t₁.requests name
    let delivery : Delivery := ⟨served.header, List.replicate served.size 0, served.completed⟩
    have hserved : delivery.served = served := by
      simp [delivery, Delivery.served]
    refine ⟨_, .head (.served [] delivery) ?_ (.refl _), ?_⟩
    · refine ⟨s₁.requests, name, rfl, ?_⟩
      rw [hserved, hmatches.requests]
    · refine ⟨?_, ?_, hmatches.reports, hmatches.names, rfl, hmatches.stop⟩
      · show FileClient.received receiver path delivery.served s₁.volume.fs = _
        rw [hserved, hmatches.fs]
      · show s₁.requests ++ [Request.download name] = t₁.requests ++ [Request.download name]
        rw [hmatches.requests]

/-! ## Folders -/

/-- An answer to the last request for information. -/
theorem gives_info (h : Matches t s names control) :
    Gives remote (s.request (.info name)) (.info (remote.info t.requests name)) :=
  ⟨s.requests, name, rfl, by rw [h.requests]⟩

theorem Matches.request (h : Matches t s names control) (made : Request) (next : Control) :
    Matches { t with requests := t.requests ++ [made] } ((s.request made).goto next) names next :=
  ⟨h.fs, congrArg (· ++ [made]) h.requests, h.reports, h.names, rfl, h.stop⟩

theorem Matches.goto (h : Matches t s names control) (next : Control) :
    Matches t (s.goto next) names next :=
  ⟨h.fs, h.requests, h.reports, h.names, rfl, h.stop⟩

theorem Matches.hear (h : Matches t s names control) (name : StdString)
    (answer : Option InfoEntry) : Matches t (s.hear name answer) names control := by
  cases answer with
  | none => exact ⟨h.fs, h.requests, h.reports, h.names, h.control, h.stop⟩
  | some info => exact h

/-- A loop over the items of a listing, whose entries are looked at one after the other. -/
theorem reaches_loop {body : List StdString → InfoItem → Walk (List StdString)}
    {entry : InfoItem → Entry}
    (hbody : ∀ item files files' t t' s pending, Returns (body files item) t files' t' →
      Matches t s names (.entries folder (entry item :: pending) files) →
      ∃ s', Reaches receiver remote s s' ∧ Matches t' s' names (.entries folder pending files'))
    (items : List InfoItem) (hloop : Returns (items.foldlM body files) t files' t')
    (h : Matches t s names (.entries folder (items.map entry ++ pending) files)) :
    ∃ s', Reaches receiver remote s s' ∧ Matches t' s' names (.entries folder pending files') := by
  induction items generalizing files t s with
  | nil =>
    obtain ⟨rfl, rfl⟩ := hloop.of_pure
    exact ⟨s, .refl _, h⟩
  | cons item items ih =>
    rw [List.foldlM_cons] at hloop
    obtain ⟨files₁, t₁, hitem, hrest⟩ := hloop.of_bind
    obtain ⟨s₁, hreaches₁, hmatches₁⟩ := hbody item files files₁ t t₁ s _ hitem h
    obtain ⟨s', hreaches', hmatches'⟩ := ih hrest hmatches₁
    exact ⟨s', hreaches₁.trans hreaches', hmatches'⟩

/-- An entry that is not a folder takes one step. -/
theorem step_entry {entry : Entry} (h : Matches t s names (.entries folder (entry :: pending) files))
    (hsize : ¬ entry.size < 0) : s.step receiver .go =
      if 0 < entry.size then (s.find entry.name).goto (.entries folder pending (files ++ [entry.name]))
      else if entry.first then
        s.create receiver entry.name
          (if folder.rename = [] then entry.name
            else FileClient.renamed folder.name folder.rename entry.name)
          (.entries folder pending files)
      else s.goto (.entries folder pending files) := by
  simp only [step, go, h.control, h.stop, Bool.false_eq_true, if_false, lookAt, if_neg hsize]

theorem Matches.find (h : Matches t s names control) (name : StdString) (next : Control) :
    Matches t ((s.find name).goto next) names next :=
  ⟨h.fs, h.requests, h.reports, h.names, rfl, h.stop⟩

/-- The entries of an inner folder are looked at before the others. -/
theorem reaches_nested {first : Bool} {size : ℤ} (hsize : size < 0)
    (hwalk : Returns (FileClient.walkFolderEntry remote depth name files) t files' t')
    (h : Matches t s names (.entries folder (⟨first, name, size⟩ :: pending) files)) :
    ∃ s', Reaches receiver remote s s' ∧ Matches t' s' names (.entries folder pending files') := by
  induction depth generalizing name files files' t t' s first size pending with
  | zero => cases hwalk
  | succ depth ih =>
    unfold FileClient.walkFolderEntry at hwalk
    obtain ⟨info, t₁, hinfo, hloop⟩ := hwalk.of_bind
    obtain ⟨rfl, rfl⟩ := of_requestInfo hinfo
    have hgo : s.step receiver .go =
        (s.request (.info name)).goto (.nested folder name pending files) := by
      simp only [step, go, h.control, h.stop, Bool.false_eq_true, if_false, lookAt, if_pos hsize]
    have hnested := h.request (.info name) (.nested folder name pending files)
    have hanswer : Gives remote (s.step receiver .go) (.info (remote.info t.requests name)) := by
      rw [hgo]
      exact gives_info h
    have hmatches : Matches { t with requests := t.requests ++ [.info name] }
        ((s.step receiver .go).step receiver (.info (remote.info t.requests name))) names
        (.entries folder
          (entriesOf false name ((remote.info t.requests name).getD {}) ++ pending) files) := by
      rw [hgo]
      exact (hnested.hear name _).goto _
    have hbody : ∀ item files files' t t' s pending,
        Returns (FileClient.folderEntryStep (FileClient.walkFolderEntry remote depth) name files item)
          t files' t' →
        Matches t s names
          (.entries folder (⟨false, name ++ slash :: item.name, item.size⟩ :: pending) files) →
        ∃ s', Reaches receiver remote s s' ∧
          Matches t' s' names (.entries folder pending files') := by
      intro item files files' t t' s pending hitem hmatches
      unfold FileClient.folderEntryStep at hitem
      by_cases hneg : item.size < 0
      · rw [if_pos hneg] at hitem
        exact ih hneg hitem hmatches
      · refine ⟨s.step receiver .go, .head .go trivial (.refl _), ?_⟩
        rw [step_entry hmatches hneg]
        rw [if_neg hneg] at hitem
        by_cases hpos : 0 < item.size
        · rw [if_pos hpos] at hitem ⊢
          obtain ⟨rfl, rfl⟩ := hitem.of_pure
          exact hmatches.find _ _
        · rw [if_neg hpos] at hitem ⊢
          obtain ⟨rfl, rfl⟩ := hitem.of_pure
          exact hmatches.goto _
    obtain ⟨s', hreaches', hmatches'⟩ := reaches_loop hbody _ hloop hmatches
    exact ⟨s', .head .go trivial (.head _ hanswer hreaches'), hmatches'⟩

/-- The entries of the offered folder, where empty files are created at once. -/
theorem reaches_entries {items : List InfoItem}
    (hloop : Returns (items.foldlM (FileClient.folderStep receiver remote depth folder.name
      folder.rename) files) t files' t')
    (h : Matches t s names (.entries folder
      (items.map (fun item ↦ ⟨true, folder.name ++ slash :: item.name, item.size⟩) ++ pending) files)) :
    ∃ s', Reaches receiver remote s s' ∧ Matches t' s' names (.entries folder pending files') := by
  refine reaches_loop (fun item files files' t t' s pending hitem hmatches ↦ ?_) items hloop h
  unfold FileClient.folderStep at hitem
  by_cases hneg : item.size < 0
  · rw [if_pos hneg] at hitem
    exact reaches_nested hneg hitem hmatches
  · refine ⟨s.step receiver .go, .head .go trivial (.refl _), ?_⟩
    rw [step_entry hmatches hneg]
    rw [if_neg hneg] at hitem
    by_cases hpos : 0 < item.size
    · rw [if_pos hpos] at hitem ⊢
      obtain ⟨rfl, rfl⟩ := hitem.of_pure
      exact hmatches.find _ _
    · rw [if_neg hpos] at hitem ⊢
      rw [if_pos rfl]
      obtain ⟨path, t₁, havailable, hrest⟩ := hitem.of_bind
      obtain ⟨rfl, rfl⟩ := hrest.of_pure
      exact hmatches.create havailable _ _

/-- The files in the queue are downloaded one after the other. -/
theorem reaches_queue
    (hloop : Returns (files.foldlM (fun _ subName ↦ FileClient.downloadFile receiver remote subName
      (FileClient.renamed folder.name folder.rename subName)) ()) t () t')
    (h : Matches t s names (.queue folder files)) :
    ∃ s', Reaches receiver remote s s' ∧ Matches t' s' names .check := by
  induction files generalizing t s with
  | nil =>
    obtain ⟨-, rfl⟩ := hloop.of_pure
    refine ⟨s.step receiver .go, .head .go trivial (.refl _), ?_⟩
    simp only [step, go, h.control]
    exact h.goto _
  | cons subName files ih =>
    rw [List.foldlM_cons] at hloop
    obtain ⟨u, t₁, hdownload, hrest⟩ := hloop.of_bind
    obtain ⟨s₁, hreaches₁, hmatches₁⟩ := h.download hdownload (.queue folder files)
    have hgo : s.step receiver .go = s.startDownload receiver subName
        (FileClient.renamed folder.name folder.rename subName) (.queue folder files) := by
      simp only [step, go, h.control, h.stop, Bool.false_eq_true, if_false]
    rw [← hgo] at hreaches₁
    obtain ⟨s', hreaches', hmatches'⟩ := ih hrest hmatches₁
    exact ⟨s', .head .go trivial (hreaches₁.trans hreaches'), hmatches'⟩

theorem reaches_folder (hwalk : Returns (FileClient.walkFolder receiver remote depth name) t () t')
    (h : Matches t s names (.folder name)) :
    ∃ s', Reaches receiver remote s s' ∧ Matches t' s' names .check := by
  unfold FileClient.walkFolder at hwalk
  obtain ⟨path, t₁, havailable, hrest⟩ := hwalk.of_bind
  obtain ⟨s₁, hplace, hmatches₁⟩ := h.place havailable name
  have hgo : s.step receiver .go = s.startFolder receiver name := by
    simp only [step, go, h.control]
  by_cases hpath : path = []
  · rw [if_pos hpath] at hrest
    obtain ⟨-, rfl⟩ := hrest.of_pure
    refine ⟨s.step receiver .go, .head .go trivial (.refl _), ?_⟩
    rw [hgo, startFolder, hplace]
    simp only [if_pos hpath]
    exact hmatches₁.goto _
  · rw [if_neg hpath] at hrest
    obtain ⟨info, t₂, hinfo, hloops⟩ := hrest.of_bind
    obtain ⟨rfl, rfl⟩ := of_requestInfo hinfo
    obtain ⟨files, t₃, hentries, hqueue⟩ := hloops.of_bind
    let folder : Folder := ⟨name, if name = Path.filename path then [] else Path.filename path⟩
    have hlisting : s.step receiver .go = (s₁.request (.info name)).goto (.listing folder) := by
      rw [hgo, startFolder, hplace]
      simp only [if_neg hpath]
      rfl
    have hanswer : Gives remote (s.step receiver .go) (.info (remote.info t₁.requests name)) := by
      rw [hlisting]
      exact gives_info hmatches₁
    have hmatches₂ : Matches { t₁ with requests := t₁.requests ++ [.info name] }
        ((s.step receiver .go).step receiver (.info (remote.info t₁.requests name))) names
        (.entries folder (entriesOf true name ((remote.info t₁.requests name).getD {}) ++ []) []) := by
      rw [hlisting, List.append_nil]
      exact ((hmatches₁.request (.info name) (.listing folder)).hear name _).goto _
    obtain ⟨s₃, hreaches₃, hmatches₃⟩ : ∃ s₃, Reaches receiver remote _ s₃ ∧
        Matches t₃ s₃ names (.entries folder [] files) := reaches_entries hentries hmatches₂
    have hmatches₄ : Matches t₃ (s₃.step receiver .go) names (.queue folder files) := by
      simp only [step, go, hmatches₃.control]
      exact hmatches₃.goto _
    have hdownloads : Returns (files.foldlM (fun _ subName ↦ FileClient.downloadFile receiver remote
        subName (FileClient.renamed folder.name folder.rename subName)) ()) t₃ () t' := hqueue
    obtain ⟨s', hreaches', hmatches'⟩ := reaches_queue hdownloads hmatches₄
    refine ⟨s', .head .go trivial (.head _ hanswer (hreaches₃.trans ?_)), hmatches'⟩
    exact .head .go trivial hreaches'

/-! ## The whole walk -/

/-- The answer for an offered name. -/
theorem step_info (receiver : Receiver) (h : s.control = .info name) (answer : Option InfoEntry) :
    s.step receiver (.info answer) =
      if (answer.getD {}).size = 0 then (s.hear name answer).create receiver name name .index
      else if 0 < (answer.getD {}).size then ((s.hear name answer).find name).goto (.file name)
      else (s.hear name answer).goto (.folder name) := by
  simp only [step, onInfo, h]

theorem reaches_name (hwalk : Returns (FileClient.walkName receiver remote depth name) t () t')
    {rest : List StdString} (h : Matches t s (name :: rest) .index) :
    ∃ s', Reaches receiver remote s s' ∧ Matches t' s' rest .index := by
  unfold FileClient.walkName at hwalk
  obtain ⟨u, t₁, hhead, hwalk⟩ := hwalk.of_bind
  obtain ⟨v, t₂, hreport, hwalk⟩ := hwalk.of_bind
  obtain ⟨info, t₃, hinfo, hwalk⟩ := hwalk.of_bind
  obtain ⟨rfl, rfl⟩ := of_requestInfo hinfo
  have ht₁ := of_sendInfobyHeader hhead
  have ht₂ := of_report hreport
  let s₂ : Fetch :=
    { (s.request (.head .INFO_WEB_INDEX name)).report (.WEB_INDEX_BEGIN name) with names := rest }
  have hmatches₂ : Matches t₂ s₂ rest .index := by
    rw [ht₂, ht₁]
    exact ⟨h.fs, congrArg (· ++ [Request.head .INFO_WEB_INDEX name]) h.requests,
      congrArg (· ++ [Progress.WEB_INDEX_BEGIN name]) h.reports, rfl, h.control, h.stop⟩
  have hgo : s.step receiver .go = (s₂.request (.info name)).goto (.info name) := by
    simp only [step, go, h.control, h.names]
    rfl
  have hasked := hmatches₂.request (.info name) (.info name)
  have hanswer : Gives remote (s.step receiver .go) (.info (remote.info t₂.requests name)) := by
    rw [hgo]
    exact gives_info hmatches₂
  rw [← hgo] at hasked
  have hheard := hasked.hear name (remote.info t₂.requests name)
  have hcheck : ∀ {s : Fetch}, Matches t' s rest .check →
      Matches t' (s.step receiver .go) rest .index := by
    intro s hmatches
    simp only [step, go, hmatches.control, hmatches.stop, Bool.false_eq_true, if_false]
    exact hmatches.goto _
  have hstep := step_info receiver hasked.control (remote.info t₂.requests name)
  by_cases hzero : ((remote.info t₂.requests name).getD {}).size = 0
  · rw [if_pos hzero] at hwalk
    obtain ⟨path, t₄, havailable, hend⟩ := hwalk.of_bind
    obtain ⟨-, rfl⟩ := hend.of_pure
    refine ⟨_, .head .go trivial (.head _ hanswer (.refl _)), ?_⟩
    rw [hstep]
    simp only [if_pos hzero]
    exact hheard.create havailable name .index
  · rw [if_neg hzero] at hwalk
    by_cases hpos : 0 < ((remote.info t₂.requests name).getD {}).size
    · rw [if_pos hpos] at hwalk
      have hfile := hheard.find name (.file name)
      obtain ⟨s', hreaches', hmatches'⟩ := hfile.download hwalk .check
      refine ⟨s'.step receiver .go, .head .go trivial (.head _ hanswer ?_), hcheck hmatches'⟩
      rw [hstep]
      simp only [if_neg hzero, if_pos hpos]
      exact .head .go trivial (hreaches'.trans (.head .go trivial (.refl _)))
    · rw [if_neg hpos] at hwalk
      obtain ⟨s', hreaches', hmatches'⟩ := reaches_folder hwalk (hheard.goto (.folder name))
      refine ⟨s'.step receiver .go, .head .go trivial (.head _ hanswer ?_), hcheck hmatches'⟩
      rw [hstep]
      simp only [if_neg hzero, if_neg hpos]
      exact hreaches'.trans (.head .go trivial (.refl _))

/-- A walk that returns is a run of the thread on the answers of the remote. -/
theorem reaches_of_walkDownload {webnames : List StdString} (hrequests : t.requests = [])
    (hreports : t.reports = [])
    (hwalk : Returns (FileClient.walkDownload receiver remote depth webnames) t () t')
    {volume : Volume UInt8 UInt8} (hfs : volume.fs = t.fs) :
    ∃ events, Throughout (step receiver) (Gives remote) (start volume webnames) events ∧
      Matches t' (after receiver volume webnames events) [] .ended := by
  unfold FileClient.walkDownload at hwalk
  obtain ⟨u, t₁, hhead, hwalk⟩ := hwalk.of_bind
  obtain ⟨u, t₂, hreport, hwalk⟩ := hwalk.of_bind
  obtain ⟨u, t₃, hnames, hwalk⟩ := hwalk.of_bind
  obtain ⟨u, t₄, hfinish, hend⟩ := hwalk.of_bind
  have hstart : Matches t₂ (start volume webnames) webnames .index := by
    rw [of_report hreport, of_sendInfobyHeader hhead, hrequests, hreports]
    exact ⟨hfs, rfl, rfl, rfl, rfl, rfl⟩
  have hloop : ∀ webnames t s, Returns (webnames.foldlM
      (fun _ name ↦ FileClient.walkName receiver remote depth name) ()) t () t₃ →
      Matches t s webnames .index →
      ∃ s', Reaches receiver remote s s' ∧ Matches t₃ s' [] .index := by
    intro webnames
    induction webnames with
    | nil =>
      intro t s hnil hmatches
      obtain ⟨-, rfl⟩ := hnil.of_pure
      exact ⟨s, .refl _, hmatches⟩
    | cons name webnames ih =>
      intro t s hcons hmatches
      rw [List.foldlM_cons] at hcons
      obtain ⟨u, t₁, hname, hrest⟩ := hcons.of_bind
      obtain ⟨s₁, hreaches₁, hmatches₁⟩ := reaches_name hname hmatches
      obtain ⟨s', hreaches', hmatches'⟩ := ih t₁ s₁ hrest hmatches₁
      exact ⟨s', hreaches₁.trans hreaches', hmatches'⟩
  obtain ⟨s', hreaches, hmatches⟩ := hloop webnames _ _ hnames hstart
  obtain ⟨events, hevents, hlast⟩ :=
    hreaches.trans (.head .go trivial (.refl (s'.step receiver .go)))
  refine ⟨events, hevents, ?_⟩
  rw [after, hlast, of_report hend, of_sendInfobyHeader hfinish]
  simp only [step, go, hmatches.control, hmatches.names]
  exact ⟨hmatches.fs, congrArg (· ++ [Request.head .INFO_WEB_FINISH []]) hmatches.requests,
    congrArg (· ++ [Progress.WEB_TRANS_FINISH]) hmatches.reports, hmatches.names, rfl, hmatches.stop⟩

/-! ## What a walk leaves alone -/

/-- Listings with upright names make tidy events. -/
theorem tidy_of_gives (hremote : ∀ earlier name info, remote.info earlier name = some info →
      ∀ item ∈ info.datas, FileClient.Upright item.name) {events : List Event}
    (h : Throughout (step receiver) (Gives remote) s events) : ∀ event ∈ events, Tidy event := by
  induction events generalizing s with
  | nil => exact fun _ hmem ↦ absurd hmem List.not_mem_nil
  | cons event rest ih =>
    refine List.forall_mem_cons.mpr ⟨?_, ih h.2⟩
    cases event with
    | info answer =>
      obtain ⟨earlier, name, -, hanswer⟩ := h.1
      cases answer with
      | none => trivial
      | some info => exact hremote earlier name info hanswer.symm
    | go | served _ _ | stop => trivial

/-- A walk through upright names leaves every file that has something in it as it was. -/
theorem lookup_of_walkDownload (hfit : Fit receiver) {webnames : List StdString}
    (hnames : ∀ name ∈ webnames, FileClient.Upright name)
    (hremote : ∀ earlier name info, remote.info earlier name = some info →
      ∀ item ∈ info.datas, FileClient.Upright item.name)
    (hrequests : t.requests = []) (hreports : t.reports = [])
    (hwalk : Returns (FileClient.walkDownload receiver remote depth webnames) t () t')
    {loc : Location UInt8} {size : ℕ} (hfile : t.fs.nodes.lookup loc = some (.file (size + 1))) :
    t'.fs.nodes.lookup loc = some (.file (size + 1)) := by
  let volume : Volume UInt8 UInt8 := .ofContent 0 t.fs fun _ ↦ []
  have hfs : volume.fs = t.fs := rfl
  obtain ⟨events, hevents, hmatches⟩ := reaches_of_walkDownload hrequests hreports hwalk hfs
  have hstart : Standing receiver (start volume webnames) :=
    standing_of_control hnames trivial (by simp [start])
  have hkeeps := (advances_run hfit hstart (tidy_of_gives hremote hevents)).keeps
  rw [← hmatches.fs]
  exact (hkeeps.files loc size hfile).1

end

end DdeCooperation.Web.Fetch
