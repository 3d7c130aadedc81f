import DdeCooperation.Foundations.Runs
import DdeCooperation.Web.Binder
import DdeCooperation.Web.Download

/-!
# A file that is reported as received is complete

A download is `Finished` when the end of its file is reported, or when the file counts as
completed. It is `Intact` when the file holds the bytes of the body and their number is
the announced length. The handler takes every finished response for a whole one; so a
finished download is intact as long as the response is whole and arrives as the handler
expects it: first the header alone, then the body and nothing behind it, all of it before
the waiting thread begins to leave.
-/

namespace DdeCooperation.Web

open Foundations HTTPResponse Download

variable {d d' : Download}

/-- A write of so many bytes succeeds. -/
def FileAnswer.Takes (file : FileAnswer) (size : ℕ) : Prop :=
  size ≤ file.accepts ∧ file.throws = false

namespace Download

variable {d : Download} {file : FileAnswer} {buffer : List UInt8}

/-- The end of the file has been reported, or the file counts as completed. -/
def Finished (d : Download) : Prop :=
  d.completed = true ∨ d.reports.any Report.isFileEnd = true

/-- The file holds the bytes of the body, as many as the server announced. -/
def Intact (d : Download) : Prop :=
  d.announced = some d.written.length ∧ d.written = d.body

def Complete (d : Download) : Prop := d.Finished → d.Intact

/-- The header of a file arrives once, in one piece with nothing behind it, and announces a
length; the body does not exceed it and is written; the connection ends when no body is
expected, or after the transfer was cut off; nothing arrives once the waiting thread leaves;
and the file is flushed when it is closed. -/
def Orderly (d : Download) : Event → Prop
  | .received buffer _ file =>
    d.stage = .waiting ∧
    if d.response.isPendingHeader then
      let received := d.response.receiveHeader buffer
      d.opened = false ∧
        if received.1 then
          received.2.status = 200 ∧ received.2.bodyLengthProvided = true ∧
            received.2.bodySize = 0 ∧ file.opens = true
        else received.2.error = true
    else
      d.response.bodySize + buffer.length ≤ d.response.bodyLength ∧
        (file.Takes buffer.length ∨
          file.throws = true ∧ d.response.bodySize + buffer.length < d.response.bodyLength)
  | .disconnected _ => d.response.isPendingBody = true → d.canceled = true ∨ d.stop = true
  | .timeout => True
  | .stop => True
  | .tick lost => lost = 0

/-! ## What the handler leaves alone -/

/-- The part of a download that the statements speak of. -/
structure Ledger where
  completed : Bool
  ended : Bool
  opened : Bool
  stop : Bool
  written : List UInt8
  announced : Option ℕ
  body : List UInt8

def ledger (d : Download) : Ledger where
  completed := d.completed
  ended := d.reports.any Report.isFileEnd
  opened := d.opened
  stop := d.stop
  written := d.written
  announced := d.announced
  body := d.body

/-- A step that neither completes the file nor reports its end. -/
theorem finished_congr {kept : Ledger} (h : d'.ledger = kept)
    (hcompleted : kept.completed = d.ledger.completed) (hended : kept.ended = d.ledger.ended) :
    d'.Finished ↔ d.Finished := by
  have hfile : d'.completed = d.completed := (congrArg Ledger.completed h).trans hcompleted
  have hreports : d'.reports.any Report.isFileEnd = d.reports.any Report.isFileEnd :=
    (congrArg Ledger.ended h).trans hended
  rw [Finished, Finished, hfile, hreports]

theorem intact_congr (h : d'.ledger = d.ledger) : d'.Intact ↔ d.Intact := by
  have hannounced : d'.announced = d.announced := congrArg Ledger.announced h
  have hwritten : d'.written = d.written := congrArg Ledger.written h
  have hbody : d'.body = d.body := congrArg Ledger.body h
  rw [Intact, Intact, hannounced, hwritten, hbody]

theorem Complete.congr (hcomplete : d.Complete) (h : d'.ledger = d.ledger) :
    d'.Complete := fun hfinished ↦
  (intact_congr h).mpr (hcomplete ((finished_congr h rfl rfl).mp hfinished))

theorem ledger_report {entry : Report} (h : entry.isFileEnd = false) (d : Download) :
    (d.report entry).ledger = d.ledger := by
  simp [ledger, report, h]

theorem ledger_report_end {entry : Report} (h : entry.isFileEnd = true) :
    (d.report entry).ledger = { d.ledger with ended := true } := by
  simp [ledger, report, h]

/-- A handler that was stopped does nothing but reset the count. -/
theorem handle_of_stop (h : d.stop = true) (status : HandleResult) (buffer : List UInt8) (size : ℕ)
    (file : FileAnswer) : d.handle status buffer size file = (true, { d with timeoutDone := 0 }) := by
  simp [handle, h]

theorem ledger_handle_error (d : Download) (file : FileAnswer) :
    (d.handle .RES_ERROR [] 0 file).2.ledger = d.ledger := by
  unfold handle
  dsimp only
  split
  · rfl
  · exact ledger_report rfl { d with timeoutDone := ExitCount, failed := true }

/-- What neither the handler nor the file touches. -/
structure SameClient (d d' : Download) : Prop where
  response : d'.response = d.response
  canceled : d'.canceled = d.canceled
  timer : d'.timer = d.timer
  stop : d'.stop = d.stop
  stage : d'.stage = d.stage

theorem sameClient_write (d : Download) (buffer : List UInt8) (file : FileAnswer) :
    SameClient d (d.write buffer file).2 := by
  unfold write
  split <;> exact ⟨rfl, rfl, rfl, rfl, rfl⟩

theorem sameClient_handle (d : Download) (status : HandleResult) (buffer : List UInt8) (size : ℕ)
    (file : FileAnswer) : SameClient d (d.handle status buffer size file).2 := by
  unfold handle
  dsimp only
  split
  · exact ⟨rfl, rfl, rfl, rfl, rfl⟩
  · have hwrite := sameClient_write { d with timeoutDone := 0 } buffer file
    cases status with
    | RES_NOTFOUND | RES_ERROR => exact ⟨rfl, rfl, rfl, rfl, rfl⟩
    | RES_OKHEADER =>
      dsimp only
      split <;> exact ⟨rfl, rfl, rfl, rfl, rfl⟩
    | RES_BODY | RES_FINISH =>
      dsimp only
      split
      · split <;> exact { hwrite with }
      · exact ⟨rfl, rfl, rfl, rfl, rfl⟩

/-! ## What the handler does to an open file -/

theorem ledger_handle_header (hstop : d.stop = false) (hopens : file.opens = true) (size : ℕ) :
    (d.handle .RES_OKHEADER [] size file).2.ledger = { d.ledger with opened := true } := by
  have hhandle : (d.handle .RES_OKHEADER [] size file).2 =
      { d with timeoutDone := 0, opened := true }.report
        (.onWebChanged .WEB_FILE_BEGIN d.filePath size) := by
    simp [handle, hstop, hopens]
  rw [hhandle, ledger_report rfl]
  rfl

/-- A write that takes everything. -/
theorem write_of_takes (h : buffer ≠ [] → file.Takes buffer.length) :
    d.write buffer file = (true, { d with written := d.written ++ buffer }) := by
  unfold write
  split
  · next hempty => rw [hempty, List.append_nil]
  · next hne =>
    obtain ⟨haccepts, hthrows⟩ := h hne
    rw [List.take_of_length_le haccepts, hthrows]
    rfl

theorem ledger_handle_finish (hstop : d.stop = false) (hopened : d.opened = true)
    (h : buffer ≠ [] → file.Takes buffer.length) (size : ℕ) :
    (d.handle .RES_FINISH buffer size file).2.ledger =
      { d.ledger with
        completed := !d.failed
        ended := true
        written := d.written ++ buffer } := by
  have hhandle : (d.handle .RES_FINISH buffer size file).2 =
      { d with
        timeoutDone := ExitCount
        written := d.written ++ buffer
        completed := !d.failed }.report (.onWebChanged .WEB_FILE_END d.path size) := by
    simp only [handle, hstop, hopened, write_of_takes h, exit, report, if_true, Bool.false_eq_true,
      if_false]
  rw [hhandle, ledger_report_end rfl]
  rfl

variable {size : ℕ}

/-- Bytes that come between are written and the transfer goes on. -/
theorem handle_body_of_takes (hstop : d.stop = false) (hopened : d.opened = true)
    (h : buffer ≠ [] → file.Takes buffer.length) :
    (d.handle .RES_BODY buffer size file).1 = false ∧
      (d.handle .RES_BODY buffer size file).2.ledger =
        { d.ledger with written := d.written ++ buffer } := by
  by_cases hempty : buffer = []
  · have hhandle : d.handle .RES_BODY buffer size file = (false, { d with timeoutDone := 0 }) := by
      simp [handle, hstop, hempty]
    rw [hhandle, hempty, List.append_nil]
    exact ⟨rfl, rfl⟩
  · have hhandle : d.handle .RES_BODY buffer size file =
        (false, { d with timeoutDone := 0, written := d.written ++ buffer }.report
          (.onProgress size)) := by
      simp [handle, hstop, hopened, hempty, write_of_takes h]
    rw [hhandle]
    exact ⟨rfl, ledger_report rfl _⟩

/-- A write that throws cuts the transfer off. -/
theorem handle_body_of_throws (hstop : d.stop = false) (hopened : d.opened = true)
    (hempty : buffer ≠ []) (hthrows : file.throws = true) :
    (d.handle .RES_BODY buffer size file).1 = true ∧
      (d.handle .RES_BODY buffer size file).2.ledger =
        { d.ledger with written := d.written ++ buffer.take file.accepts } := by
  have hhandle : d.handle .RES_BODY buffer size file =
      (true, { d with
        timeoutDone := ExitCount
        written := d.written ++ buffer.take file.accepts
        failed := true }.report (.onWebChanged .WEB_IO_ERROR "io_error" 0)) := by
    simp [handle, hstop, hopened, hempty, write, hthrows, ioError, exit, report]
  rw [hhandle]
  exact ⟨rfl, ledger_report rfl _⟩

/-! ## The phases of a download -/

/-- The header has come and the body is on its way. -/
structure Receiving (d : Download) : Prop where
  opened : d.opened = true
  timer : d.timer = false
  error : d.response.error = false
  index : 0 < d.response.bodyIndex
  provided : d.response.bodyLengthProvided = true
  cache : d.response.cache = []
  announced : d.announced = some d.response.bodyLength
  size : d.response.bodySize = d.body.length
  written : d.canceled = true ∨ d.written = d.body

/-- Where an orderly download stands. -/
inductive Phase (d : Download) : Prop
  /-- The header is awaited and the file is not opened. -/
  | awaiting (hunfinished : ¬ d.Finished) (hopened : d.opened = false) (hwritten : d.written = [])
      (hheader : d.response.isPendingHeader = true)
  | receiving (hunfinished : ¬ d.Finished) (hreceiving : d.Receiving)
  /-- The response is over. -/
  | settled (hcomplete : d.Complete) (hopened : d.opened = true)
      (hheader : d.response.isPendingHeader = true)
  /-- The user has stopped the download before its end. -/
  | stopped (hunfinished : ¬ d.Finished) (hstop : d.stop = true)
  /-- The waiting thread has closed the file. -/
  | leaving (hcomplete : d.Complete) (hstage : d.stage ≠ .waiting)

theorem Phase.complete (h : Phase d) : d.Complete := by
  cases h with
  | awaiting hunfinished | receiving hunfinished =>
    exact fun hfinished ↦ absurd hfinished hunfinished
  | settled hcomplete => exact hcomplete
  | stopped hunfinished => exact fun hfinished ↦ absurd hfinished hunfinished
  | leaving hcomplete => exact hcomplete

/-! ## The body -/

/-- The last bytes of the body make the file whole, unless the transfer was cut off. -/
theorem Receiving.finish (h : d.Receiving) (hstop : d.stop = false) (hunfinished : ¬ d.Finished)
    (hfile : buffer ≠ [] → file.Takes buffer.length) (response : HTTPResponse)
    (hcache : response.cache = buffer)
    (hsize : d.body.length + buffer.length = d.response.bodyLength) :
    Phase { { d with response := response, body := d.body ++ buffer }.onReceivedResponse file with
      response := {} } := by
  unfold onReceivedResponse
  split
  · exact .settled (fun hfinished ↦ absurd hfinished hunfinished) h.opened rfl
  · next hcanceled =>
    have hwritten : d.written = d.body := h.written.resolve_left hcanceled
    have hledger := ledger_handle_finish
      (d := { d with response := response, body := d.body ++ buffer })
      hstop h.opened hfile buffer.length
    rw [hcache]
    have hopened := congrArg Ledger.opened hledger
    have hfile := congrArg Ledger.written hledger
    have hbody := congrArg Ledger.body hledger
    have hannounced := congrArg Ledger.announced hledger
    refine .settled (fun _ ↦ ?_) (hopened.trans h.opened) rfl
    have hwhole : d.announced = some (d.written ++ buffer).length := by
      rw [h.announced, hwritten, List.length_append, hsize]
    refine ⟨hannounced.trans (hwhole.trans ?_), ?_⟩
    · exact congrArg (fun bytes ↦ some bytes.length) hfile.symm
    · calc _ = d.written ++ buffer := hfile
        _ = d.body ++ buffer := by rw [hwritten]
        _ = _ := hbody.symm

/-- What the handler does with bytes in between. -/
theorem handle_body (hstop : d.stop = false) (hopened : d.opened = true)
    (hfile : buffer ≠ [] → file.Takes buffer.length ∨ file.throws = true) (size : ℕ) :
    ∃ written, (d.handle .RES_BODY buffer size file).2.ledger =
        { d.ledger with written := written } ∧
      ((d.handle .RES_BODY buffer size file).1 = true ∨ written = d.written ++ buffer) := by
  by_cases htakes : buffer ≠ [] → file.Takes buffer.length
  · obtain ⟨-, hledger⟩ := handle_body_of_takes hstop hopened htakes
    exact ⟨_, hledger, .inr rfl⟩
  · obtain ⟨hempty, hfails⟩ := Classical.not_imp.mp htakes
    have hthrows : file.throws = true := (hfile hempty).resolve_left hfails
    obtain ⟨hcancel, hledger⟩ := handle_body_of_throws hstop hopened hempty hthrows
    exact ⟨_, hledger, .inl hcancel⟩

/-- Bytes in between leave the response unfinished. -/
theorem Receiving.more (h : d.Receiving) (hstop : d.stop = false) (hunfinished : ¬ d.Finished)
    (hfile : buffer ≠ [] → file.Takes buffer.length ∨ file.throws = true) :
    Phase ({ d with
      response := { d.response with
        cache := buffer, cacheSize := buffer.length
        bodySize := d.response.bodySize + buffer.length }
      body := d.body ++ buffer }.onReceivedResponseBody file) := by
  let next : Download := { d with
    response := { d.response with
      cache := buffer, cacheSize := buffer.length
      bodySize := d.response.bodySize + buffer.length }
    body := d.body ++ buffer }
  have hclient := sameClient_handle next .RES_BODY buffer buffer.length file
  obtain ⟨written, hledger, hwritten⟩ := handle_body (d := next) hstop h.opened hfile buffer.length
  refine .receiving ?_ ?_
  · exact fun hfinished ↦ hunfinished ((finished_congr hledger rfl rfl).mp hfinished)
  · have hresponse : (next.onReceivedResponseBody file).response = next.response.clearCache :=
      congrArg clearCache hclient.response
    have hcanceled : (next.onReceivedResponseBody file).canceled =
        (next.canceled || (next.handle .RES_BODY buffer buffer.length file).1) :=
      congrArg (· || _) hclient.canceled
    have hbody : (next.onReceivedResponseBody file).body = d.body ++ buffer :=
      congrArg Ledger.body hledger
    constructor
    case opened => exact (congrArg Ledger.opened hledger).trans h.opened
    case timer => exact hclient.timer.trans h.timer
    case error => rw [hresponse]; exact h.error
    case index => rw [hresponse]; exact h.index
    case provided => rw [hresponse]; exact h.provided
    case cache => rw [hresponse]; rfl
    case announced =>
      rw [hresponse]
      exact (congrArg Ledger.announced hledger).trans h.announced
    case size =>
      rw [hresponse, hbody, List.length_append, ← h.size]
      rfl
    case written =>
      rw [hcanceled, hbody]
      have hfile : (next.onReceivedResponseBody file).written = written :=
        congrArg Ledger.written hledger
      rw [hfile, Bool.or_eq_true]
      rcases h.written with hcut | hsame
      · exact .inl (.inl hcut)
      · refine hwritten.imp .inr fun heq ↦ ?_
        rw [heq, ← hsame]

theorem Receiving.receiveBody (buffer : List UInt8) (beyond : Bool) (h : d.Receiving)
    (hstop : d.stop = false) (hunfinished : ¬ d.Finished)
    (hfits : d.response.bodySize + buffer.length ≤ d.response.bodyLength)
    (hfile : buffer ≠ [] → file.Takes buffer.length ∨
      file.throws = true ∧ d.response.bodySize + buffer.length < d.response.bodyLength) :
    Phase (d.receiveBody buffer beyond file) := by
  unfold Download.receiveBody
  rw [receiveBody_of_provided h.provided h.cache]
  by_cases hlast : d.response.bodyLength ≤ d.response.bodySize + buffer.length
  · rw [if_pos hlast]
    have hall : d.body.length + buffer.length = d.response.bodyLength := by
      rw [← h.size]
      exact Nat.le_antisymm hfits hlast
    have htakes : buffer ≠ [] → file.Takes buffer.length := fun hne ↦
      (hfile hne).resolve_right fun hthrows ↦ absurd hthrows.2 (Nat.not_lt.mpr hlast)
    exact h.finish hstop hunfinished htakes _ rfl hall
  · rw [if_neg hlast]
    exact h.more hstop hunfinished fun hne ↦ (hfile hne).imp_right And.left

/-! ## The header -/

/-- A header alone, with a length, for a file that can be opened. -/
theorem receiving_header (hstop : d.stop = false) (hunfinished : ¬ d.Finished)
    (hwritten : d.written = []) (hopens : file.opens = true) (hstatus : d.response.status = 200)
    (herror : d.response.error = false) (hindex : 0 < d.response.bodyIndex)
    (hprovided : d.response.bodyLengthProvided = true) (hsize : d.response.bodySize = 0)
    (hbody : d.response.cache.drop d.response.bodyIndex = []) :
    ¬ (d.onReceivedResponseHeader file).Finished ∧ (d.onReceivedResponseHeader file).Receiving ∧
      (d.onReceivedResponseHeader file).response = d.response.clearCache ∧
      (d.onReceivedResponseHeader file).stop = false := by
  let next : Download := { d.setPromise .value with
    timer := false
    announced := some d.response.bodyLength
    body := [] }
  have hheader : d.onReceivedResponseHeader file =
      { (next.handle .RES_OKHEADER [] d.response.bodyLength file).2 with
        response := (next.handle .RES_OKHEADER [] d.response.bodyLength
          file).2.response.clearCache } := by
    simp only [onReceivedResponseHeader, setPromise, hstatus, hprovided, hbody, if_true, next]
  have hclient := sameClient_handle next .RES_OKHEADER [] d.response.bodyLength file
  have hledger := ledger_handle_header (d := next) hstop hopens d.response.bodyLength
  have hresponse : (d.onReceivedResponseHeader file).response = d.response.clearCache := by
    rw [hheader]
    exact congrArg clearCache hclient.response
  refine ⟨?_, ?_, hresponse, ?_⟩
  · rw [hheader]
    exact fun hfinished ↦ hunfinished ((finished_congr hledger rfl rfl).mp hfinished)
  · constructor
    case opened =>
      rw [hheader]
      exact congrArg Ledger.opened hledger
    case timer =>
      rw [hheader]
      exact hclient.timer
    case error => rw [hresponse]; exact herror
    case index => rw [hresponse]; exact hindex
    case provided => rw [hresponse]; exact hprovided
    case cache => rw [hresponse]; rfl
    case announced =>
      rw [hresponse, hheader]
      exact congrArg Ledger.announced hledger
    case size =>
      rw [hresponse, hheader]
      exact hsize.trans (congrArg (fun ledger ↦ ledger.body.length) hledger).symm
    case written =>
      rw [hheader]
      refine .inr ((congrArg Ledger.written hledger).trans ?_)
      exact hwritten.trans (congrArg Ledger.body hledger).symm
  · rw [hheader]
    exact hclient.stop.trans hstop

theorem Phase.received_header (hunfinished : ¬ d.Finished) (hstop : d.stop = false)
    (hopened : d.opened = false) (hwritten : d.written = [])
    (hpending : d.response.isPendingHeader = true) (beyond : Bool)
    (hguard : d.Orderly (.received buffer beyond file)) :
    Phase (d.onReceived buffer beyond file) := by
  have hfound := @receiveHeader_found d.response buffer
  have hsound : d.response.error = false := by
    simp only [isPendingHeader, Bool.and_eq_true, Bool.not_eq_true'] at hpending
    exact hpending.1
  simp only [Orderly, if_pos hpending] at hguard
  unfold onReceived
  rw [if_pos hpending]
  generalize d.response.receiveHeader buffer = received at hfound hguard ⊢
  obtain ⟨done, response⟩ := received
  cases done with
  | true =>
    obtain ⟨herror, hindex, hsize⟩ := hfound rfl
    obtain ⟨-, -, hstatus, hprovided, hempty, hopens⟩ := hguard
    have hclean : response.error = false := herror.trans hsound
    obtain ⟨hopen, hreceiving, hkept, hgoes⟩ := receiving_header
      (d := { d with response := response }) hstop hunfinished hwritten hopens hstatus hclean hindex
      hprovided hempty (List.eq_nil_of_length_eq_zero (hsize.symm.trans hempty))
    have hfits : (onReceivedResponseHeader file { d with response := response }).response.bodySize ≤
        (onReceivedResponseHeader file { d with response := response }).response.bodyLength := by
      rw [hkept]
      exact Nat.le_trans (le_of_eq hempty) (Nat.zero_le _)
    dsimp only
    rw [if_pos rfl, if_neg]
    · exact hreceiving.receiveBody [] beyond hgoes hopen hfits fun hne ↦ absurd rfl hne
    · rw [hreceiving.error]
      exact Bool.false_ne_true
  | false =>
    have herror : response.error = true := hguard.2.2
    dsimp only
    rw [if_neg Bool.false_ne_true, if_pos herror]
    have hledger := ledger_handle_error { d with response := response } {}
    refine .awaiting ?_ ?_ ?_ rfl
    · exact fun hfinished ↦ hunfinished ((finished_congr hledger rfl rfl).mp hfinished)
    · exact (congrArg Ledger.opened hledger).trans hopened
    · exact (congrArg Ledger.written hledger).trans hwritten

/-! ## A download that was stopped -/

/-- Nothing is reported and nothing is completed. -/
structure Inert (d d' : Download) : Prop where
  completed : d'.completed = d.completed
  reports : d'.reports = d.reports
  stop : d'.stop = d.stop

theorem Inert.refl (d : Download) : Inert d d := ⟨rfl, rfl, rfl⟩

theorem Inert.trans {first second third : Download} (h : Inert first second)
    (h' : Inert second third) : Inert first third :=
  ⟨h'.completed.trans h.completed, h'.reports.trans h.reports, h'.stop.trans h.stop⟩

theorem Inert.stopped (h : Inert d d') (hunfinished : ¬ d.Finished) (hstop : d.stop = true) :
    Phase d' := by
  refine .stopped ?_ (h.stop.trans hstop)
  rw [Finished, h.completed, h.reports]
  exact hunfinished

theorem inert_onReceivedResponse (hstop : d.stop = true) (file : FileAnswer) :
    Inert d (d.onReceivedResponse file) := by
  unfold onReceivedResponse
  split
  · exact .refl d
  · rw [handle_of_stop hstop]
    exact ⟨rfl, rfl, rfl⟩

theorem inert_onReceivedResponseBody (hstop : d.stop = true) (file : FileAnswer) :
    Inert d (d.onReceivedResponseBody file) := by
  unfold onReceivedResponseBody
  rw [handle_of_stop hstop]
  exact ⟨rfl, rfl, rfl⟩

variable {beyond : Bool}

variable (hstop : d.stop = true)

include hstop

theorem inert_receiveBody : Inert d (d.receiveBody buffer beyond file) := by
  unfold receiveBody
  generalize d.response.receiveBody buffer beyond = received
  obtain ⟨done, response⟩ := received
  dsimp only
  split
  · have hinert := inert_onReceivedResponse
      (d := { d with response := response, body := d.body ++ buffer }) hstop file
    exact { hinert with }
  · have hinert := inert_onReceivedResponseBody
      (d := { d with response := response, body := d.body ++ buffer }) hstop file
    exact ⟨hinert.completed, hinert.reports, hinert.stop⟩

theorem inert_onReceivedResponseHeader (file : FileAnswer) :
    Inert d (d.onReceivedResponseHeader file) := by
  unfold onReceivedResponseHeader
  dsimp only
  rw [handle_of_stop (d := { d.setPromise .value with
    timer := false
    announced := if d.response.bodyLengthProvided then some d.response.bodyLength else none
    body := d.response.cache.drop d.response.bodyIndex }) hstop]
  exact ⟨rfl, rfl, rfl⟩

theorem inert_onReceivedResponseError : Inert d d.onReceivedResponseError := by
  unfold onReceivedResponseError
  rw [handle_of_stop hstop]
  exact ⟨rfl, rfl, rfl⟩

theorem inert_onReceived (buffer : List UInt8) (beyond : Bool) (file : FileAnswer) :
    Inert d (d.onReceived buffer beyond file) := by
  unfold onReceived
  split
  · generalize d.response.receiveHeader buffer = received
    obtain ⟨done, response⟩ := received
    have hheader : Inert d (if done then
        { d with response := response }.onReceivedResponseHeader file
        else { d with response := response }) := by
      split
      · have hset : Inert d { d with response := response } := ⟨rfl, rfl, rfl⟩
        exact hset.trans (inert_onReceivedResponseHeader (d := { d with response := response }) hstop file)
      · exact ⟨rfl, rfl, rfl⟩
    dsimp only
    generalize (if done = true then _ else _ : Download) = next at hheader ⊢
    have hnext : next.stop = true := hheader.stop.trans hstop
    split
    · have herror := hheader.trans (inert_onReceivedResponseError hnext)
      exact { herror with }
    · exact hheader.trans (inert_receiveBody hnext)
  · exact inert_receiveBody hstop

theorem inert_onDisconnected (file : FileAnswer) : Inert d (d.onDisconnected file) := by
  unfold onDisconnected
  dsimp only
  split
  · have hinert := inert_onReceivedResponse (d := { d with timer := false }) hstop file
    exact ⟨hinert.completed, hinert.reports, hinert.stop⟩
  · exact ⟨rfl, rfl, rfl⟩

omit hstop

/-! ## Steps and runs -/

/-- A step that touches neither the file nor the response. -/
theorem Phase.congr (h : Phase d) (hledger : d'.ledger = d.ledger)
    (hresponse : d'.response = d.response) (hcanceled : d'.canceled = d.canceled)
    (hstage : d'.stage = d.stage) (htimer : d.timer = false → d'.timer = false) :
    Phase d' := by
  have hopened : d'.opened = d.opened := congrArg Ledger.opened hledger
  have hwritten : d'.written = d.written := congrArg Ledger.written hledger
  have hbody : d'.body = d.body := congrArg Ledger.body hledger
  have hunchanged : ¬ d.Finished → ¬ d'.Finished := fun hunfinished hfinished ↦
    hunfinished ((finished_congr hledger rfl rfl).mp hfinished)
  cases h with
  | awaiting hunfinished hclosed hempty hheader =>
    exact .awaiting (hunchanged hunfinished) (hopened.trans hclosed) (hwritten.trans hempty)
      (by rw [hresponse]; exact hheader)
  | receiving hunfinished hreceiving =>
    refine .receiving (hunchanged hunfinished) ?_
    constructor
    case opened => exact hopened.trans hreceiving.opened
    case timer => exact htimer hreceiving.timer
    case error => rw [hresponse]; exact hreceiving.error
    case index => rw [hresponse]; exact hreceiving.index
    case provided => rw [hresponse]; exact hreceiving.provided
    case cache => rw [hresponse]; exact hreceiving.cache
    case announced =>
      rw [hresponse]
      exact (congrArg Ledger.announced hledger).trans hreceiving.announced
    case size => rw [hresponse, hbody]; exact hreceiving.size
    case written => rw [hcanceled, hwritten, hbody]; exact hreceiving.written
  | settled hcomplete hopen hheader =>
    exact .settled (hcomplete.congr hledger) (hopened.trans hopen) (by rw [hresponse]; exact hheader)
  | stopped hunfinished hstop =>
    exact .stopped (hunchanged hunfinished) ((congrArg Ledger.stop hledger).trans hstop)
  | leaving hcomplete hleft => exact .leaving (hcomplete.congr hledger) (hstage ▸ hleft)

theorem Phase.received {beyond : Bool} (h : Phase d)
    (hguard : d.Orderly (.received buffer beyond file)) :
    Phase (d.onReceived buffer beyond file) := by
  have hinert := fun hstop ↦ inert_onReceived (d := d) hstop buffer beyond file
  cases h with
  | awaiting hunfinished hopened hwritten hheader =>
    cases hstop : d.stop with
    | true => exact (hinert hstop).stopped hunfinished hstop
    | false => exact .received_header hunfinished hstop hopened hwritten hheader beyond hguard
  | receiving hunfinished hreceiving =>
    cases hstop : d.stop with
    | true => exact (hinert hstop).stopped hunfinished hstop
    | false =>
      have hheader : d.response.isPendingHeader = false := by
        simp [isPendingHeader, Nat.ne_of_gt hreceiving.index]
      simp only [Orderly, hheader, Bool.false_eq_true, if_false] at hguard
      unfold onReceived
      rw [if_neg (by rw [hheader]; exact Bool.false_ne_true)]
      exact hreceiving.receiveBody buffer beyond hstop hunfinished hguard.2.1
        fun _ ↦ hguard.2.2
  | settled hcomplete hopened hheader =>
    -- this would be the header of a second response, which the condition rules out
    simp only [Orderly, hheader, if_true] at hguard
    exact absurd (hopened.symm.trans hguard.2.1) (by decide)
  | stopped hunfinished hstop => exact (hinert hstop).stopped hunfinished hstop
  | leaving hcomplete hstage => exact absurd hguard.1 hstage

/-- A connection that ends between responses changes nothing but the timer and the future. -/
theorem Phase.disconnected_idle (h : Phase d) (hidle : d.response.isPendingBody = false)
    (file : FileAnswer) : Phase (d.onDisconnected file) := by
  unfold onDisconnected
  dsimp only
  rw [hidle, if_neg Bool.false_ne_true]
  exact h.congr rfl rfl rfl rfl fun _ ↦ rfl

/-- After the transfer was cut off, what is left of the response is not passed on. -/
theorem kept_onDisconnected (hcut : d.canceled = true ∨ d.stop = true) (file : FileAnswer) :
    (d.onDisconnected file).ledger = d.ledger ∧ (d.onDisconnected file).stage = d.stage := by
  have hkept : ∃ count response, { d with timer := false }.onReceivedResponse file =
      { d with timer := false, timeoutDone := count, response := response } := by
    unfold onReceivedResponse
    split
    · exact ⟨_, _, rfl⟩
    · next hcanceled =>
      have hstop : d.stop = true := hcut.resolve_left hcanceled
      rw [handle_of_stop (d := { d with timer := false }) hstop]
      exact ⟨_, _, rfl⟩
  obtain ⟨count, response, hresponse⟩ := hkept
  unfold onDisconnected
  dsimp only
  rw [hresponse]
  split <;> exact ⟨rfl, rfl⟩

theorem isPendingBody_of_header {response : HTTPResponse}
    (h : response.isPendingHeader = true) : response.isPendingBody = false := by
  simp only [isPendingHeader, Bool.and_eq_true, decide_eq_true_eq] at h
  simp [isPendingBody, h.2]

theorem Phase.disconnected (h : Phase d) (hguard : d.Orderly (.disconnected file)) :
    Phase (d.onDisconnected file) := by
  cases hpending : d.response.isPendingBody with
  | false => exact h.disconnected_idle hpending file
  | true =>
    obtain ⟨hledger, hstage⟩ := kept_onDisconnected (hguard hpending) file
    have hheader : d.response.isPendingHeader = true → Phase (d.onDisconnected file) := fun h ↦
      absurd ((isPendingBody_of_header h).symm.trans hpending) (by decide)
    cases h with
    | awaiting hunfinished hopened hwritten hawaits => exact hheader hawaits
    | receiving hunfinished hreceiving =>
      have hcomplete : (d.onDisconnected file).Complete := fun hfinished ↦
        absurd ((finished_congr hledger rfl rfl).mp hfinished) hunfinished
      refine .settled hcomplete ((congrArg Ledger.opened hledger).trans hreceiving.opened) ?_
      simp only [onDisconnected, hpending, if_true]
      rfl
    | settled hcomplete hopened hawaits => exact hheader hawaits
    | stopped hunfinished hstop =>
      exact (inert_onDisconnected hstop file).stopped hunfinished hstop
    | leaving hcomplete hleft => exact .leaving (hcomplete.congr hledger) (hstage ▸ hleft)

theorem Phase.timeout (h : Phase d) : Phase d.onTimeout := by
  unfold onTimeout
  split
  · next htimer =>
    have hledger := ledger_handle_error { d with timer := false } {}
    have hunchanged : ∀ d' : Download, d'.ledger = d.ledger → ¬ d.Finished → ¬ d'.Finished :=
      fun d' hsame hunfinished hfinished ↦ hunfinished ((finished_congr hsame rfl rfl).mp hfinished)
    have hclient := sameClient_handle { d with timer := false } .RES_ERROR [] 0 {}
    cases h with
    | awaiting hunfinished hopened hwritten hheader =>
      refine .awaiting (hunchanged _ hledger hunfinished) ?_ ?_ rfl
      · exact (congrArg Ledger.opened hledger).trans hopened
      · exact (congrArg Ledger.written hledger).trans hwritten
    | receiving hunfinished hreceiving =>
      exact absurd (hreceiving.timer.symm.trans htimer) (by decide)
    | settled hcomplete hopened hheader =>
      exact .settled (hcomplete.congr hledger) ((congrArg Ledger.opened hledger).trans hopened) rfl
    | stopped hunfinished hstop =>
      exact .stopped (hunchanged _ hledger hunfinished) (hclient.stop.trans hstop)
    | leaving hcomplete hleft =>
      exact .leaving (hcomplete.congr hledger) fun hstage ↦ hleft (hclient.stage.symm.trans hstage)
  · exact h

theorem Phase.stop (h : Phase d) : Phase { d with stop := true } := by
  cases h with
  | awaiting hunfinished | receiving hunfinished => exact .stopped hunfinished rfl
  | settled hcomplete hopened hheader => exact .settled hcomplete hopened hheader
  | stopped hunfinished => exact .stopped hunfinished rfl
  | leaving hcomplete hstage => exact .leaving hcomplete hstage

/-- A file that is closed with all its bytes is as it was. -/
theorem ledger_close (d : Download) : (d.close 0).ledger = { d.ledger with opened := false } := by
  unfold Download.close
  split
  · rw [Nat.sub_zero, List.take_length]
    rfl
  · next hclosed =>
    have hopened : d.opened = false := by simpa using hclosed
    rw [ledger, hopened]

theorem Complete.close (h : d.Complete) : (d.close 0).Complete := by
  have hledger := ledger_close d
  have hannounced : (d.close 0).announced = d.announced := congrArg Ledger.announced hledger
  have hwritten : (d.close 0).written = d.written := congrArg Ledger.written hledger
  have hbody : (d.close 0).body = d.body := congrArg Ledger.body hledger
  intro hfinished
  rw [Intact, hannounced, hwritten, hbody]
  exact h ((finished_congr hledger rfl rfl).mp hfinished)

theorem stage_close (d : Download) (lost : ℕ) : (d.close lost).stage = d.stage := by
  unfold Download.close
  split <;> rfl

theorem Phase.tick (h : Phase d) : Phase (d.tick 0) := by
  unfold Download.tick
  split
  · split
    · exact h
    · exact h.congr rfl rfl rfl rfl id
    · refine h.congr ?_ rfl rfl rfl id
      exact ledger_report rfl { d with waits := true, timeoutDone := ExitCount }
  · split
    · split
      · exact .leaving h.complete.close Stage.noConfusion
      · exact h.congr rfl rfl rfl rfl id
    · exact .leaving h.complete Stage.noConfusion
    · next hstage =>
      refine .leaving h.complete.close ?_
      rw [stage_close, hstage]
      exact Stage.noConfusion

theorem Phase.step (d : Download) (event : Event) (h : Phase d) (hguard : d.Orderly event) :
    Phase (d.step event) := by
  unfold Download.step
  split
  · exact h
  · cases event with
    | received buffer beyond file => exact h.received hguard
    | disconnected file => exact h.disconnected hguard
    | timeout => exact h.timeout
    | stop => exact h.stop
    | tick lost =>
      have hflushed : lost = 0 := hguard
      rw [hflushed]
      exact h.tick

/-- In every run of orderly events, a download whose end is reported, or whose file counts as
completed, has written the body that the server announced. The client may hold any response
that awaits a header. -/
theorem complete_of_orderly (path filePath : String) (canceled : Bool) (response : HTTPResponse)
    (hresponse : response.isPendingHeader = true) (events : List Event)
    (horderly : Throughout step Orderly
      { path := path, filePath := filePath, canceled := canceled, response := response } events) :
    (events.foldl step
      { path := path, filePath := filePath, canceled := canceled, response := response }).Complete := by
  have hphase : Phase (events.foldl step
      { path := path, filePath := filePath, canceled := canceled, response := response }) := by
    apply Throughout.invariant_foldl Phase.step _ horderly
    refine .awaiting ?_ rfl rfl hresponse
    rintro (hcompleted | hreported)
    · cases hcompleted
    · cases hreported
  exact hphase.complete

/-- The header of a file of three bytes. -/
def threeBytes : List UInt8 := ascii "HTTP/1.1 200 OK\r\nContent-Length: 3\r\n\r\n"

theorem complete_of_orderly_three_bytes :
    ([.received threeBytes false {}, .received [97, 98] false { accepts := 2 },
      .received [99] false { accepts := 1 }, .disconnected {}].foldl step {}).Complete := by
  apply complete_of_orderly "" "" false {} rfl
  have hheader : Orderly {} (.received threeBytes false {}) := by
    refine ⟨rfl, rfl, ?_⟩
    decide +kernel
  refine ⟨hheader, ⟨?_, ?_, .inl ⟨?_, rfl⟩⟩, ⟨?_, ?_, .inl ⟨?_, rfl⟩⟩, fun hpending ↦ ?_, trivial⟩
  any_goals decide +kernel
  exact absurd hpending (by decide +kernel)

/-- The connection drops after two of three bytes: the end of the file is reported. -/
theorem not_complete_dropped :
    ¬ ([.received threeBytes false {}, .received [97, 98] false { accepts := 2 },
      .disconnected {}].foldl step {}).Complete := by
  intro hcomplete
  have hintact := hcomplete (.inl (by decide +kernel))
  exact absurd hintact.1 (by decide +kernel)

end Download

end DdeCooperation.Web
