import DdeCooperation.Foundations.Runs
import DdeCooperation.Cooperation.TransferHelper

/-!
# Files are sent with the consent of both users

The helper among the user, who chooses files and a device, and the peers, who apply for
transfers of their own and answer applications. What comes from the network is posted
and runs later as a slot of the helper. The machine keeps what the helper has no field
for: what the user chose last, as which of the choices, and which peers have agreed to it.

Files are sent to a device for which the user chose them and that has agreed, provided
that the fields of the helper stay with one transfer: no files are chosen while another
choice is being worked on, no peer but the chosen one applies meanwhile, no agreement comes
but to this choice, and no connection is reported that nobody asked for.
-/

namespace DdeCooperation.Cooperation

open Foundations Session List

namespace Consent

open TransferHelper

/-- The slots that are posted to the helper. An answer carries neither an address nor what it
answers; here the address and the number of the choice are kept beside it. -/
inductive Posted where
  | transferRequest (nick ip : String)
  | reply (peer : Address) (choice : ℕ) (agree : Bool)
  | cancelTransferApply
  | connectStatus (result : ℤ) (msg : String) (isself : Bool)
  | transChanged (change : TransChange)
  | excepted (type : ℤ) (remote : Address)
  | compatJob (change : JobChange)

inductive Event where
  | sendFiles (ip devName : String) (fileList : List String)
  | action (action : Action)
  | cancelTransferApply
  | verifyTimeout
  | post (slot : Posted)
  /-- The event loop runs the slot that was posted first. -/
  | deliver

structure Transfer where
  helper : TransferHelper := {}
  posted : List Posted := []
  /-- The device and the files of the latest call that was not refused as busy. -/
  chosen : Option (Address × List String) := none
  /-- The number of such calls. -/
  choices : ℕ := 0
  /-- The agreements that have arrived since: from whom, and to which choice. -/
  agreed : List (Address × ℕ) := []

def runSlot (helper : TransferHelper) : Posted → TransferHelper × List HelperCall
  | .transferRequest nick ip => helper.notifyTransferRequest nick ip
  | .reply _ _ true => helper.accepted
  | .reply _ _ false => helper.rejected
  | .cancelTransferApply => helper.handleCancelTransferApply
  | .connectStatus result msg isself => helper.onConnectStatusChanged result msg isself
  | .transChanged change => helper.onTransChanged change
  | .excepted type remote => helper.onTransferExcepted type remote
  | .compatJob change => helper.compatTransJobStatusChanged change

/-- The helper after an event, and its calls. -/
def act (transfer : Transfer) : Event → TransferHelper × List HelperCall
  | .sendFiles ip devName fileList => transfer.helper.sendFiles ip devName fileList
  | .action action => transfer.helper.onActionTriggered action
  | .cancelTransferApply => transfer.helper.cancelTransferApply
  | .verifyTimeout => transfer.helper.onVerifyTimeout
  | .post _ => (transfer.helper, [])
  | .deliver =>
    match transfer.posted with
    | [] => (transfer.helper, [])
    | slot :: _ => runSlot transfer.helper slot

def step (transfer : Transfer) (event : Event) : Transfer :=
  let helper := (act transfer event).1
  match event with
  | .sendFiles ip _ fileList =>
    if fileList ≠ [] ∧ transfer.helper.status ≠ .idle then { transfer with helper }
    else
      { transfer with
        helper, chosen := some (ip, fileList), choices := transfer.choices + 1, agreed := [] }
  | .post slot =>
    { transfer with
      posted := transfer.posted ++ [slot]
      agreed := match slot with
        | .reply peer choice true => (peer, choice) :: transfer.agreed
        | _ => transfer.agreed }
  | .deliver => { transfer with helper, posted := transfer.posted.tail }
  | _ => { transfer with helper }

/-- Files are sent to the device they were chosen for, after it agreed to this choice. -/
def Consented (transfer : Transfer) (event : Event) : Prop :=
  ∀ fileList targetIp, .doSendFiles fileList targetIp ∈ (act transfer event).2 →
    transfer.chosen = some (targetIp, fileList) ∧ (targetIp, transfer.choices) ∈ transfer.agreed

/-- The helper waits for the connection or for the answer. -/
def Applying (helper : TransferHelper) : Prop :=
  helper.status = .connecting ∨ helper.status = .confirming

/-- What a slot may be when it runs. -/
def slotOrderly (helper : TransferHelper) : Posted → Prop
  | .transferRequest _ ip => Applying helper → ip = helper.targetDeviceIp
  | .connectStatus result _ true => result > 0 → Applying helper
  | _ => True

/-- Files are chosen while the helper is idle and no agreement is still to be handled;
while it applies, agreements and applications come from the device it applies to, agreements
to what it applies for; and a connection is reported while it applies. -/
def Undivided (transfer : Transfer) : Event → Prop
  | .sendFiles _ _ _ =>
    transfer.helper.status = .idle ∧ ∀ peer choice, .reply peer choice true ∉ transfer.posted
  | .post (.reply peer choice true) => Applying transfer.helper →
      peer = transfer.helper.targetDeviceIp ∧ choice = transfer.choices
  | .deliver => ∀ slot ∈ transfer.posted.head?, slotOrderly transfer.helper slot
  | _ => True

/-! ## The invariant -/

variable {helper : TransferHelper} {transfer : Transfer}

/-- While the helper applies, its fields are what was chosen, and every agreement on the
way is that of the chosen device to this choice. -/
def Faithful (transfer : Transfer) : Prop :=
  Applying transfer.helper →
    transfer.chosen = some (transfer.helper.targetDeviceIp, transfer.helper.readyToSendFiles) ∧
    ∀ peer choice, .reply peer choice true ∈ transfer.posted →
      peer = transfer.helper.targetDeviceIp ∧ choice = transfer.choices ∧
        (peer, choice) ∈ transfer.agreed

/-- What the helper does starts no application, keeps the fields of one that goes on, and sends
no files. -/
structure Continues (helper : TransferHelper) (result : TransferHelper × List HelperCall) :
    Prop where
  fields : Applying result.1 → Applying helper ∧
    result.1.targetDeviceIp = helper.targetDeviceIp ∧
      result.1.readyToSendFiles = helper.readyToSendFiles
  unsent : ∀ fileList targetIp, .doSendFiles fileList targetIp ∉ result.2

section

variable {result : TransferHelper × List HelperCall} {calls : List HelperCall}

theorem Continues.same (helper : TransferHelper)
    (h : ∀ fileList targetIp, .doSendFiles fileList targetIp ∉ calls) :
    Continues helper (helper, calls) := ⟨fun h ↦ ⟨h, rfl, rfl⟩, h⟩

theorem Continues.append (h : Continues helper result)
    (hcalls : ∀ fileList targetIp, .doSendFiles fileList targetIp ∉ calls) :
    Continues helper (result.1, result.2 ++ calls) :=
  ⟨h.fields, fun fileList targetIp hmem ↦
    (mem_append.mp hmem).elim (h.unsent fileList targetIp) (hcalls fileList targetIp)⟩

/-- A helper that is idle or transfers is not applying. -/
theorem not_applying (h : result.1.status = .idle ∨ result.1.status = .transfering) :
    ¬ Applying result.1 := by
  intro happlying
  rcases h with h | h <;> rcases happlying with hstatus | hstatus <;> rw [h] at hstatus <;>
    cases hstatus

theorem Continues.ended (h : result.1.status = .idle ∨ result.1.status = .transfering)
    (hunsent : ∀ fileList targetIp, .doSendFiles fileList targetIp ∉ result.2) :
    Continues helper result := ⟨fun happlying ↦ absurd happlying (not_applying h), hunsent⟩

end

theorem continues_cancelTransfer (click : Bool) : Continues helper (helper.cancelTransfer click) := by
  unfold cancelTransfer
  split
  · exact .same helper (by simp)
  · exact .ended (.inl rfl) (by cases click <;> simp)

theorem continues_onActionTriggered (action : Action) :
    Continues helper (helper.onActionTriggered action) := by
  cases action with
  | cancel => exact (continues_cancelTransfer true).append (by simp)
  | reject | close | view => exact .same helper (by simp)
  | accept => exact ⟨fun h ↦ ⟨h, rfl, rfl⟩, by simp [onActionTriggered]⟩

theorem continues_onVerifyTimeout : Continues helper helper.onVerifyTimeout := by
  unfold onVerifyTimeout
  dsimp only
  split
  · exact ⟨fun h ↦ ⟨h, rfl, rfl⟩, by simp⟩
  · exact .ended (.inl rfl) (by simp)

theorem continues_onTransChanged (change : TransChange) :
    Continues helper (helper.onTransChanged change) := by
  cases change with
  | canceled => exact continues_cancelTransfer false
  | exception reason => exact .ended (.inl rfl) (by simp [onTransChanged])
  | wholeStart => exact .ended (.inr rfl) (by simp [onTransChanged])
  | wholeFinish => exact .ended (.inl rfl) (by simp [onTransChanged])
  | other => exact .same helper (by simp)

theorem continues_compatTransJobStatusChanged (change : JobChange) :
    Continues helper (helper.compatTransJobStatusChanged change) := by
  cases change with
  | failed msg =>
    simp only [compatTransJobStatusChanged]
    split
    · exact .ended (.inl rfl) (by simp)
    · refine .same helper fun _ _ hmem ↦ ?_
      cases mem_singleton.mp hmem
  | doing => exact .ended (.inr rfl) (by simp [compatTransJobStatusChanged])
  | finished | canceled => exact .ended (.inl rfl) (by simp [compatTransJobStatusChanged])
  | other => exact .same helper (by simp)

theorem continues_onTransferExcepted (type : ℤ) (remote : Address) :
    Continues helper (helper.onTransferExcepted type remote) := by
  unfold onTransferExcepted
  split
  · exact .same helper (by simp)
  · refine (continues_cancelTransfer true).append fun fileList targetIp ↦ ?_
    split_ifs <;> simp

/-- A connection that is reported while the helper applies. -/
theorem continues_onConnectStatusChanged {result : ℤ} {msg : String} {isself : Bool}
    (h : slotOrderly helper (.connectStatus result msg isself)) :
    Continues helper (helper.onConnectStatusChanged result msg isself) := by
  unfold onConnectStatusChanged
  split
  · next hresult =>
    cases isself with
    | true => exact ⟨fun _ ↦ ⟨h hresult, rfl, rfl⟩, by simp⟩
    | false => exact .same helper (by simp)
  · split
    · exact .same helper (by simp)
    · exact .ended (.inl rfl) (by simp)

variable {slot : Posted}

/-- Among the slots only an agreement sends files, and only when the helper waits for it. -/
theorem runSlot_cases (h : slotOrderly helper slot) :
    Continues helper (runSlot helper slot) ∨
      (∃ peer choice, slot = .reply peer choice true) ∧ helper.status = .confirming ∧
        ¬ Applying (runSlot helper slot).1 ∧
        (runSlot helper slot).2 = [.doSendFiles helper.readyToSendFiles helper.targetDeviceIp] := by
  cases slot with
  | transferRequest nick ip =>
    exact .inl ⟨fun happlying ↦ ⟨happlying, h happlying, rfl⟩,
      by simp [runSlot, notifyTransferRequest]⟩
  | reply peer choice agree =>
    cases agree with
    | true =>
      simp only [runSlot, accepted]
      split
      · exact .inl (.ended (.inl rfl) (by simp))
      · next hstatus =>
        exact .inr ⟨⟨peer, choice, rfl⟩, not_not.mp hstatus, not_applying (.inr rfl), rfl⟩
    | false =>
      refine .inl (.ended (.inl rfl) fun fileList targetIp ↦ ?_)
      simp only [runSlot, rejected]
      split <;> simp
  | cancelTransferApply => exact .inl (.same helper (by simp))
  | connectStatus result msg isself => exact .inl (continues_onConnectStatusChanged h)
  | transChanged change => exact .inl (continues_onTransChanged change)
  | excepted type remote => exact .inl (continues_onTransferExcepted type remote)
  | compatJob change => exact .inl (continues_compatTransJobStatusChanged change)

/-- An event that continues what the helper does and posts no agreement. -/
theorem Faithful.continues {next : Transfer} (h : Faithful transfer)
    (hfields : Applying next.helper → Applying transfer.helper ∧
      next.helper.targetDeviceIp = transfer.helper.targetDeviceIp ∧
        next.helper.readyToSendFiles = transfer.helper.readyToSendFiles) (hchosen : next.chosen = transfer.chosen)
    (hchoices : next.choices = transfer.choices) (hagreed : next.agreed = transfer.agreed)
    (hposted : ∀ slot ∈ next.posted, slot ∈ transfer.posted) : Faithful next := by
  intro happlying
  obtain ⟨hbefore, htarget, hfiles⟩ := hfields happlying
  obtain ⟨hchoice, hreplies⟩ := h hbefore
  rw [hchosen, hchoices, hagreed, htarget, hfiles]
  exact ⟨hchoice, fun peer choice hpeer ↦ hreplies peer choice (hposted _ hpeer)⟩

theorem Faithful.sendFiles {ip devName : String} {fileList : List String}
    (hguard : Undivided transfer (.sendFiles ip devName fileList)) :
    Faithful (step transfer (.sendFiles ip devName fileList)) := by
  intro happlying
  have hidle : ¬ (fileList ≠ [] ∧ transfer.helper.status ≠ .idle) := fun h ↦ h.2 hguard.1
  simp only [step, if_neg hidle] at happlying ⊢
  refine ⟨?_, fun peer choice hpeer ↦ absurd hpeer (hguard.2 peer choice)⟩
  simp only [act, TransferHelper.sendFiles]
  split
  · rfl
  · rw [if_neg (not_not.mpr hguard.1)]

theorem Faithful.post (h : Faithful transfer) (hguard : Undivided transfer (.post slot)) :
    Faithful (step transfer (.post slot)) := by
  intro happlying
  obtain ⟨hfields, hreplies⟩ := h happlying
  refine ⟨hfields, fun peer choice hpeer ↦ ?_⟩
  rcases mem_append.mp hpeer with hold | hnew
  · obtain ⟨htarget, hchoice, hmem⟩ := hreplies peer choice hold
    refine ⟨htarget, hchoice, ?_⟩
    simp only [step]
    split
    · exact mem_cons_of_mem _ hmem
    · exact hmem
  · have hslot : Posted.reply peer choice true = slot := mem_singleton.mp hnew
    subst hslot
    exact ⟨(hguard happlying).1, (hguard happlying).2, mem_cons_self⟩

theorem Faithful.deliver (h : Faithful transfer) (hguard : Undivided transfer .deliver) :
    Faithful (step transfer .deliver) := by
  refine h.continues ?_ rfl rfl rfl fun slot hslot ↦ mem_of_mem_tail hslot
  simp only [step, act]
  split
  · exact fun happlying ↦ ⟨happlying, rfl, rfl⟩
  · next slot rest hposted =>
    rcases runSlot_cases (hguard slot (by rw [hposted]; rfl)) with hcontinues | ⟨-, -, hended, -⟩
    · exact hcontinues.fields
    · exact fun happlying ↦ absurd happlying hended

variable {event : Event}

theorem Faithful.step (h : Faithful transfer) (hguard : Undivided transfer event) :
    Faithful (step transfer event) := by
  cases event with
  | sendFiles ip devName fileList => exact Faithful.sendFiles hguard
  | action action => exact h.continues (continues_onActionTriggered action).fields rfl rfl rfl fun _ hslot ↦ hslot
  | cancelTransferApply =>
    exact h.continues (fun happlying ↦ absurd happlying (not_applying (.inl rfl))) rfl rfl rfl
      fun _ hslot ↦ hslot
  | verifyTimeout => exact h.continues continues_onVerifyTimeout.fields rfl rfl rfl fun _ hslot ↦ hslot
  | post slot => exact h.post hguard
  | deliver => exact h.deliver hguard

/-! ## Sending -/

theorem Faithful.consented (h : Faithful transfer) (hguard : Undivided transfer event) :
    Consented transfer event := by
  intro fileList targetIp hmem
  cases event with
  | sendFiles ip devName files =>
    simp only [act, TransferHelper.sendFiles] at hmem
    split at hmem
    · cases hmem
    · split at hmem <;> simp at hmem
  | action action => exact absurd hmem ((continues_onActionTriggered action).unsent _ _)
  | cancelTransferApply => simp [act, TransferHelper.cancelTransferApply] at hmem
  | verifyTimeout => exact absurd hmem (continues_onVerifyTimeout.unsent _ _)
  | post slot => cases hmem
  | deliver =>
    simp only [act] at hmem
    split at hmem
    · cases hmem
    · next slot rest hposted =>
      rcases runSlot_cases (hguard slot (by rw [hposted]; rfl)) with
        hcontinues | ⟨⟨peer, choice, rfl⟩, hstatus, -, hcalls⟩
      · exact absurd hmem (hcontinues.unsent fileList targetIp)
      · rw [hcalls, mem_singleton] at hmem
        cases hmem
        obtain ⟨hfields, hreplies⟩ := h (.inr hstatus)
        obtain ⟨rfl, rfl, hagreed⟩ := hreplies peer choice (hposted ▸ mem_cons_self)
        exact ⟨hfields, hagreed⟩

/-- In a run in which the fields of the helper stay with one transfer, files are sent only
to the device they were chosen for last, and after it agreed to that. -/
theorem consented_of_undivided (events : List Event)
    (h : Throughout step Undivided {} events) : Throughout step Consented {} events := by
  have hstart : Faithful {} := by
    intro happlying
    rcases happlying with hstatus | hstatus <;> cases hstatus
  apply Throughout.of_invariant _ _ hstart h
  · exact fun transfer event hfaithful hguard ↦ Faithful.step hfaithful hguard
  · exact fun transfer event hfaithful hguard ↦ Faithful.consented hfaithful hguard

theorem consented_of_undivided_agreed :
    Throughout step Consented {}
      [.sendFiles "10.0.0.2" "desk" ["/home/a"], .post (.connectStatus 1 "10.0.0.2" true), .deliver,
        .post (.reply "10.0.0.2" 1 true), .deliver] := by
  apply consented_of_undivided
  refine ⟨⟨rfl, fun _ _ hmem ↦ nomatch hmem⟩, trivial, fun slot hslot ↦ ?_, fun _ ↦ ⟨rfl, rfl⟩,
    fun slot hslot ↦ ?_, trivial⟩
  · rw [← Option.some.inj hslot]
    exact fun _ ↦ .inl rfl
  · rw [← Option.some.inj hslot]
    exact trivial

/-- While the helper waits for one device, another applies for a transfer of its own: the
files go to the second when the first agrees. -/
theorem not_consented_second_device :
    ¬ Throughout step Consented {}
      [.sendFiles "10.0.0.2" "desk" ["/home/a"], .post (.connectStatus 1 "10.0.0.2" true), .deliver,
        .post (.transferRequest "lamp" "10.0.0.3"), .deliver,
        .post (.reply "10.0.0.2" 1 true), .deliver] := by
  intro h
  have hsent := h.2.2.2.2.2.2.1 ["/home/a"] "10.0.0.3" mem_cons_self
  exact absurd hsent.1 (by decide)

end Consent

end DdeCooperation.Cooperation
