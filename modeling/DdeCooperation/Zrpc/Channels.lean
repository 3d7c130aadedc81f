import DdeCooperation.Foundations.Runs
import DdeCooperation.Qt.Values

/-!
# Channels and the connections they use

A channel is made for an address. A short channel makes a client of its own for every
call. The long channels of a process share one client, which the first of them to make a
call creates for its own address, and which goes away with the first of them that is
destroyed.

The senders of the daemon keep one channel for every target, in one table for messages
and in one for transfers. Everything that the senders do is made of three operations: a
channel is constructed, called, or destroyed. What the operations keep is that the client
of the process was made for a long channel that is alive. So as long as all long channels
that are alive at a time have one address, calls go where they should and nothing is
closed that another needs. This is also necessary: of two long channels for different
addresses, one transmits to the address of the other as soon as both have been called.
-/

namespace DdeCooperation.Zrpc

open Foundations Qt Function

structure NetAddress where
  ip : QString
  port : ℕ
deriving DecidableEq

structure TcpClient where
  peerAddr : NetAddress
  connected : Bool := false
deriving DecidableEq

structure ZRpcChannel where
  addr : NetAddress
  isLongConnect : Bool
deriving DecidableEq

structure RemoteServiceSender where
  targetIp : QString
  targetPort : ℕ
  isTrans : Bool
deriving DecidableEq

/-- What a channel does to the network. -/
inductive Effect where
  /-- A request of the channel is transmitted to an address. -/
  | transmitted (channel : ZRpcChannel) (addr : NetAddress)
  /-- The end of the channel closes a connection to an address. -/
  | closed (channel : ZRpcChannel) (addr : NetAddress)
deriving DecidableEq

/-- The address is that of the channel. -/
def Effect.Proper : Effect → Prop
  | .transmitted channel addr => addr = channel.addr
  | .closed channel addr => addr = channel.addr

instance (effect : Effect) : Decidable effect.Proper := by
  cases effect <;> unfold Effect.Proper <;> infer_instance

/-- How a call ends, when there is a connection. -/
inductive Ended where
  | unserialized
  | unencoded
  /-- The peer closes the connection before it has answered. -/
  | unanswered
  /-- The answer cannot be read or reports an error. -/
  | refused
  | answered
deriving DecidableEq

/-- Whether the request has been sent. -/
def Ended.sent : Ended → Bool
  | .unserialized | .unencoded => false
  | .unanswered | .refused | .answered => true

/-- Whether the controller has been given an error. -/
def Ended.failed : Ended → Bool
  | .unserialized | .answered => false
  | .unencoded | .unanswered | .refused => true

/-- What the network and the peer make of a call. -/
structure Outcome where
  connects : Bool
  ended : Ended
deriving DecidableEq

/-- A call over a connection that works. -/
def Outcome.success : Outcome := ⟨true, .answered⟩

/-- The client after a call that found it connected or connected it. -/
def TcpClient.afterCall (outcome : Outcome) (client : TcpClient) : TcpClient :=
  { client with connected := decide (outcome.ended ≠ .unanswered) }

/-- The channels and senders of the process. -/
structure Process where
  /-- `m_clientlong`. -/
  clientlong : Option TcpClient := none
  channels : ℕ → Option ZRpcChannel := fun _ ↦ none
  nextChannel : ℕ := 0
  /-- `_executor_ps` and `_executor_long_ps`: the channel of the executor of a target. -/
  executors : QHash QString ℕ := ∅
  longExecutors : QHash QString ℕ := ∅
  senders : ℕ → Option RemoteServiceSender := fun _ ↦ none

namespace Process

/-! ## Channels -/

def construct (channel : ZRpcChannel) (process : Process) : Process :=
  { process with
    channels := update process.channels process.nextChannel (some channel)
    nextChannel := process.nextChannel + 1 }

/-- The client that a call of the channel uses. -/
def clientFor (channel : ZRpcChannel) (process : Process) : TcpClient :=
  if channel.isLongConnect then process.clientlong.getD { peerAddr := channel.addr }
  else { peerAddr := channel.addr }

/-- The client of a long channel stays with the process. -/
def keepClient (channel : ZRpcChannel) (client : TcpClient) (process : Process) : Process :=
  if channel.isLongConnect then { process with clientlong := some client } else process

/-- `CallMethod`: whether the controller then has an error. -/
def callMethod (n : ℕ) (outcome : Outcome) (process : Process) : Process × List Effect × Bool :=
  match process.channels n with
  | none => (process, [], false)
  | some channel =>
    let client := process.clientFor channel
    if client.connected ∨ outcome.connects then
      (process.keepClient channel (client.afterCall outcome),
        if outcome.ended.sent then [.transmitted channel client.peerAddr] else [],
        outcome.ended.failed)
    else (process.keepClient channel client, [], true)

/-- `~ZRpcChannel`. The client of the process is closed with its last owner. -/
def destroy (n : ℕ) (process : Process) : Process × List Effect :=
  match process.channels n with
  | none => (process, [])
  | some channel =>
    let process := { process with channels := update process.channels n none }
    if channel.isLongConnect then
      ({ process with clientlong := none },
        match process.clientlong with
        | some client => if client.connected then [.closed channel client.peerAddr] else []
        | none => [])
    else (process, [])

/-! ## Senders -/

/-- The table that a sender uses. -/
def executorsFor (isTrans : Bool) (process : Process) : QHash QString ℕ :=
  if isTrans then process.longExecutors else process.executors

def setExecutors (isTrans : Bool) (table : QHash QString ℕ) (process : Process) : Process :=
  if isTrans then { process with longExecutors := table } else { process with executors := table }

/-- `createExecutor` and `createTransExecutor`: the channel of the executor. -/
def createExecutor (sender : RemoteServiceSender) (process : Process) : Process × ℕ :=
  match (process.executorsFor sender.isTrans).lookup sender.targetIp with
  | some n => (process, n)
  | none =>
    let table := (process.executorsFor sender.isTrans).insert sender.targetIp process.nextChannel
    (process.construct ⟨⟨sender.targetIp, sender.targetPort⟩, sender.isTrans⟩
      |>.setExecutors sender.isTrans table, process.nextChannel)

/-- `clearExecutor` and `clearLongExecutor`. -/
def clearExecutor (isTrans : Bool) (ip : QString) (process : Process) : Process × List Effect :=
  match (process.executorsFor isTrans).lookup ip with
  | none => (process, [])
  | some n => (process.setExecutors isTrans ((process.executorsFor isTrans).erase ip)).destroy n

def doSendProtoMsg (sender : RemoteServiceSender) (outcome : Outcome) (process : Process) :
    Process × List Effect :=
  if sender.targetIp = "" then (process, [])
  else
    let (process, n) := process.createExecutor sender
    let (process, sent, failed) := process.callMethod n outcome
    if failed then
      let (process, closed) := process.clearExecutor false sender.targetIp
      let (process, closedLong) := process.clearExecutor true sender.targetIp
      (process, sent ++ closed ++ closedLong)
    else (process, sent)

inductive Event where
  | construct (channel : ZRpcChannel)
  | callMethod (n : ℕ) (outcome : Outcome)
  /-- A channel that no executor owns is destroyed. -/
  | destroy (n : ℕ)
  | create (k : ℕ) (sender : RemoteServiceSender)
  | setIpInfo (k : ℕ) (ip : QString) (port : ℕ)
  | doSendProtoMsg (k : ℕ) (outcome : Outcome)
  | delete (k : ℕ)

def owned (n : ℕ) (process : Process) : Bool :=
  (process.executors.entries ++ process.longExecutors.entries).any fun entry ↦ entry.2 = n

/-- The process after an event, and what the event does to the network. -/
def act (process : Process) : Event → Process × List Effect
  | .construct channel => (process.construct channel, [])
  | .callMethod n outcome =>
    let (process, sent, _) := process.callMethod n outcome
    (process, sent)
  | .destroy n => if process.owned n then (process, []) else process.destroy n
  | .create k sender =>
    ({ process with senders := update process.senders k (some sender) }, [])
  | .setIpInfo k ip port =>
    match process.senders k with
    | none => (process, [])
    | some sender =>
      let sender := { sender with targetIp := ip, targetPort := port }
      ({ process with senders := update process.senders k (some sender) }, [])
  | .doSendProtoMsg k outcome =>
    match process.senders k with
    | none => (process, [])
    | some sender => process.doSendProtoMsg sender outcome
  | .delete k =>
    match process.senders k with
    | none => (process, [])
    | some sender =>
      let process := { process with senders := update process.senders k none }
      if sender.isTrans then process.clearExecutor true sender.targetIp else (process, [])

def step (process : Process) (event : Event) : Process := (process.act event).1

def run (process : Process) (events : List Event) : Process := events.foldl step process

/-! ## What the operations keep -/

/-- A long channel that is alive. -/
def Long (process : Process) (channel : ZRpcChannel) : Prop :=
  channel.isLongConnect = true ∧ ∃ n, process.channels n = some channel

/-- The client of the process was made for a long channel that is alive. -/
structure Owned (process : Process) : Prop where
  numbered : ∀ n, process.nextChannel ≤ n → process.channels n = none
  owner : ∀ client ∈ process.clientlong, ∃ channel, process.Long channel ∧
    client.peerAddr = channel.addr

/-- All long channels that are alive have one address. -/
def Agree (process : Process) : Prop :=
  ∀ channel other, process.Long channel → process.Long other → channel.addr = other.addr

/-- The new channel, if it is long, has the address of the long channels that are alive. -/
def Admits (process : Process) (channel : ZRpcChannel) : Prop :=
  channel.isLongConnect = true → ∀ other, process.Long other → other.addr = channel.addr

/-- The channel that an event constructs is admitted. -/
def Admissible (process : Process) : Event → Prop
  | .construct channel => process.Admits channel
  | .doSendProtoMsg k _ => ∀ sender ∈ process.senders k, sender.targetIp ≠ "" →
      (process.executorsFor sender.isTrans).lookup sender.targetIp = none →
        process.Admits ⟨⟨sender.targetIp, sender.targetPort⟩, sender.isTrans⟩
  | _ => True

/-- All that an event does to the network, it does at the address of the channel. -/
def ActsProperly (process : Process) (event : Event) : Prop :=
  ∀ effect ∈ (process.act event).2, effect.Proper

instance (process : Process) (event : Event) : Decidable (process.ActsProperly event) :=
  List.decidableBAll _ _

variable {process next : Process} {n : ℕ} {channel : ZRpcChannel}

theorem owned_empty : ({} : Process).Owned := ⟨fun _ _ ↦ rfl, nofun⟩

theorem long_congr (hchannels : next.channels = process.channels) :
    next.Long channel ↔ process.Long channel := by
  rw [Long, Long, hchannels]

theorem Agree.of_long (h : process.Agree) (hlong : ∀ channel, next.Long channel → process.Long channel) :
    next.Agree :=
  fun channel other hchannel hother ↦ h channel other (hlong channel hchannel) (hlong other hother)

/-- The result of what a sender or a user of channels does: the client still has an owner,
and when the long channels agree and the new one is admitted, they agree afterwards and
everything was done at the right address. -/
structure Keeps (process : Process) (admitted : Prop) (result : Process × List Effect) : Prop where
  owned : result.1.Owned
  agree : process.Agree → admitted → result.1.Agree
  proper : process.Agree → admitted → ∀ effect ∈ result.2, effect.Proper

section

variable {admitted : Prop} {result last : Process × List Effect}

theorem Keeps.mono (h : process.Keeps admitted result) {admitted' : Prop}
    (himp : admitted' → admitted) : process.Keeps admitted' result :=
  ⟨h.owned, fun hagree hthen ↦ h.agree hagree (himp hthen), fun hagree hthen ↦
    h.proper hagree (himp hthen)⟩

/-- One thing is done after another. -/
theorem Keeps.trans (h : process.Keeps admitted result) (hlast : result.1.Keeps True last) :
    process.Keeps admitted (last.1, result.2 ++ last.2) := by
  refine ⟨hlast.owned, fun hagree hthen ↦ hlast.agree (h.agree hagree hthen) trivial,
    fun hagree hthen ↦ ?_⟩
  rw [List.forall_mem_append]
  exact ⟨h.proper hagree hthen, hlast.proper (h.agree hagree hthen) trivial⟩

theorem Owned.keeps_of_eq (h : process.Owned) (hclient : next.clientlong = process.clientlong)
    (hchannels : next.channels = process.channels)
    (hnext : next.nextChannel = process.nextChannel) : process.Keeps admitted (next, []) := by
  refine ⟨⟨fun n hn ↦ ?_, fun client hmem ↦ ?_⟩,
    fun hagree _ ↦ hagree.of_long fun _ ↦ (long_congr hchannels).mp, nofun⟩
  · rw [hchannels]
    exact h.numbered n (hnext ▸ hn)
  · rw [hclient] at hmem
    obtain ⟨owner, howner, haddr⟩ := h.owner client hmem
    exact ⟨owner, (long_congr hchannels).mpr howner, haddr⟩

theorem Owned.keeps (h : process.Owned) : process.Keeps admitted (process, []) :=
  h.keeps_of_eq rfl rfl rfl

theorem Owned.keeps_setExecutors (h : process.Owned) (isTrans : Bool) (table : QHash QString ℕ) :
    process.Keeps admitted (process.setExecutors isTrans table, []) := by
  cases isTrans <;> exact h.keeps_of_eq rfl rfl rfl

end

variable {client : TcpClient}

theorem Owned.peerAddr_eq (h : process.Owned) (hagree : process.Agree)
    (hlong : process.Long channel) (hclient : process.clientlong = some client) : client.peerAddr = channel.addr := by
  obtain ⟨owner, howner, haddr⟩ := h.owner client hclient
  exact haddr.trans (hagree owner channel howner hlong)

/-! ### Construction -/

theorem Owned.long_construct (h : process.Owned) (other : ZRpcChannel) :
    (process.construct channel).Long other ↔
      process.Long other ∨ other = channel ∧ channel.isLongConnect = true := by
  have hfresh := h.numbered process.nextChannel le_rfl
  constructor
  · rintro ⟨hlong, n, hn⟩
    change update _ _ _ n = _ at hn
    by_cases heq : n = process.nextChannel
    · rw [heq, update_self] at hn
      rw [← Option.some.inj hn] at hlong ⊢
      exact .inr ⟨rfl, hlong⟩
    · rw [update_of_ne heq] at hn
      exact .inl ⟨hlong, n, hn⟩
  · rintro (⟨hlong, n, hn⟩ | ⟨rfl, hlong⟩)
    · have hne : n ≠ process.nextChannel := by
        rintro rfl
        rw [hfresh] at hn
        cases hn
      exact ⟨hlong, n, (update_of_ne hne ..).trans hn⟩
    · exact ⟨hlong, process.nextChannel, update_self ..⟩

theorem Owned.construct (h : process.Owned) (channel : ZRpcChannel) :
    (process.construct channel).Owned := by
  refine ⟨fun n hn ↦ ?_, fun client hclient ↦ ?_⟩
  · have hlt : process.nextChannel < n := hn
    exact (update_of_ne hlt.ne' ..).trans (h.numbered n hlt.le)
  · obtain ⟨owner, howner, haddr⟩ := h.owner client hclient
    exact ⟨owner, (h.long_construct owner).mpr (.inl howner), haddr⟩

theorem Owned.keeps_construct (h : process.Owned) (channel : ZRpcChannel) :
    process.Keeps (process.Admits channel) (process.construct channel, []) := by
  refine ⟨h.construct channel, fun hagree hadmits first second hfirst hsecond ↦ ?_, nofun⟩
  rcases (h.long_construct first).mp hfirst with hold | ⟨rfl, hlong⟩
  · rcases (h.long_construct second).mp hsecond with hsecond | ⟨rfl, hlong⟩
    · exact hagree first second hold hsecond
    · exact hadmits hlong first hold
  · rcases (h.long_construct second).mp hsecond with hold | ⟨rfl, -⟩
    · exact (hadmits hlong second hold).symm
    · rfl

/-! ### Calls -/

theorem long_keepClient {other : ZRpcChannel} (client : TcpClient) :
    (process.keepClient channel client).Long other ↔ process.Long other := by
  unfold keepClient
  split <;> exact long_congr rfl

theorem Owned.keepClient (h : process.Owned)
    (howner : channel.isLongConnect = true → ∃ owner, process.Long owner ∧
    client.peerAddr = owner.addr) : (process.keepClient channel client).Owned := by
  unfold Process.keepClient
  split
  · next hlong =>
    refine ⟨h.numbered, fun other hother ↦ ?_⟩
    rw [← Option.some.inj hother]
    exact howner hlong
  · exact h

/-- The client that a long channel uses was made for one that is alive. -/
theorem Owned.owner_clientFor (h : process.Owned) (hlong : process.Long channel) :
    ∃ owner, process.Long owner ∧ (process.clientFor channel).peerAddr = owner.addr := by
  unfold clientFor
  rw [if_pos hlong.1]
  cases hclient : process.clientlong with
  | none => exact ⟨channel, hlong, rfl⟩
  | some client => exact h.owner client hclient

theorem Owned.peerAddr_clientFor (h : process.Owned) (hagree : process.Agree)
    (hchannel : process.channels n = some channel) :
    (process.clientFor channel).peerAddr = channel.addr := by
  cases hlong : channel.isLongConnect with
  | false => simp only [clientFor, hlong, Bool.false_eq_true, if_false]
  | true =>
    obtain ⟨owner, howner, haddr⟩ := h.owner_clientFor ⟨hlong, n, hchannel⟩
    exact haddr.trans (hagree owner channel howner ⟨hlong, n, hchannel⟩)

theorem Owned.keeps_callMethod (h : process.Owned) (n : ℕ) (outcome : Outcome) :
    process.Keeps True ((process.callMethod n outcome).1, (process.callMethod n outcome).2.1) := by
  unfold Process.callMethod
  cases hchannel : process.channels n with
  | none => exact h.keeps
  | some channel =>
    dsimp only
    split
    · refine ⟨h.keepClient fun hlong ↦ h.owner_clientFor ⟨hlong, n, hchannel⟩,
        fun hagree _ ↦ hagree.of_long fun _ ↦ (long_keepClient _).mp, fun hagree _ effect heffect ↦ ?_⟩
      dsimp only at heffect
      split at heffect
      · rw [List.mem_singleton.mp heffect]
        exact h.peerAddr_clientFor hagree hchannel
      · cases heffect
    · exact ⟨h.keepClient fun hlong ↦ h.owner_clientFor ⟨hlong, n, hchannel⟩,
        fun hagree _ ↦ hagree.of_long fun _ ↦ (long_keepClient _).mp, nofun⟩

/-! ### Destruction -/

theorem Owned.keeps_destroy (h : process.Owned) (n : ℕ) :
    process.Keeps True (process.destroy n) := by
  have hchannels : ∀ {m : ℕ} {other : ZRpcChannel},
      update process.channels n none m = some other → process.channels m = some other := by
    intro m other hm
    by_cases heq : m = n
    · rw [heq, update_self] at hm
      cases hm
    · rwa [update_of_ne heq] at hm
  have hnumbered : ∀ m, process.nextChannel ≤ m → update process.channels n none m = none := by
    intro m hm
    cases hother : update process.channels n none m with
    | none => rfl
    | some other => exact absurd (hchannels hother) (by simp [h.numbered m hm])
  unfold Process.destroy
  cases hchannel : process.channels n with
  | none => exact h.keeps
  | some channel =>
    dsimp only
    split
    · next hlong =>
      refine ⟨⟨hnumbered, nofun⟩, fun hagree _ ↦ hagree.of_long fun _ hother ↦
        ⟨hother.1, hother.2.imp fun _ ↦ hchannels⟩, fun hagree _ effect heffect ↦ ?_⟩
      dsimp only at heffect
      split at heffect
      · next client hclient =>
        split at heffect
        · rw [List.mem_singleton.mp heffect]
          exact h.peerAddr_eq hagree ⟨hlong, n, hchannel⟩ hclient
        · cases heffect
      · cases heffect
    · next hshort =>
      -- the owner is long, so it is another channel
      refine ⟨⟨hnumbered, fun client hclient ↦ ?_⟩, fun hagree _ ↦ hagree.of_long fun _ hother ↦
        ⟨hother.1, hother.2.imp fun _ ↦ hchannels⟩, nofun⟩
      obtain ⟨owner, ⟨hlong, m, hm⟩, haddr⟩ := h.owner client hclient
      have hne : m ≠ n := by
        rintro rfl
        rw [hchannel] at hm
        rw [Option.some.inj hm] at hshort
        exact hshort hlong
      exact ⟨owner, ⟨hlong, m, (update_of_ne hne ..).trans hm⟩, haddr⟩

/-! ### Senders -/

theorem Owned.keeps_clearExecutor (h : process.Owned) (isTrans : Bool) (ip : QString) :
    process.Keeps True (process.clearExecutor isTrans ip) := by
  unfold clearExecutor
  split
  · exact h.keeps
  · next n hlookup =>
    have hset : process.Keeps True (process.setExecutors isTrans _, []) :=
      h.keeps_setExecutors isTrans ((process.executorsFor isTrans).erase ip)
    exact hset.trans (hset.owned.keeps_destroy n)

/-- What `doSendProtoMsg` needs to be admitted. -/
def AdmitsSender (process : Process) (sender : RemoteServiceSender) : Prop :=
  sender.targetIp ≠ "" →
    (process.executorsFor sender.isTrans).lookup sender.targetIp = none →
      process.Admits ⟨⟨sender.targetIp, sender.targetPort⟩, sender.isTrans⟩

theorem Owned.keeps_createExecutor (h : process.Owned) {sender : RemoteServiceSender}
    (hip : sender.targetIp ≠ "") :
    process.Keeps (process.AdmitsSender sender) ((process.createExecutor sender).1, []) := by
  unfold Process.createExecutor
  cases hlookup : (process.executorsFor sender.isTrans).lookup sender.targetIp with
  | none =>
    have hnew := h.keeps_construct ⟨⟨sender.targetIp, sender.targetPort⟩, sender.isTrans⟩
    exact (hnew.trans (hnew.owned.keeps_setExecutors ..)).mono fun hadmits ↦ hadmits hip hlookup
  | some n => exact h.keeps

theorem Owned.keeps_doSendProtoMsg (h : process.Owned) (sender : RemoteServiceSender)
    (outcome : Outcome) :
    process.Keeps (process.AdmitsSender sender) (process.doSendProtoMsg sender outcome) := by
  unfold Process.doSendProtoMsg
  by_cases hip : sender.targetIp = ""
  · rw [if_pos hip]
    exact h.keeps
  · rw [if_neg hip]
    have hcreated := h.keeps_createExecutor hip
    have hcalled := hcreated.trans
      (hcreated.owned.keeps_callMethod (process.createExecutor sender).2 outcome)
    dsimp only
    split
    · have hshort := hcalled.trans (hcalled.owned.keeps_clearExecutor false sender.targetIp)
      exact hshort.trans (hshort.owned.keeps_clearExecutor true sender.targetIp)
    · exact hcalled

theorem Owned.keeps_act (h : process.Owned) (event : Event) :
    process.Keeps (process.Admissible event) (process.act event) := by
  cases event with
  | construct channel => exact h.keeps_construct channel
  | callMethod n outcome => exact h.keeps_callMethod n outcome
  | destroy n =>
    simp only [act]
    split
    · exact h.keeps
    · exact h.keeps_destroy n
  | create k sender => exact h.keeps_of_eq rfl rfl rfl
  | setIpInfo k ip port =>
    simp only [act]
    split
    · exact h.keeps
    · exact h.keeps_of_eq rfl rfl rfl
  | doSendProtoMsg k outcome =>
    simp only [act]
    cases hsender : process.senders k with
    | none => exact h.keeps
    | some sender =>
      exact (h.keeps_doSendProtoMsg sender outcome).mono fun hadmissible ↦
        hadmissible sender hsender
  | delete k =>
    simp only [act]
    split
    · exact h.keeps
    · next sender _ =>
      have hnext : process.Keeps True ({ process with senders := update process.senders k none }, []) :=
        h.keeps_of_eq rfl rfl rfl
      split
      · exact hnext.trans (hnext.owned.keeps_clearExecutor true sender.targetIp)
      · exact hnext

theorem Owned.run (h : process.Owned) (events : List Event) : (process.run events).Owned :=
  List.foldlRecOn _ _ h fun _ howned event _ ↦ (howned.keeps_act event).owned

/-! ## The calls of a process -/

variable {m : ℕ} {other : ZRpcChannel} (hchannel : process.channels n = some channel)

include hchannel

theorem callMethod_success :
    process.callMethod n .success =
      (process.keepClient channel ((process.clientFor channel).afterCall .success),
        [.transmitted channel (process.clientFor channel).peerAddr], false) := by
  simp only [callMethod, hchannel, Outcome.success, or_true, if_true, Ended.sent, Ended.failed]

theorem peerAddr_of_actsProperly (h : process.ActsProperly (.callMethod n .success)) :
    (process.clientFor channel).peerAddr = channel.addr := by
  apply h (.transmitted channel _)
  simp only [act, callMethod_success hchannel, List.mem_singleton]

/-- Two calls on long channels that go to the channels' own addresses go to one address. -/
theorem addr_eq_of_calls {other : ZRpcChannel} (hother : process.channels m = some other)
    (hlong : channel.isLongConnect = true) (hlongOther : other.isLongConnect = true)
    (h : Throughout step ActsProperly process [.callMethod n .success, .callMethod m .success]) :
    channel.addr = other.addr := by
  obtain ⟨hfirst, hsecond, -⟩ := h
  -- the client of the first call is that of the process for the second
  have hstep : process.step (.callMethod n .success) =
      { process with clientlong := some ((process.clientFor channel).afterCall .success) } := by
    simp only [step, act, callMethod_success hchannel, keepClient, hlong, if_true]
  rw [hstep] at hsecond
  calc channel.addr
      _ = (process.clientFor channel).peerAddr := (peerAddr_of_actsProperly hchannel hfirst).symm
      _ = (clientFor other { process with
            clientlong := some ((process.clientFor channel).afterCall .success) }).peerAddr := by
          rw [clientFor, clientFor, if_pos hlongOther]
          rfl
      _ = other.addr := peerAddr_of_actsProperly hother hsecond

omit hchannel

/-- After any run of a process: everything that is done from then on, as long as no long
channel is constructed while one for another address is alive, is done at the address of
the channel that does it, if and only if all long channels that are alive have one
address. Initially there are none. -/
theorem actsProperly_iff_agree (events : List Event) :
    (∀ more, Throughout step Admissible (({} : Process).run events) more →
      Throughout step ActsProperly (({} : Process).run events) more) ↔
    (({} : Process).run events).Agree := by
  constructor
  · rintro h channel other ⟨hlong, n, hn⟩ ⟨hlongOther, m, hm⟩
    refine addr_eq_of_calls hn hm hlong hlongOther (h _ ⟨trivial, trivial, trivial⟩)
  · intro hagree more hadmissible
    have hkeep : ∀ (process : Process) event, process.Owned ∧ process.Agree →
        process.Admissible event → (process.step event).Owned ∧ (process.step event).Agree :=
      fun process event h hevent ↦
        ⟨(h.1.keeps_act event).owned, (h.1.keeps_act event).agree h.2 hevent⟩
    have hproper : ∀ (process : Process) event, process.Owned ∧ process.Agree →
        process.Admissible event → process.ActsProperly event :=
      fun process event h ↦ (h.1.keeps_act event).proper h.2
    exact Throughout.of_invariant hkeep hproper ⟨owned_empty.run events, hagree⟩ hadmissible

/-- The client of the process never outlives the long channels for its address. -/
theorem owned_run (events : List Event) : (({} : Process).run events).Owned :=
  owned_empty.run events

/-- Two transfers to different targets: the message of the second goes to the target of the
first, and the end of the second sender closes the connection of the first. -/
theorem not_actsProperly_transfers :
    let process := ({} : Process).run [.create 0 ⟨"10.0.0.1", 51598, true⟩,
      .create 1 ⟨"10.0.0.2", 51598, true⟩, .doSendProtoMsg 0 .success]
    ¬ process.ActsProperly (.doSendProtoMsg 1 .success) ∧
      ¬ (process.step (.doSendProtoMsg 1 .success)).ActsProperly (.delete 1) := by
  decide

end Process

end DdeCooperation.Zrpc
