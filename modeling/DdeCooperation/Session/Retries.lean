import Mathlib.Data.List.Sort
import DdeCooperation.Session.Messages
import DdeCooperation.Session.Sending

/-!
# Requests that are tried again

`SessionManager::sendRpcRequest` hands a request to the session worker. When no endpoint
takes it, a timer is started, and the request is tried again, three times at most. Every
request has its own timer. Meanwhile other requests are issued and tried at once, and the
connections change, each at any time.

A request is either transmitted by an endpoint or refused without being transmitted, so it
is transmitted once at most. But a request that waits is overtaken by the ones that are
issued after the connection is back, and by others that wait, when their timers are first.
The order is kept as long as no request is transmitted before an earlier one that waits.
-/

namespace DdeCooperation.Session

open Foundations List

variable {number other : ℕ}

def kRpcRetryCount : ℕ := 3

/-- The requests for one target, which are numbered as they are issued. -/
structure Requests where
  endpoints : Endpoints := {}
  issued : List OriginMessage := []
  /-- The requests with a running timer, each with the number of attempts that remain. -/
  waiting : List (ℕ × ℕ) := []
  /-- What was transmitted, and over which connection. -/
  transmitted : List (ℕ × Connection) := []

namespace Requests

inductive Event where
  | endpoints (event : Endpoints.Event)
  | sendRpcRequest (request : OriginMessage)
  /-- The timer of a request expires. -/
  | timer (number : ℕ)

section Steps

variable (target : Address)

/-- The connections over which a request goes now. An endpoint that sends a request also
takes it. -/
def connections (m : Requests) : List Connection := m.endpoints.sendAsyncRequest true target

def scheduleRpcRetry (number remaining : ℕ) (m : Requests) : Requests :=
  if remaining = 0 then m else { m with waiting := m.waiting ++ [(number, remaining)] }

/-- `sendAsyncRequest`, and `scheduleRpcRetry` if it fails. -/
def attempt (number remaining : ℕ) (m : Requests) : Requests :=
  if m.connections target = [] then m.scheduleRpcRetry number remaining
  else { m with
    transmitted := m.transmitted ++ (m.connections target).map fun connection ↦ (number, connection) }

def sendRpcRequest (request : OriginMessage) (m : Requests) : Requests :=
  { m with issued := m.issued ++ [request] }.attempt target m.issued.length kRpcRetryCount

def onTimer (number : ℕ) (m : Requests) : Requests :=
  match m.waiting.find? fun entry ↦ entry.1 = number with
  | none => m
  | some entry =>
    { m with waiting := m.waiting.filter fun other ↦ other.1 ≠ number }.attempt target number
      (entry.2 - 1)

def step (m : Requests) : Event → Requests
  | .endpoints event => { m with endpoints := m.endpoints.step event }
  | .sendRpcRequest request => m.sendRpcRequest target request
  | .timer number => m.onTimer target number

def run (m : Requests) (events : List Event) : Requests := events.foldl (step target) m

end Steps

/-- The numbers of the requests in the order in which they were transmitted. -/
def sequence (m : Requests) : List ℕ := m.transmitted.map Prod.fst

/-- The transmitted requests are a subsequence of the issued ones. -/
def InOrder (m : Requests) : Prop := m.sequence.Sublist (List.range m.issued.length)

instance (m : Requests) : Decidable m.InOrder := inferInstanceAs (Decidable (List.Sublist _ _))

/-- A request that is transmitted now does not overtake one that waits. -/
def InTurn (target : Address) (m : Requests) : Event → Prop
  | .endpoints _ => True
  | .sendRpcRequest _ => m.connections target ≠ [] → m.waiting = []
  | .timer number => m.connections target ≠ [] → number ∈ m.waiting.map Prod.fst →
      ∀ other ∈ m.waiting.map Prod.fst, number ≤ other

instance (target : Address) (m : Requests) : ∀ event, Decidable (m.InTurn target event)
  | .endpoints _ => isTrue trivial
  | .sendRpcRequest _ => inferInstanceAs (Decidable (_ → _))
  | .timer number => inferInstanceAs
      (Decidable (_ → _ → ∀ other ∈ m.waiting.map Prod.fst, number ≤ other))

variable {target : Address} {m : Requests}

/-! ## One attempt -/

variable {worker : Endpoints}

theorem length_viaClient_le : worker.viaClient.length ≤ 1 := by
  unfold Endpoints.viaClient
  split_ifs
  · exact le_rfl
  · exact Nat.zero_le 1

theorem length_viaServer_le (htarget : target ≠ "") : (worker.viaServer target).length ≤ 1 := by
  rw [Endpoints.viaServer, length_map, ProtoServer.onSend, if_neg htarget]
  refine le_trans (length_filter_le _ _) ?_
  cases (worker.server.newestFor target).or
    ((worker.server.ipMapping.forth.lookup target).bind worker.server.newestFor) with
  | none => exact Nat.zero_le 1
  | some id => exact le_rfl

/-- A request is sent over one connection. -/
theorem length_connections_le (target : Address) (m : Requests) :
    (m.connections target).length ≤ 1 := by
  rw [connections, Endpoints.sendAsyncRequest]
  by_cases htarget : target = ""
  · rw [if_pos htarget]
    exact Nat.zero_le 1
  · rw [if_neg htarget]
    generalize hfirst : (if m.endpoints.clientHas target then m.endpoints.viaClient else []) = first
    have hclient : first.length ≤ 1 := by
      rw [← hfirst]
      split_ifs
      · exact length_viaClient_le
      · exact Nat.zero_le 1
    dsimp only
    split_ifs with htaken
    · exact hclient
    · have hempty : first = [] := by simpa using htaken
      rw [hempty, nil_append]
      exact length_viaServer_le htarget
    · rw [append_nil]
      exact hclient

variable {remaining : ℕ}

/-- With a connection, the request is transmitted once. -/
theorem attempt_of_connected (hconnected : m.connections target ≠ []) :
    (m.attempt target number remaining).sequence = m.sequence ++ [number] ∧
      (m.attempt target number remaining).waiting = m.waiting ∧
      (m.attempt target number remaining).endpoints = m.endpoints := by
  rw [attempt, if_neg hconnected]
  refine ⟨?_, rfl, rfl⟩
  obtain ⟨connection, hone⟩ : ∃ connection, m.connections target = [connection] := by
    rw [← length_eq_one_iff]
    have hle := length_connections_le target m
    have hpos := length_pos_iff.mpr hconnected
    omega
  simp [sequence, hone]

/-- What an attempt does: the request is transmitted once, waits, or is given up. -/
inductive Attempted (target : Address) (number : ℕ) (m next : Requests) : Prop where
  | transmitted (hconnected : m.connections target ≠ [])
      (hsequence : next.sequence = m.sequence ++ [number]) (hwaiting : next.waiting = m.waiting)
  | waiting (remaining : ℕ) (hsequence : next.sequence = m.sequence)
      (hwaiting : next.waiting = m.waiting ++ [(number, remaining)])
  | dropped (hsequence : next.sequence = m.sequence) (hwaiting : next.waiting = m.waiting)

theorem attempted : Attempted target number m (m.attempt target number remaining) := by
  by_cases hconnected : m.connections target = []
  · rw [attempt, if_pos hconnected, scheduleRpcRetry]
    split_ifs
    · exact .dropped rfl rfl
    · exact .waiting remaining rfl rfl
  · obtain ⟨hsequence, hwaiting, -⟩ := attempt_of_connected hconnected
    exact .transmitted hconnected hsequence hwaiting

theorem issued_attempt (target : Address) (number remaining : ℕ) (m : Requests) :
    (m.attempt target number remaining).issued = m.issued := by
  unfold attempt scheduleRpcRetry
  split_ifs <;> rfl

/-! ## Each request is transmitted once at most -/

/-- The requests that were transmitted and those that wait. -/
def numbers (m : Requests) : List ℕ := m.sequence ++ m.waiting.map Prod.fst

/-- A request that was issued is waiting or was transmitted, and not both, or it was given up. -/
structure Accounted (m : Requests) : Prop where
  nodup : m.numbers.Nodup
  lt : ∀ number ∈ m.numbers, number < m.issued.length

theorem Accounted.attempt (h : m.Accounted) (hissued : number < m.issued.length)
    (hidle : number ∉ m.numbers) (remaining : ℕ) :
    (m.attempt target number remaining).Accounted := by
  have hnumbers : (m.attempt target number remaining).numbers = m.numbers ∨
      (m.attempt target number remaining).numbers.Perm (number :: m.numbers) := by
    unfold numbers
    rcases attempted with
      ⟨-, hsequence, hwaiting⟩ | ⟨left, hsequence, hwaiting⟩ | ⟨hsequence, hwaiting⟩
    · rw [hsequence, hwaiting, append_assoc]
      exact .inr perm_middle
    · rw [hsequence, hwaiting, map_append, ← append_assoc]
      exact .inr (perm_append_singleton ..)
    · rw [hsequence, hwaiting]
      exact .inl rfl
  rcases hnumbers with hsame | hperm
  · exact ⟨hsame ▸ h.nodup, by rw [hsame, issued_attempt]; exact h.lt⟩
  · refine ⟨hperm.nodup_iff.mpr (nodup_cons.mpr ⟨hidle, h.nodup⟩), fun other hother ↦ ?_⟩
    rw [issued_attempt]
    rcases mem_cons.mp (hperm.mem_iff.mp hother) with rfl | hold
    · exact hissued
    · exact h.lt other hold

theorem Accounted.issue (h : m.Accounted) (request : OriginMessage) :
    { m with issued := m.issued ++ [request] }.Accounted :=
  ⟨h.nodup, fun number hmem ↦ (h.lt number hmem).trans (by simp)⟩

theorem Accounted.sendRpcRequest (h : m.Accounted) (request : OriginMessage) :
    (m.sendRpcRequest target request).Accounted :=
  (h.issue request).attempt (by simp) (fun hmem ↦ lt_irrefl _ (h.lt _ hmem)) _

/-- The timer of a request that does not wait does nothing. Otherwise the request is tried again
and does not wait. -/
theorem onTimer_cases :
    number ∉ m.waiting.map Prod.fst ∧ m.onTimer target number = m ∨
      number ∈ m.waiting.map Prod.fst ∧ ∃ remaining, m.onTimer target number =
        { m with waiting := m.waiting.filter fun other ↦ other.1 ≠ number }.attempt target number
          remaining := by
  unfold onTimer
  cases hfind : m.waiting.find? fun entry ↦ entry.1 = number with
  | none =>
    refine .inl ⟨?_, rfl⟩
    rw [find?_eq_none] at hfind
    rintro hmem
    obtain ⟨entry, hentry, rfl⟩ := mem_map.mp hmem
    exact hfind entry hentry (decide_eq_true rfl)
  | some entry =>
    refine .inr ⟨mem_map.mpr ⟨entry, mem_of_find?_eq_some hfind, ?_⟩, entry.2 - 1, rfl⟩
    simpa using find?_some hfind

theorem mem_others :
    other ∈ (m.waiting.filter fun entry ↦ entry.1 ≠ number).map Prod.fst ↔
      other ∈ m.waiting.map Prod.fst ∧ other ≠ number := by
  simp only [mem_map, mem_filter, decide_eq_true_eq]
  constructor
  · rintro ⟨entry, ⟨hmem, hne⟩, rfl⟩
    exact ⟨⟨entry, hmem, rfl⟩, hne⟩
  · rintro ⟨⟨entry, hmem, rfl⟩, hne⟩
    exact ⟨entry, ⟨hmem, hne⟩, rfl⟩

/-- The requests without one that waits. -/
theorem Accounted.others (h : m.Accounted) (number : ℕ) :
    { m with waiting := m.waiting.filter fun other ↦ other.1 ≠ number }.Accounted := by
  have hless : Sublist (m.sequence ++ (m.waiting.filter fun other ↦ other.1 ≠ number).map Prod.fst)
      m.numbers := (filter_sublist.map Prod.fst).append_left _
  exact ⟨h.nodup.sublist hless, fun other hmem ↦ h.lt other (hless.subset hmem)⟩

theorem Accounted.not_mem_others (h : m.Accounted) (hmem : number ∈ m.waiting.map Prod.fst) :
    number ∉ { m with waiting := m.waiting.filter fun other ↦ other.1 ≠ number }.numbers := by
  intro hother
  rcases mem_append.mp hother with hsent | hwaits
  · exact disjoint_of_nodup_append h.nodup hsent hmem
  · exact (mem_others.mp hwaits).2 rfl

theorem Accounted.onTimer (h : m.Accounted) (number : ℕ) : (m.onTimer target number).Accounted := by
  rcases onTimer_cases with ⟨-, heq⟩ | ⟨hmem, remaining, heq⟩
  · rwa [heq]
  · rw [heq]
    exact (h.others number).attempt (h.lt number (mem_append_right _ hmem))
      (h.not_mem_others hmem) _

theorem Accounted.step (h : m.Accounted) (event : Event) : (m.step target event).Accounted := by
  cases event with
  | endpoints event =>
    exact { h with }
  | sendRpcRequest request => exact h.sendRpcRequest request
  | timer number => exact h.onTimer number

theorem accounted_empty : ({} : Requests).Accounted := ⟨nodup_nil, nofun⟩

theorem Accounted.run (h : m.Accounted) (events : List Event) : (m.run target events).Accounted := by
  induction events generalizing m with
  | nil => exact h
  | cons event events ih => exact ih (h.step event)

/-! ## Order -/

/-- No request that waits is earlier than one that was transmitted. -/
structure Ordered (m : Requests) : Prop extends m.Accounted where
  sorted : m.sequence.Pairwise (· < ·)
  behind : ∀ number ∈ m.sequence, ∀ other ∈ m.waiting.map Prod.fst, number < other

theorem Ordered.inOrder (h : m.Ordered) : m.InOrder := by
  have hsubset : m.sequence ⊆ range m.issued.length :=
    fun number hmem ↦ mem_range.mpr (h.lt number (mem_append_left _ hmem))
  exact sublist_of_subperm_of_pairwise (subperm_of_subset h.nodup.of_append_left hsubset)
    h.sorted pairwise_lt_range

/-- An attempt keeps the order if the request is not earlier than one that was transmitted, and
does not overtake one that waits. -/
theorem Ordered.attempt (h : m.Ordered) (hissued : number < m.issued.length)
    (hidle : number ∉ m.numbers) (hbehind : ∀ other ∈ m.sequence, other < number)
    (hturn : m.connections target ≠ [] → ∀ other ∈ m.waiting.map Prod.fst, number < other)
    (remaining : ℕ) : (m.attempt target number remaining).Ordered := by
  refine { h.toAccounted.attempt hissued hidle remaining with sorted := ?_, behind := ?_ }
  · rcases attempted with
      ⟨-, hsequence, -⟩ | ⟨-, hsequence, -⟩ | ⟨hsequence, -⟩
    · rw [hsequence, pairwise_append]
      refine ⟨h.sorted, pairwise_singleton _ _, fun other hother last hlast ↦ ?_⟩
      rw [mem_singleton.mp hlast]
      exact hbehind other hother
    · rw [hsequence]
      exact h.sorted
    · rw [hsequence]
      exact h.sorted
  · rcases attempted with
      ⟨hconnected, hsequence, hwaiting⟩ | ⟨left, hsequence, hwaiting⟩ | ⟨hsequence, hwaiting⟩
    · rw [hsequence, hwaiting, forall_mem_append, forall_mem_singleton]
      exact ⟨h.behind, hturn hconnected⟩
    · rw [hsequence, hwaiting, map_append]
      intro first hfirst other hother
      rcases mem_append.mp hother with hother | hother
      · exact h.behind first hfirst other hother
      · rw [show other = number by simpa using hother]
        exact hbehind first hfirst
    · rw [hsequence, hwaiting]
      exact h.behind

theorem Ordered.step (h : m.Ordered) {event : Event} (hturn : m.InTurn target event) :
    (m.step target event).Ordered := by
  cases event with
  | endpoints event => exact { h.toAccounted.step (.endpoints event) with
      sorted := h.sorted, behind := h.behind }
  | sendRpcRequest request =>
    have hissued : { m with issued := m.issued ++ [request] }.Ordered :=
      ⟨h.issue request, h.sorted, h.behind⟩
    refine hissued.attempt (by simp) (fun hmem ↦ lt_irrefl _ (h.lt _ hmem))
      (fun other hmem ↦ h.lt other (mem_append_left _ hmem)) (fun hconnected other hother ↦ ?_) _
    have hempty : m.waiting = [] := hturn hconnected
    rw [show ({ m with issued := m.issued ++ [request] } : Requests).waiting = m.waiting from rfl,
      hempty] at hother
    cases hother
  | timer number =>
    change (m.onTimer target number).Ordered
    rcases onTimer_cases with ⟨-, heq⟩ | ⟨hmem, remaining, heq⟩
    · rwa [heq]
    · rw [heq]
      have hothers : { m with waiting := m.waiting.filter fun other ↦ other.1 ≠ number }.Ordered :=
        { h.toAccounted.others number with
          sorted := h.sorted
          behind := fun first hfirst other hother ↦
            h.behind first hfirst other (mem_others.mp hother).1 }
      refine hothers.attempt (h.lt number (mem_append_right _ hmem)) (h.not_mem_others hmem)
        (fun other hother ↦ h.behind other hother number hmem) (fun hconnected other hother ↦ ?_) _
      obtain ⟨hwaits, hne⟩ := mem_others.mp hother
      exact lt_of_le_of_ne (hturn hconnected hmem other hwaits) hne.symm

theorem ordered_empty : ({} : Requests).Ordered :=
  ⟨accounted_empty, List.Pairwise.nil, fun _ hmem ↦ absurd hmem not_mem_nil⟩

/-! ## Overtaking -/

theorem not_inOrder_of_descent {front : List ℕ}
    (hsequence : m.sequence = front ++ [number, other]) (hlt : other < number) : ¬ m.InOrder := by
  intro horder
  have hsorted : m.sequence.Pairwise (· < ·) := pairwise_lt_range.sublist horder
  rw [hsequence, pairwise_append, pairwise_pair] at hsorted
  exact lt_asymm hlt hsorted.2.1

/-- With a connection, the timer of a request that waits transmits it. -/
theorem sequence_onTimer (hconnected : m.connections target ≠ [])
    (hmem : number ∈ m.waiting.map Prod.fst) :
    (m.onTimer target number).sequence = m.sequence ++ [number] := by
  rcases onTimer_cases with ⟨hnot, -⟩ | ⟨-, remaining, heq⟩
  · exact absurd hmem hnot
  · rw [heq]
    have hsame : { m with waiting := m.waiting.filter fun other ↦ other.1 ≠ number }.connections
        target ≠ [] := hconnected
    exact (attempt_of_connected hsame).1

/-- A request that overtakes one that waits comes before it, when the timer of that one expires
next. -/
theorem not_inOrder_of_overtaken (hconnected : m.connections target ≠ [])
    (hmem : other ∈ m.waiting.map Prod.fst) (hlt : other < number) :
    ¬ ((m.attempt target number remaining).onTimer target other).InOrder := by
  obtain ⟨hsequence, hwaiting, hendpoints⟩ := attempt_of_connected hconnected
  have hstill : (m.attempt target number remaining).connections target ≠ [] := by
    rwa [connections, hendpoints]
  have hwaits : other ∈ (m.attempt target number remaining).waiting.map Prod.fst := by
    rwa [hwaiting]
  have hnext := sequence_onTimer hstill hwaits
  rw [hsequence, append_assoc] at hnext
  exact not_inOrder_of_descent hnext hlt

theorem exists_not_inOrder (h : m.Accounted) {event : Event} (hturn : ¬ m.InTurn target event) :
    ∃ number, ¬ ((m.step target event).step target (.timer number)).InOrder := by
  cases event with
  | endpoints event => exact absurd trivial hturn
  | sendRpcRequest request =>
    simp only [InTurn, Classical.not_imp] at hturn
    obtain ⟨hconnected, hwaiting⟩ := hturn
    obtain ⟨entry, rest, hcons⟩ := exists_cons_of_ne_nil hwaiting
    have hentry : entry.1 ∈ m.waiting.map Prod.fst := by simp [hcons]
    have hissued : ({ m with issued := m.issued ++ [request] } : Requests).connections target ≠ [] :=
      hconnected
    exact ⟨entry.1,
      not_inOrder_of_overtaken hissued hentry (h.lt entry.1 (mem_append_right _ hentry))⟩
  | timer number =>
    simp only [InTurn, Classical.not_imp, not_forall, not_le] at hturn
    obtain ⟨hconnected, hmem, other, hother, hlt⟩ := hturn
    refine ⟨other, ?_⟩
    change ¬ ((m.onTimer target number).onTimer target other).InOrder
    rcases onTimer_cases with ⟨hnot, -⟩ | ⟨-, remaining, heq⟩
    · exact absurd hmem hnot
    · rw [heq]
      have hothers : ({ m with waiting := m.waiting.filter fun other ↦ other.1 ≠ number } :
          Requests).connections target ≠ [] := hconnected
      exact not_inOrder_of_overtaken hothers (mem_others.mpr ⟨hother, hlt.ne⟩) hlt

/-- Each request is transmitted once at most. The order is kept as long as no request overtakes
one that waits. When one does, the order is lost if the timer of the other one expires next. -/
theorem transmitted_in_order (target : Address) (events : List Event) :
    (({} : Requests).run target events).sequence.Nodup ∧
      (Throughout (step target) (InTurn target) {} events →
        (({} : Requests).run target events).InOrder) ∧
      ∀ event, ¬ (({} : Requests).run target events).InTurn target event →
        ∃ number, ¬ (({} : Requests).run target (events ++ [event, .timer number])).InOrder := by
  have haccounted : (({} : Requests).run target events).Accounted := accounted_empty.run events
  refine ⟨haccounted.nodup.of_append_left, fun hturns ↦ ?_, fun event hturn ↦ ?_⟩
  · have hordered : (({} : Requests).run target events).Ordered :=
      Throughout.invariant_foldl (fun _ _ hordered hturn ↦ hordered.step hturn) ordered_empty hturns
    exact hordered.inOrder
  · obtain ⟨number, hnot⟩ := exists_not_inOrder haccounted hturn
    refine ⟨number, ?_⟩
    rw [run, foldl_append]
    exact hnot

/-- The client connects to a peer. -/
def clientUp : List Event :=
  [.endpoints (.connect "peer" ""), .endpoints (.client .connected), .endpoints (.client .secured),
    .endpoints (.client .onHandshaked)]

/-- A request waits for the connection, and another one is issued after it was transmitted. -/
def patient : List Event :=
  .sendRpcRequest ⟨0, REQ_TRANS_DATAS, ""⟩ :: clientUp ++
    [.timer 0, .sendRpcRequest ⟨1, REQ_TRANS_CANCLE, ""⟩]

theorem transmitted_in_order_patient :
    (({} : Requests).run "peer" patient).sequence = [0, 1] ∧
      (({} : Requests).run "peer" patient).InOrder := by
  refine ⟨by decide, (transmitted_in_order "peer" patient).2.1 ?_⟩
  decide

/-- A cancellation that is issued when the connection is back overtakes the transfer. -/
theorem not_inOrder_overtaken :
    (({} : Requests).run "peer" (.sendRpcRequest ⟨0, REQ_TRANS_DATAS, ""⟩ :: clientUp ++
      [.sendRpcRequest ⟨1, REQ_TRANS_CANCLE, ""⟩, .timer 0])).sequence = [1, 0] ∧
    ¬ (({} : Requests).run "peer" (.sendRpcRequest ⟨0, REQ_TRANS_DATAS, ""⟩ :: clientUp ++
      [.sendRpcRequest ⟨1, REQ_TRANS_CANCLE, ""⟩, .timer 0])).InOrder := by
  decide

end Requests

end DdeCooperation.Session
