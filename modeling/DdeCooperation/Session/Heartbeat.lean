import DdeCooperation.Foundations.Runs
import DdeCooperation.Session.Server

/-!
# The heartbeat of the server

The server keeps a counter for every remote that has sent a ping. A ping sets it to zero, and
the timer gives up a remote whose counter has come to three. Nothing adds to the counters, so
the server never gives up a remote.
-/

namespace DdeCooperation.Session

open Foundations

structure Heartbeat where
  server : ProtoServer := {}
  /-- `_ping_remotes`. -/
  pingRemotes : List (Address × ℕ) := []
  /-- The timer waits. -/
  armed : Bool := false
  /-- The remotes that were reported with `RPC_PINGOUT`. -/
  pingouts : List Address := []

namespace Heartbeat

inductive Event where
  | ping (remote : Address)
  | connected (addr : Address)
  | disconnected (id : ℕ)
  /-- The timer expires. -/
  | timeout
deriving DecidableEq

def handlePing (remote : Address) (s : Heartbeat) : Heartbeat :=
  if s.pingRemotes.any (·.1 = remote) then
    { s with pingRemotes := s.pingRemotes.map fun entry ↦
        if entry.1 = remote then (remote, 0) else entry }
  else
    { s with pingRemotes := s.pingRemotes ++ [(remote, 0)]
             armed := s.armed || s.pingRemotes.isEmpty }

def onHeartbeatTimeout (s : Heartbeat) : Heartbeat :=
  if s.server.sessionIds = [] then { s with pingRemotes := [], armed := false }
  else
    let kept := s.pingRemotes.filter (·.2 < 3)
    { s with pingRemotes := kept
             armed := !kept.isEmpty
             pingouts := s.pingouts ++ (s.pingRemotes.filter (3 ≤ ·.2)).map Prod.fst }

def step (s : Heartbeat) : Event → Heartbeat
  | .ping remote => s.handlePing remote
  | .connected addr => { s with server := s.server.onConnected addr }
  | .disconnected id => { s with server := s.server.onDisconnected id }
  | .timeout => if s.armed then s.onHeartbeatTimeout else s

/-- A session is there when the timer expires. -/
def Alive (s : Heartbeat) (event : Event) : Prop := event = .timeout → s.server.sessionIds ≠ []

/-- After its last ping a remote is silent for more than four expirations. -/
def Silent (remote : Address) (events front silent : List Event) : Prop :=
  events = front ++ .ping remote :: silent ∧ .ping remote ∉ silent ∧ 4 < silent.count .timeout

/-- Between any two expirations there is a ping of the remote. -/
def Regular (remote : Address) (events : List Event) : Prop :=
  ∀ front middle rest, events = front ++ .timeout :: (middle ++ .timeout :: rest) →
    .ping remote ∈ middle

/-- What the heartbeat is for. -/
structure Detects (events : List Event) : Prop where
  silent : ∀ remote front silent, Silent remote events front silent →
    (events.foldl step {}).pingouts.count remote =
        ((front ++ [Event.ping remote]).foldl step {}).pingouts.count remote + 1 ∧
      remote ∉ (events.foldl step {}).pingRemotes.map Prod.fst
  regular : ∀ remote, Regular remote events → remote ∉ (events.foldl step {}).pingouts
  armed : (events.foldl step {}).pingRemotes ≠ [] → (events.foldl step {}).armed = true

/-- The counters are zero, nothing was reported, and the timer waits while a remote is there. -/
structure Unaware (s : Heartbeat) : Prop where
  zero : ∀ entry ∈ s.pingRemotes, entry.2 = 0
  pingouts : s.pingouts = []
  armed : s.pingRemotes ≠ [] → s.armed = true

variable {s : Heartbeat} {events : List Event}

theorem Unaware.handlePing (h : s.Unaware) (remote : Address) : (s.handlePing remote).Unaware := by
  unfold Heartbeat.handlePing
  split_ifs with hany
  · refine ⟨fun entry hmem ↦ ?_, h.pingouts, fun hne ↦ h.armed (by simpa using hne)⟩
    obtain ⟨old, hold, rfl⟩ := List.mem_map.mp hmem
    split_ifs
    · rfl
    · exact h.zero old hold
  · refine ⟨fun entry hmem ↦ ?_, h.pingouts, fun _ ↦ ?_⟩
    · rcases List.mem_append.mp hmem with hold | hnew
      · exact h.zero entry hold
      · rw [List.mem_singleton.mp hnew]
    · cases hremotes : s.pingRemotes with
      | nil => simp
      | cons entry rest => simp [h.armed (by simp [hremotes])]

theorem Unaware.onHeartbeatTimeout (h : s.Unaware) (halive : s.server.sessionIds ≠ []) :
    s.onHeartbeatTimeout.Unaware := by
  have hkept : s.pingRemotes.filter (·.2 < 3) = s.pingRemotes :=
    List.filter_eq_self.mpr fun entry hmem ↦ by simp [h.zero entry hmem]
  have hout : s.pingRemotes.filter (3 ≤ ·.2) = [] :=
    List.filter_eq_nil_iff.mpr fun entry hmem ↦ by simp [h.zero entry hmem]
  rw [Heartbeat.onHeartbeatTimeout, if_neg halive]
  simp only [hkept, hout]
  exact ⟨h.zero, by simp [h.pingouts], fun hne ↦ by simpa using hne⟩

theorem Unaware.step (h : s.Unaware) {event : Event} (halive : s.Alive event) :
    (s.step event).Unaware := by
  cases event with
  | ping remote => exact h.handlePing remote
  | connected | disconnected => exact { h with }
  | timeout =>
    unfold Heartbeat.step
    split_ifs
    · exact h.onHeartbeatTimeout (halive rfl)
    · exact h

/-- The heartbeat does what it is for if and only if no remote is silent for long. -/
theorem detects_iff (h : Throughout step Alive {} events) :
    Detects events ↔ ∀ remote front silent, ¬ Silent remote events front silent := by
  have hstart : Unaware {} := ⟨by simp, rfl, by simp⟩
  have hend := Throughout.invariant_foldl (fun _ _ hs halive ↦ hs.step halive) hstart h
  constructor
  · intro hdetects remote front silent hsilent
    have hcount := (hdetects.silent remote front silent hsilent).1
    rw [hend.pingouts] at hcount
    simp at hcount
  · intro hnone
    refine ⟨fun remote front silent hsilent ↦ absurd hsilent (hnone remote front silent),
      fun remote _ ↦ ?_, hend.armed⟩
    simp [hend.pingouts]

/-- A remote that pings in time. -/
theorem detects_iff_ping : Detects [.connected "a", .ping "a", .timeout, .ping "a"] := by
  have halive : Throughout step Alive {} [.connected "a", .ping "a", .timeout, .ping "a"] :=
    ⟨nofun, nofun, fun _ ↦ by decide, nofun, trivial⟩
  refine (detects_iff halive).mpr ?_
  rintro remote front silent ⟨hevents, -, hcount⟩
  have htimeouts := congrArg (List.count Event.timeout) hevents
  rw [List.count_append, List.count_cons] at htimeouts
  simp at htimeouts
  omega

/-- A client that is silent for five expirations is not noticed. -/
theorem not_detects_silent : ¬ Detects (.connected "a" :: .ping "a" :: .replicate 5 .timeout) := by
  intro h
  have hcount := (h.silent "a" [.connected "a"] (.replicate 5 .timeout)
    ⟨rfl, by decide, by decide⟩).1
  revert hcount
  decide

end Heartbeat

end DdeCooperation.Session
