import Mathlib.Data.List.Count

/-!
# The notice of missed pings

The RPC service counts the expirations of its timer since the last ping of each application. When
the count of an application passes three, the notice goes to the IPC service, which keeps it until
a timer of its own expires, and drops it if a ping comes first.
-/

namespace DdeCooperation.Daemon

open Function

structure PingWatch where
  /-- `_ping_lost_count` of the RPC service. -/
  pingLostCount : String → Option ℕ := fun _ ↦ none
  /-- Whether `_offline_status` of the IPC service has a `NOPING_TIMEOUT` of the application. -/
  offlineStatus : String → Bool := fun _ ↦ false

namespace PingWatch

inductive Event where
  /-- A ping that does not come from a search. -/
  | ping (appName : String)
  /-- The timer of the RPC service expires. -/
  | timeOut
  /-- The timer of the IPC service expires, and what is kept is sent. -/
  | flush
deriving DecidableEq

/-- An expiration raises `NOPING_TIMEOUT` for the application. -/
def raises (s : PingWatch) (app : String) : Bool := (s.pingLostCount app).any (3 < ·)

def cancelOfflineStatus (appName : String) (s : PingWatch) : PingWatch :=
  { s with offlineStatus := update s.offlineStatus appName false }

def handleRemotePing (appName : String) (s : PingWatch) : PingWatch :=
  { s with pingLostCount := update s.pingLostCount appName (some 0) }.cancelOfflineStatus appName

def handleTimeOut (s : PingWatch) : PingWatch where
  pingLostCount key := if s.raises key then none else (s.pingLostCount key).map (· + 1)
  offlineStatus key := s.raises key || s.offlineStatus key

/-- The state after events, the last of which stands first. -/
def run : List Event → PingWatch
  | [] => {}
  | .ping appName :: earlier => (run earlier).handleRemotePing appName
  | .timeOut :: earlier => (run earlier).handleTimeOut
  | .flush :: earlier => { run earlier with offlineStatus := fun _ ↦ false }

/-- The number of expirations since the last ping of the application. -/
def silence (app : String) : List Event → Option ℕ
  | [] => none
  | .ping other :: earlier => if other = app then some 0 else silence app earlier
  | .timeOut :: earlier => (silence app earlier).map (· + 1)
  | .flush :: earlier => silence app earlier

/-- `NOPING_TIMEOUT` is raised after four silent expirations at least and once between two pings,
and the client hears of it only if neither a ping nor a flush has come since. -/
structure Sound (app : String) (events : List Event) : Prop where
  silent : (run events).raises app = true → ∃ expirations ∈ silence app events, 4 ≤ expirations
  once : ∀ later, (run events).raises app = true →
    (run (later ++ .timeOut :: events)).raises app = true → .ping app ∈ later
  kept : (run events).offlineStatus app = true → ∃ quiet before,
    events = quiet ++ .timeOut :: before ∧ (run before).raises app = true ∧
      .ping app ∉ quiet ∧ .flush ∉ quiet

variable {app : String} {events later : List Event}

/-- A count is the number of silent expirations, as long as that is four at most. -/
theorem pingLostCount_run (events : List Event) :
    (run events).pingLostCount app = (silence app events).filter (· ≤ 4) := by
  induction events with
  | nil => rfl
  | cons event events ih =>
    cases event with
    | ping other =>
      by_cases hother : other = app
      · simp [run, silence, handleRemotePing, cancelOfflineStatus, hother, Option.filter]
      · simp [run, silence, handleRemotePing, cancelOfflineStatus, hother, Ne.symm hother, ih]
    | timeOut =>
      simp only [run, silence, handleTimeOut, raises, ih]
      cases silence app events with
      | none => rfl
      | some count => grind [Option.filter]
    | flush => exact ih

theorem raises_run : (run events).raises app = true ↔ silence app events = some 4 := by
  rw [raises, pingLostCount_run]
  cases silence app events with
  | none => simp
  | some count => grind [Option.filter]

theorem silence_append (hquiet : .ping app ∉ later) :
    silence app (later ++ events) = (silence app events).map (· + later.count .timeOut) := by
  induction later with
  | nil => simp
  | cons event later ih =>
    rw [List.mem_cons, not_or] at hquiet
    have hlater := ih hquiet.2
    cases event with
    | ping other =>
      have hother : other ≠ app := fun heq ↦ hquiet.1 (by rw [heq])
      simp [silence, hlater, hother]
    | timeOut => simp [silence, hlater, Function.comp_def, Nat.add_assoc]
    | flush => simpa [silence] using hlater

theorem offlineStatus_run (h : (run events).offlineStatus app = true) : ∃ quiet before,
    events = quiet ++ .timeOut :: before ∧ (run before).raises app = true ∧
      .ping app ∉ quiet ∧ .flush ∉ quiet := by
  induction events with
  | nil => cases h
  | cons event events ih =>
    cases event with
    | ping other =>
      have hother : app ≠ other := by
        rintro rfl
        simp [run, handleRemotePing, cancelOfflineStatus] at h
      obtain ⟨quiet, before, rfl, hraises, hping, hflush⟩ := ih (by
        simpa [run, handleRemotePing, cancelOfflineStatus, hother] using h)
      exact ⟨.ping other :: quiet, before, rfl, hraises, by simp [hping, hother], by simp [hflush]⟩
    | timeOut =>
      rcases Bool.or_eq_true_iff.mp h with hraises | hold
      · exact ⟨[], events, rfl, hraises, by simp, by simp⟩
      · obtain ⟨quiet, before, rfl, hraises, hping, hflush⟩ := ih hold
        exact ⟨.timeOut :: quiet, before, rfl, hraises, by simp [hping], by simp [hflush]⟩
    | flush => cases h

theorem missed_ping_sound (app : String) (events : List Event) : Sound app events := by
  refine ⟨fun hraises ↦ ⟨4, raises_run.mp hraises, Nat.le_refl 4⟩, fun later hraises hagain ↦ ?_,
    offlineStatus_run⟩
  by_contra hquiet
  have hsilence := raises_run.mp hagain
  rw [silence_append hquiet] at hsilence
  simp only [silence, raises_run.mp hraises, Option.map_some, Option.some.injEq] at hsilence
  omega

end PingWatch

end DdeCooperation.Daemon
