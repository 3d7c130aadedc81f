import Mathlib.Data.List.Sort
import DdeCooperation.Foundations.LruMap

/-!
# The older discovery

Hosts announce themselves by datagrams. `Discoverer` keeps what each endpoint announced
last, and when; an endpoint that was silent for three seconds is removed. Both kinds of
changes are put into a queue. Once a second the queue is given to a callback of
`DiscoveryJob`, which keeps the hosts by the uuid in their announcements and says with
`sigNodeChanged` which ones are up and down.

The queue has at most the latest change of an endpoint, except that a new endpoint is
appended without looking for an earlier change. The callback compares announcements by
their applications only. Where it erases a host, it goes on from the iterator it has erased,
of which nothing can be said.
-/

namespace DdeCooperation.Daemon

open Foundations

namespace Searchlight

abbrev Endpoint := List Char

structure App where
  appname : List Char
  json : List Char
  deriving DecidableEq

inductive Flags where
  | online
  | offline
  | changed
  deriving DecidableEq

structure Seen (ι : Type) where
  info : ι
  lastSeen : ℤ

/-- An entry of `_change_sevices`. -/
structure Change (ι : Type) where
  endpoint : Endpoint
  info : ι
  flags : Flags

/-- `sigNodeChanged`. -/
structure Signal (ι : Type) where
  up : Bool
  info : ι

/-- A host: the text that is kept of it, and the mark that it exists. -/
abbrev Nodes (ι υ : Type) := LruMap υ (ι × Bool)

/-- What is read from the text of an announcement, and what the libraries do. -/
structure Format (ι υ : Type) where
  /-- Missing when the text has no `os` or no `uuid` in it. -/
  uuid : ι → Option υ
  apps : ι → List App
  withoutApps : ι → ι
  uuid_withoutApps : ∀ info, uuid (withoutApps info) = uuid info
  /-- What a loop over the hosts comes to that erases one and then increments its iterator. -/
  freed : Nodes ι υ → Nodes ι υ × List (Signal ι)

/-! ## Announcements -/

structure Discoverer (ι : Type) where
  discovered : AList fun _ : Endpoint ↦ Seen ι
  changes : List (Change ι)

namespace Discoverer

variable {ι : Type}

/-- `removeOne`, which compares endpoints, and `append`. -/
def enqueue (change : Change ι) (changes : List (Change ι)) : List (Change ι) :=
  changes.eraseP (fun other ↦ other.endpoint = change.endpoint) ++ [change]

/-- The clock is read before the call, and again for a new endpoint. -/
def handleChanges [DecidableEq ι] (endpoint : Endpoint) (info : ι) (time now : ℤ)
    (d : Discoverer ι) : Discoverer ι :=
  if endpoint = [] then d
  else
    match d.discovered.lookup endpoint with
    | none =>
      { discovered := d.discovered.insert endpoint ⟨info, now⟩
        changes := d.changes ++ [⟨endpoint, info, .online⟩] }
    | some seen =>
      { discovered := d.discovered.insert endpoint ⟨info, time⟩
        changes := if seen.info = info then d.changes
          else enqueue ⟨endpoint, info, .changed⟩ d.changes }

def expire (d : Discoverer ι) (endpoint : Endpoint) : Discoverer ι :=
  match d.discovered.lookup endpoint with
  | none => d
  | some seen =>
    { discovered := d.discovered.erase endpoint
      changes := enqueue ⟨endpoint, seen.info, .offline⟩ d.changes }

/-- The order of the keys in the map. -/
def precedes : Endpoint → Endpoint → Bool
  | [], _ => true
  | _ :: _, [] => false
  | a :: as, b :: bs => a.toNat < b.toNat || (a = b && precedes as bs)

/-- The endpoints that are idle, in the order of the map. -/
def idle (now : ℤ) (d : Discoverer ι) : List Endpoint :=
  (d.discovered.keys.filter fun endpoint ↦ (d.discovered.lookup endpoint).any fun seen ↦
    seen.lastSeen < now - 3000).insertionSort fun a b ↦ precedes a b = true

def removeIdleServices (now : ℤ) (d : Discoverer ι) : Discoverer ι := (d.idle now).foldl expire d

end Discoverer

/-! ## The callback -/

section Callback

variable {ι υ : Type} [DecidableEq ι] [DecidableEq υ] (fmt : Format ι υ) (capacity : ℕ)

/-- The value of a name in a map that was filled with the applications. -/
def named (apps : List App) (appname : List Char) : Option (List Char) :=
  (apps.reverse.find? fun app ↦ app.appname = appname).map App.json

/-- An application is missing. -/
def isDown (old cur : ι) : Bool :=
  (fmt.apps old).any fun app ↦ (named (fmt.apps cur) app.appname).isNone

/-- An application is new, or has changed. -/
def isUp (old cur : ι) : Bool :=
  ((fmt.apps old).any fun app ↦
    (named (fmt.apps cur) app.appname).any fun json ↦ json ≠ app.json) ||
  (fmt.apps cur).any fun app ↦ (named (fmt.apps old) app.appname).isNone

/-- The entry is there, with its mark set. -/
def compareOldAndNew (uid : υ) (old cur : ι) (nodes : Nodes ι υ) :
    Nodes ι υ × List (Signal ι) :=
  if (fmt.apps old).isEmpty = false ∧ (fmt.apps cur).isEmpty then
    (nodes.erase uid, [⟨false, cur⟩])
  else if (fmt.apps old).isEmpty ∧ (fmt.apps cur).isEmpty = false then
    (LruMap.emplace capacity (nodes.erase uid) uid (cur, true), [⟨true, cur⟩])
  else if (fmt.apps old).isEmpty = false ∧ (fmt.apps cur).isEmpty = false then
    let (nodes, signals) := if isDown fmt old cur then (nodes.erase uid, [⟨false, cur⟩])
      else (nodes, [])
    if isUp fmt old cur then
      (LruMap.emplace capacity (nodes.erase uid) uid (cur, true), signals ++ [⟨true, cur⟩])
    else (nodes, signals)
  else (nodes, [])

/-- An unknown host is taken for a new one whatever the flags say. -/
def takeChange (nodes : Nodes ι υ) (change : Change ι) : Nodes ι υ × List (Signal ι) :=
  match fmt.uuid change.info with
  | none => (nodes, [])
  | some uid =>
    match nodes.lookup uid with
    | some (stored, _) =>
      if change.flags = .offline then (nodes.insert uid (stored, false), [])
      else if stored = change.info then (nodes.insert uid (stored, true), [])
      else compareOldAndNew fmt capacity uid stored change.info (nodes.insert uid (stored, true))
    | none => (LruMap.emplace capacity nodes uid (change.info, true), [⟨true, change.info⟩])

def takeChanges : List (Change ι) → Nodes ι υ → Nodes ι υ × List (Signal ι)
  | [], nodes => (nodes, [])
  | change :: rest, nodes =>
    let (nodes, signals) := takeChange fmt capacity nodes change
    let (nodes, more) := takeChanges rest nodes
    (nodes, signals ++ more)

/-- Hosts without the mark are told to be down, without their applications. -/
def sweptNodes (nodes : Nodes ι υ) : Nodes ι υ × List (Signal ι) :=
  (nodes.sweep fun _ node ↦ node.2,
    (nodes.entries.filter fun node ↦ !node.2.2).map fun node ↦ ⟨false, fmt.withoutApps node.2.1⟩)

def sweepNodes (nodes : Nodes ι υ) : Nodes ι υ × List (Signal ι) :=
  if nodes.entries.all fun node ↦ node.2.2 then (nodes, []) else fmt.freed nodes

def onServicesChanged (changes : List (Change ι)) (nodes : Nodes ι υ) :
    Nodes ι υ × List (Signal ι) :=
  let (nodes, signals) := takeChanges fmt capacity changes nodes
  let (nodes, more) := sweepNodes fmt nodes
  (nodes, signals ++ more)

end Callback

/-! ## Runs -/

inductive Event (ι : Type) where
  | announce (endpoint : Endpoint) (info : ι) (time now : ℤ)
  | removeIdle (now : ℤ)
  | deliver

/-- The two objects; whether the last signal of a uuid was up, and what was announced last
with it. -/
structure Discovery (ι υ : Type) where
  discoverer : Discoverer ι
  nodes : Nodes ι υ
  told : υ → Bool
  latest : υ → Option ι

namespace Discovery

variable {ι υ : Type} [DecidableEq ι] [DecidableEq υ] (fmt : Format ι υ) (capacity : ℕ)

def hear (told : υ → Bool) (signal : Signal ι) : υ → Bool :=
  match fmt.uuid signal.info with
  | some uid => Function.update told uid signal.up
  | none => told

def note (latest : υ → Option ι) (endpoint : Endpoint) (info : ι) : υ → Option ι :=
  match fmt.uuid info with
  | some uid => if endpoint = [] then latest else Function.update latest uid (some info)
  | none => latest

def step (s : Discovery ι υ) : Event ι → Discovery ι υ
  | .announce endpoint info time now =>
    { s with
      discoverer := s.discoverer.handleChanges endpoint info time now
      latest := note fmt s.latest endpoint info }
  | .removeIdle now => { s with discoverer := s.discoverer.removeIdleServices now }
  | .deliver =>
    if s.discoverer.changes.isEmpty then s
    else
      let (nodes, signals) := onServicesChanged fmt capacity s.discoverer.changes s.nodes
      { s with
        discoverer := { s.discoverer with changes := [] }
        nodes := nodes
        told := signals.foldl (hear fmt) s.told }

def init : Discovery ι υ where
  discoverer := ⟨∅, []⟩
  nodes := ∅
  told _ := false
  latest _ := none

def run (events : List (Event ι)) : Discovery ι υ := events.foldl (step fmt capacity) init

/-- Some endpoint that is not idle announced the uuid last. -/
def Live (s : Discovery ι υ) (uid : υ) : Prop :=
  ∃ endpoint seen, s.discoverer.discovered.lookup endpoint = some seen ∧
    fmt.uuid seen.info = some uid

/-- The hosts are the live ones, each with what was announced last, and the signals have
said so. -/
def Converged (s : Discovery ι υ) : Prop :=
  (∀ uid, uid ∈ s.nodes ↔ s.Live fmt uid) ∧
    (∀ uid node, s.nodes.lookup uid = some node → s.latest uid = some node.1) ∧
    ∀ uid, s.told uid = true ↔ uid ∈ s.nodes

end Discovery

end Searchlight

end DdeCooperation.Daemon
