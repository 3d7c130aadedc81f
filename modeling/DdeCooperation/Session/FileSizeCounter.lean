import Mathlib.Algebra.Ring.Nat
import Mathlib.Logic.Function.Iterate
import DdeCooperation.Foundations.Runs

/-!
# Counting for several requests

`FileSizeCounter` is one thread with one field for the paths and one for the target. A call of
`countFiles` overwrites both and starts the thread, which has no effect while it runs. The
thread copies the paths when it begins and reads the target when it has counted. So requests
are answered one by one as long as no call comes while the thread runs, and the thread comes to
the end of every folder: it follows links, so that a folder with a link to itself has none.
-/

namespace DdeCooperation.Session

open Foundations

/-- What the file system says about paths. It does not change. -/
structure FileInfos where
  isThere : String → Bool
  isDir : String → Bool
  isFile : String → Bool
  isSymLink : String → Bool
  symLinkTarget : String → String
  size : String → ℕ
  fileName : String → String
  entryInfoList : String → List String

structure CountFinish where
  targetIp : String
  names : List String
  totalSize : ℕ
deriving DecidableEq

inductive CountThread where
  | idle
  | started
  /-- The entries that the calls of `countFilesInDir` have before them, and the paths. -/
  | counting (entries todo : List String)
  /-- The result is out, and the thread still runs. -/
  | ended
deriving DecidableEq

structure FileSizeCounter where
  paths : List String := []
  targetIp : String := ""
  totalSize : ℕ := 0
  names : List String := []
  thread : CountThread := .idle
  /-- The signals `onCountFinish`. -/
  finished : List CountFinish := []

namespace FileSizeCounter

inductive Event where
  | countFiles (targetIp : String) (paths : List String)
  /-- The thread takes its next step. -/
  | run

variable (infos : FileInfos)

/-- The result is the size, or zero when the thread counts. -/
def countFiles (targetIp : String) (paths : List String) (s : FileSizeCounter) :
    FileSizeCounter × ℕ :=
  if paths.any infos.isDir then
    ({ s with paths, targetIp, thread := if s.thread = .idle then .started else s.thread }, 0)
  else ({ s with paths := [], targetIp := "" }, (paths.map infos.size).sum)

/-- What an entry of a folder adds, and the entries that `countFilesInDir` goes through for it. -/
def visit (info : String) : ℕ × List String :=
  if infos.isSymLink info then
    let target := infos.symLinkTarget info
    if infos.isThere target then
      if infos.isDir target then (0, infos.entryInfoList target) else (infos.size target, [])
    else (0, [])
  else if infos.isDir info then (0, infos.entryInfoList info)
  else (infos.size info, [])

/-- The same for a path of the call. -/
def visitPath (path : String) : ℕ × List String :=
  if infos.isFile path then (infos.size path, []) else (0, infos.entryInfoList path)

def run (s : FileSizeCounter) : FileSizeCounter :=
  match s.thread with
  | .idle => s
  | .started => { s with thread := .counting [] s.paths, totalSize := 0, names := [] }
  | .counting (info :: entries) todo =>
    { s with thread := .counting ((visit infos info).2 ++ entries) todo,
             totalSize := s.totalSize + (visit infos info).1 }
  | .counting [] (path :: todo) =>
    { s with thread := .counting (visitPath infos path).2 todo,
             totalSize := s.totalSize + (visitPath infos path).1,
             names := s.names ++ [infos.fileName path] }
  | .counting [] [] =>
    { s with thread := .ended, finished := s.finished ++ [⟨s.targetIp, s.names, s.totalSize⟩] }
  | .ended => { s with thread := .idle }

def step (s : FileSizeCounter) : Event → FileSizeCounter
  | .countFiles targetIp paths => (s.countFiles infos targetIp paths).1
  | .run => s.run infos

/-- The total of the entries of a folder, with all that is below them. -/
inductive Total : List String → ℕ → Prop where
  | nil : Total [] 0
  | cons {info : String} {entries : List String} {below rest : ℕ} :
    Total (visit infos info).2 below → Total entries rest →
      Total (info :: entries) ((visit infos info).1 + (below + rest))

variable (sizes : String → ℕ)

/-- The size of a path is what there is in it: it is a file, or a folder that comes to an end. -/
def Sized (path : String) : Prop :=
  ∃ below, Total infos (visitPath infos path).2 below ∧
    sizes path = (visitPath infos path).1 + below

/-- The answer that a call with a folder should get. -/
def answer (targetIp : String) (paths : List String) : CountFinish :=
  ⟨targetIp, paths.map infos.fileName, (paths.map sizes).sum⟩

/-- The answers to the calls with a folder, in their order. -/
def due : List Event → List CountFinish
  | [] => []
  | .countFiles targetIp paths :: rest =>
    if paths.any infos.isDir then answer infos sizes targetIp paths :: due rest else due rest
  | .run :: rest => due rest

/-- Every call with a folder has its own answer as soon as the thread is idle, there is no other
answer, and the thread comes to an end. -/
def Answered (events : List Event) : Prop :=
  let s := events.foldl (step infos) {}
  s.finished <+: due infos sizes events ∧ (s.thread = .idle → s.finished = due infos sizes events) ∧
    ∃ n, ((run infos)^[n] s).thread = .idle

/-- A call comes while the thread does not run, with paths that come to an end. -/
def Alone (s : FileSizeCounter) : Event → Prop
  | .countFiles _ paths => s.thread = .idle ∧ ∀ path ∈ paths, Sized infos sizes path
  | .run => True

/-- The answers that are out, and the one that the thread works at. -/
def Sound (s : FileSizeCounter) (answers : List CountFinish) : Prop :=
  match s.thread with
  | .idle | .ended => answers = s.finished
  | .started => (∀ path ∈ s.paths, Sized infos sizes path) ∧
      answers = s.finished ++ [answer infos sizes s.targetIp s.paths]
  | .counting entries todo => (∀ path ∈ todo, Sized infos sizes path) ∧
      ∃ below, Total infos entries below ∧
        answers = s.finished ++ [⟨s.targetIp, s.names ++ todo.map infos.fileName,
          s.totalSize + below + (todo.map sizes).sum⟩]

variable {infos} {sizes} {s : FileSizeCounter} {answers : List CountFinish}

theorem Total.append {first rest : List String} {m n : ℕ} (h : Total infos first m)
    (hrest : Total infos rest n) : Total infos (first ++ rest) (m + n) := by
  induction h with
  | nil => rwa [Nat.zero_add]
  | cons hbelow _ _ ih =>
    rw [Nat.add_assoc, Nat.add_assoc]
    exact .cons hbelow ih

theorem Sound.run (h : s.Sound infos sizes answers) : (s.run infos).Sound infos sizes answers := by
  unfold Sound at h
  split at h
  · next hthread => simpa [FileSizeCounter.run, hthread, Sound] using h
  · next hthread => simpa [FileSizeCounter.run, hthread, Sound] using h
  · next hthread =>
    simp only [FileSizeCounter.run, hthread, Sound]
    exact ⟨h.1, 0, .nil, by simpa [answer] using h.2⟩
  · next entries todo hthread =>
    obtain ⟨htodo, below, htotal, hanswers⟩ := h
    cases htotal with
    | cons hbelow hrest =>
      simp only [FileSizeCounter.run, hthread, Sound]
      exact ⟨htodo, _, hbelow.append hrest, by simpa [Nat.add_assoc] using hanswers⟩
    | nil =>
      cases todo with
      | nil => simpa [FileSizeCounter.run, hthread, Sound] using hanswers
      | cons path todo =>
        rw [List.forall_mem_cons] at htodo
        obtain ⟨below, hbelow, hsize⟩ := htodo.1
        simp only [FileSizeCounter.run, hthread, Sound]
        exact ⟨htodo.2, below, hbelow, by simpa [hsize, Nat.add_assoc] using hanswers⟩

theorem Sound.foldl {events : List Event} (h : s.Sound infos sizes answers)
    (halone : Throughout (step infos) (Alone infos sizes) s events) :
    (events.foldl (step infos) s).Sound infos sizes (answers ++ due infos sizes events) := by
  induction events generalizing s answers with
  | nil => simpa [due] using h
  | cons event events ih =>
    cases event with
    | run => exact ih h.run halone.2
    | countFiles targetIp paths =>
      obtain ⟨hidle, hsized⟩ := halone.1
      have hanswers : answers = s.finished := by simpa [Sound, hidle] using h
      have hrest := halone.2
      rw [List.foldl_cons, due]
      rw [step, countFiles] at hrest ⊢
      split_ifs at hrest ⊢ with hdir
      · rw [List.append_cons]
        refine ih ?_ hrest
        simpa [Sound, hanswers, hidle] using hsized
      · exact ih (by simpa [Sound, hidle] using hanswers) hrest

/-- The thread goes through entries that come to an end. -/
theorem Total.exists_counted {entries later todo : List String} {total : ℕ}
    (h : Total infos entries total) (hthread : s.thread = .counting (entries ++ later) todo) :
    ∃ n, ((FileSizeCounter.run infos)^[n] s).thread = .counting later todo := by
  induction h generalizing s later with
  | nil => exact ⟨0, hthread⟩
  | @cons info entries _ _ _ _ ih ihrest =>
    have hnext : (s.run infos).thread =
        .counting ((visit infos info).2 ++ (entries ++ later)) todo := by
      simp [FileSizeCounter.run, hthread]
    obtain ⟨m, hm⟩ := ih hnext
    obtain ⟨n, hn⟩ := ihrest hm
    refine ⟨n + (m + 1), ?_⟩
    rwa [Function.iterate_add_apply, Function.iterate_succ_apply]

theorem exists_idle_of_counting {todo : List String} (htodo : ∀ path ∈ todo, Sized infos sizes path)
    (h : s.thread = .counting [] todo) :
    ∃ n, ((FileSizeCounter.run infos)^[n] s).thread = .idle := by
  induction todo generalizing s with
  | nil => exact ⟨2, by simp [FileSizeCounter.run, h]⟩
  | cons path todo ih =>
    rw [List.forall_mem_cons] at htodo
    obtain ⟨below, hbelow, -⟩ := htodo.1
    have hnext : (s.run infos).thread = .counting ((visitPath infos path).2 ++ []) todo := by
      simp [FileSizeCounter.run, h]
    obtain ⟨m, hm⟩ := hbelow.exists_counted hnext
    obtain ⟨n, hn⟩ := ih htodo.2 hm
    refine ⟨n + (m + 1), ?_⟩
    rwa [Function.iterate_add_apply, Function.iterate_succ_apply]

theorem Sound.exists_idle (h : s.Sound infos sizes answers) :
    ∃ n, ((FileSizeCounter.run infos)^[n] s).thread = .idle := by
  unfold Sound at h
  split at h
  · next hthread => exact ⟨0, hthread⟩
  · next hthread => exact ⟨1, by simp [FileSizeCounter.run, hthread]⟩
  · next hthread =>
    have hcounting : (s.run infos).thread = .counting [] s.paths := by
      simp [FileSizeCounter.run, hthread]
    obtain ⟨n, hn⟩ := exists_idle_of_counting h.1 hcounting
    exact ⟨n + 1, hn⟩
  · next entries todo hthread =>
    obtain ⟨htodo, below, htotal, -⟩ := h
    have hall : s.thread = .counting (entries ++ []) todo := by rw [hthread, List.append_nil]
    obtain ⟨m, hm⟩ := htotal.exists_counted hall
    obtain ⟨n, hn⟩ := exists_idle_of_counting htodo hm
    exact ⟨n + m, by rwa [Function.iterate_add_apply]⟩

/-- If every call comes while the thread does not run, with paths that come to an end, every call
is answered on its own. -/
theorem answered_of_alone {events : List Event}
    (h : Throughout (step infos) (Alone infos sizes) {} events) : Answered infos sizes events := by
  have hstart : Sound infos sizes {} [] := rfl
  have hsound : (events.foldl (step infos) {}).Sound infos sizes (due infos sizes events) :=
    hstart.foldl h
  refine ⟨?_, fun hidle ↦ ?_, hsound.exists_idle⟩
  · unfold Sound at hsound
    split at hsound
    · simp [hsound]
    · simp [hsound]
    · simp [hsound.2]
    · obtain ⟨-, _, -, hanswers⟩ := hsound
      simp [hanswers]
  · simp only [Sound, hidle] at hsound
    exact hsound.symm

/-- A file, and a folder with a link to it. -/
def someInfos : FileInfos where
  isThere _ := true
  isDir path := path = "/d"
  isFile path := path = "/f"
  isSymLink path := path = "/d/l"
  symLinkTarget _ := "/f"
  size _ := 1
  fileName := id
  entryInfoList _ := ["/d/l"]

theorem sized_someInfos : ∀ path ∈ ["/d", "/f"], Sized someInfos (fun _ ↦ 1) path := by
  have hlink : visit someInfos "/d/l" = (1, []) := by decide
  have hfolder : visitPath someInfos "/d" = (0, ["/d/l"]) := by decide
  have hfile : visitPath someInfos "/f" = (1, []) := by decide
  have htotal : Total someInfos ["/d/l"] ((visit someInfos "/d/l").1 + (0 + 0)) :=
    .cons (by rw [hlink]; exact .nil) .nil
  rw [List.forall_mem_cons, List.forall_mem_singleton]
  refine ⟨⟨_, by rw [hfolder]; exact htotal, ?_⟩, 0, by rw [hfile]; exact .nil, ?_⟩
  · simp [hfolder, hlink]
  · simp [hfile]

/-- A second call after the first one was answered. -/
theorem answered_of_alone_twice : Answered someInfos (fun _ ↦ 1)
    [.countFiles "a" ["/d", "/f"], .run, .run, .run, .run, .run, .run, .countFiles "b" ["/d", "/f"]] :=
  answered_of_alone ⟨⟨rfl, sized_someInfos⟩, trivial, trivial, trivial, trivial, trivial, trivial,
    ⟨by decide, sized_someInfos⟩, trivial⟩

/-- The answer to the first call goes to the target of the second one, and the second one has
no answer. -/
theorem not_answered_overlap : ¬ Answered someInfos (fun _ ↦ 1)
    [.countFiles "a" ["/d"], .run, .countFiles "b" ["/d"], .run, .run, .run, .run] := by
  intro h
  have hfinished := h.2.1 (by decide)
  revert hfinished
  decide

end FileSizeCounter

end DdeCooperation.Session
