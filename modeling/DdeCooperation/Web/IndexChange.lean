import DdeCooperation.Web.Walk

/-!
# The notice that a new index begins

Before a receiver downloads a name it sends a HEAD request with it, and the sender tells its user
interface which path is transferred now. The server looks up the path of the name, and then asks
whether the name is bound. It does so with the whole URL in the place of the name, so that a web
name has to contain the text `webindex>` for a notice to come. `notices_iff` says when it does.
-/

namespace DdeCooperation.Web

/-- `s_headerInfos`. -/
def headerInfos : HeaderInfo → StdString
  | .INFO_WEB_START => ascii "webstart"
  | .INFO_WEB_FINISH => ascii "webfinish"
  | .INFO_WEB_INDEX => ascii "webindex"

/-- The URL of the request that `sendInfobyHeader` makes. -/
def infoUrl (mask : HeaderInfo) (name : StdString) : StdString := headerInfos mask ++ 62 :: name

/-- What the handler of the server is told about the request. -/
def notices (environment : Environment) (binder : WebBinder) (mask : HeaderInfo)
    (name : StdString) : List Notice :=
  (onReceivedRequest environment binder (ascii "HEAD") (infoUrl mask name)).1

/-- The conditions under which the path of a name is told. -/
structure Noticed (binder : WebBinder) (name disk : StdString) : Prop where
  named : name ≠ []
  located : disk ≠ []
  /-- The binding that is found for the name leads to the path. -/
  found : ∃ webDir diskDir rest, binder.findBind name = some (webDir, diskDir) ∧
    name = webDir ++ rest ∧ diskDir ++ rest = disk
  /-- A web name contains the whole URL. -/
  marked : ∃ pair ∈ binder.binds, ascii "webindex>" ++ name <:+: pair.1

theorem StdString.isSome_find {needle text : StdString} :
    (StdString.find needle text).isSome = true ↔ needle <:+: text := by
  induction text with
  | nil =>
    rw [StdString.find, List.infix_nil]
    split_ifs with h <;> simp [h]
  | cons c rest ih =>
    rw [StdString.find, List.infix_cons_iff]
    split_ifs with h
    · simp [h]
    · rw [Option.isSome_map, ih]
      simp [h]

variable {binder : WebBinder} {name : StdString}

theorem WebBinder.containWeb_iff :
    binder.containWeb name = true ↔ ∃ pair ∈ binder.binds, name <:+: pair.1 := by
  simp only [containWeb, List.any_eq_true, StdString.isSome_find]

theorem WebBinder.getPath_eq_iff {disk : StdString} (hname : name ≠ []) (hdisk : disk ≠ []) :
    binder.getPath name = disk ↔
      ∃ webDir diskDir rest, binder.findBind name = some (webDir, diskDir) ∧
        name = webDir ++ rest ∧ diskDir ++ rest = disk := by
  rw [getPath, if_neg hname]
  cases hfind : binder.findBind name with
  | none => simpa using hdisk.symm
  | some pair =>
    obtain ⟨rest, hrest⟩ : pair.1 <+: name := by
      simpa using List.find?_some hfind
    dsimp only
    rw [← hrest, List.drop_left]
    constructor
    · rintro rfl
      exact ⟨pair.1, pair.2, rest, rfl, rfl, rfl⟩
    · rintro ⟨webDir, diskDir, rest', hpair, heq, rfl⟩
      cases hpair
      rw [List.append_cancel_left heq]

/-- What the server does with the URL of a new index. -/
theorem notices_index (environment : Environment) (binder : WebBinder) (name : StdString) :
    notices environment binder .INFO_WEB_INDEX name =
      if binder.getPath name ≠ [] ∧ binder.containWeb (ascii "webindex>" ++ name) then
        [.indexChange (binder.getPath name)]
      else [] := by
  have hurl : infoUrl .INFO_WEB_INDEX name = ascii "webindex>" ++ name := rfl
  have hposition : (ascii "webindex>" ++ name).idxOf? 62 = some 8 := rfl
  have hmethod : (ascii "webindex>" ++ name).take 8 = ascii "webindex" := rfl
  have hname : (ascii "webindex>" ++ name).drop 9 = name := rfl
  rw [notices, hurl, onReceivedRequest, if_pos rfl, onHead, hposition]
  dsimp only
  rw [hmethod, hname, if_neg (by decide), if_neg (by decide), if_pos rfl]
  split_ifs with hpath hweb <;> simp_all

/-- A name that is bound to a path is sent, and nothing is told. -/
theorem not_noticed_bound :
    let binder := WebBinder.run {} [.bind (ascii "a") (ascii "/d/a")]
    (ascii "a", ascii "/d/a") ∈ binder.binds ∧
      notices ⟨id, fun _ ↦ true, fun _ ↦ none⟩ binder .INFO_WEB_INDEX (ascii "a") = [] := by
  decide +kernel

/-- The path of a name is told exactly once, and nothing else, under these conditions. -/
theorem notices_iff (environment : Environment) (binder : WebBinder) (name disk : StdString) :
    notices environment binder .INFO_WEB_INDEX name = [.indexChange disk] ↔
      Noticed binder name disk := by
  rw [notices_index]
  constructor
  · intro h
    split_ifs at h with hcond
    have hdisk : binder.getPath name = disk := by simpa using h
    have hne : name ≠ [] := by
      rintro rfl
      exact hcond.1 rfl
    rw [hdisk] at hcond
    exact ⟨hne, hcond.1, (WebBinder.getPath_eq_iff hne hcond.1).mp hdisk,
      WebBinder.containWeb_iff.mp hcond.2⟩
  · intro h
    have hdisk := (WebBinder.getPath_eq_iff h.named h.located).mpr h.found
    have hlocated : binder.getPath name ≠ [] := by
      rw [hdisk]
      exact h.located
    rw [if_pos ⟨hlocated, WebBinder.containWeb_iff.mpr h.marked⟩, hdisk]

end DdeCooperation.Web
