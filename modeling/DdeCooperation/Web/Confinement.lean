import DdeCooperation.Foundations.LexicalPath
import DdeCooperation.Web.Binder

/-!
# Which paths are served

A request name should reach only what the sender offered: the disk path of a
binding, or a path inside it. `getPath` compares names as strings and appends the
rest of the name to the disk path. `confined_iff_safeName` says for which names the
result stays in the offer. It leaves the offer by pairs of dots in the name, and by
a name that happens to start like a bound one.
-/

namespace DdeCooperation.Web

open Foundations Foundations.ResolvedPath List

variable {binder : WebBinder} {name : StdString}

/-- A name belongs to a web name when it is equal to it or goes on with a slash. -/
def BelongsTo (name webDir : StdString) : Prop := name = webDir ∨ webDir ++ [slash] <+: name

instance (name webDir : StdString) : Decidable (BelongsTo name webDir) :=
  inferInstanceAs (Decidable (_ ∨ _))

/-- `path` resolves to a place inside the resolved `outer`. -/
abbrev LiesIn (outer path : StdString) : Prop :=
  Within dot (resolve slash dot outer) (resolve slash dot path)

/-- What remains of a name after its binding is empty, or is a slash and a route that
leads back into the disk path whenever it climbs out of it. -/
def Descends (diskDir rest : StdString) : Prop :=
  rest = [] ∨ rest.head? = some slash ∧ diskDir ≠ [] ∧
    (Route.ofPath slash dot rest.tail).LeadsBack dot (resolve slash dot diskDir)

instance (diskDir rest : StdString) : Decidable (Descends diskDir rest) :=
  inferInstanceAs (Decidable (_ ∨ _))

/-- The path a response reads from the disk. -/
def Response.served : Response → Option StdString
  | .serveInfo path | .serveContent path _ => some path
  | .head | .error _ _ | .thrown => none

namespace WebBinder

/-- A path inside the disk path of a binding to which the name belongs. -/
def Offers (binder : WebBinder) (name path : StdString) : Prop :=
  ∃ pair ∈ binder.binds, BelongsTo name pair.1 ∧ LiesIn pair.2 path

instance (binder : WebBinder) (name path : StdString) : Decidable (binder.Offers name path) :=
  inferInstanceAs (Decidable (∃ pair ∈ binder.binds, _))

/-- The name resolves into the offer, and every request for it is served from there. -/
structure Confined (binder : WebBinder) (name : StdString) : Prop where
  resolved : binder.getPath name ≠ [] → binder.Offers name (binder.getPath name)
  served : ∀ environment method url path, requestedName environment url = name →
    (onReceivedRequest environment binder method url).2.served = some path →
      binder.Offers name path

/-- The name descends from the binding that is found for it, or it also belongs to
another binding, and the two overlap on the disk. -/
def SafeName (binder : WebBinder) (name : StdString) : Prop :=
  ∀ pair ∈ binder.findBind name,
    Descends pair.2 (name.drop pair.1.length) ∨
      ∃ other ∈ binder.binds, other.1 ≠ pair.1 ∧ BelongsTo name other.1 ∧
        LiesIn other.2 (pair.2 ++ name.drop pair.1.length)

instance (binder : WebBinder) (name : StdString) : Decidable (binder.SafeName name) :=
  inferInstanceAs (Decidable (∀ pair ∈ binder.findBind name, _))

end WebBinder

/-! ## Requests -/

theorem served_onHead (binder : WebBinder) (key : StdString) :
    (onHead binder key).2.served = none := by
  unfold onHead
  split
  · rfl
  · dsimp only
    split_ifs <;> rfl

variable {environment : Environment} {url path : StdString}

theorem served_onGet (h : (onGet environment binder url).served = some path) :
    path = binder.getPath (requestedName environment url) ∧ path ≠ [] := by
  have hserve : binder.getPath (requestedName environment url) ≠ [] →
      some (binder.getPath (requestedName environment url)) = some path →
        path = binder.getPath (requestedName environment url) ∧ path ≠ [] := by
    rintro hne ⟨rfl⟩
    exact ⟨rfl, hne⟩
  unfold onGet at h
  dsimp only at h
  split_ifs at h with htoken hempty hinfo hdownload hoffset
  · cases h
  · exact hserve hempty h
  · exact hserve hempty h
  · split at h
    · exact hserve hempty h
    · cases h
  · cases h
  · cases h

/-- Only what `getPath` finds for the requested name is read from the disk. -/
theorem served_onReceivedRequest {method : StdString}
    (h : (onReceivedRequest environment binder method url).2.served = some path) :
    path = binder.getPath (requestedName environment url) ∧ path ≠ [] := by
  unfold onReceivedRequest at h
  split_ifs at h
  · rw [served_onHead] at h
    cases h
  · exact served_onGet h
  · cases h

/-! ## Names -/

variable {webDir rest : StdString}

theorem belongsTo_append_iff :
    BelongsTo (webDir ++ rest) webDir ↔ rest = [] ∨ rest.head? = some slash := by
  refine or_congr (by simp) ?_
  rw [prefix_append_right_inj, head?_eq_some_iff]
  exact ⟨fun ⟨below, hbelow⟩ ↦ ⟨below, hbelow.symm⟩, fun ⟨below, hbelow⟩ ↦ ⟨below, hbelow.symm⟩⟩

/-- A rest that starts with a slash stays in the disk path if and only if it descends. -/
theorem descends_iff {diskDir : StdString} :
    BelongsTo (webDir ++ rest) webDir ∧ LiesIn diskDir (diskDir ++ rest) ↔
      Descends diskDir rest := by
  rw [belongsTo_append_iff, Descends]
  constructor
  · rintro ⟨rfl | hslash, hlies⟩
    · exact .inl rfl
    · obtain ⟨below, rfl⟩ := head?_eq_some_iff.mp hslash
      have hdisk : diskDir ≠ [] := by
        rintro rfl
        simpa [resolve] using hlies.1
      exact .inr ⟨hslash, hdisk, (Route.within_append_iff hdisk below).mp hlies⟩
  · rintro (rfl | ⟨hslash, hdisk, hback⟩)
    · rw [append_nil]
      exact ⟨.inl rfl, within_refl dot _⟩
    · obtain ⟨below, rfl⟩ := head?_eq_some_iff.mp hslash
      exact ⟨.inr hslash, (Route.within_append_iff hdisk below).mpr hback⟩

namespace WebBinder

/-- The binding that is found is in the table, and its web name starts the name. -/
theorem findBind_eq_some {pair : StdString × StdString} (hfind : binder.findBind name = some pair) :
    pair ∈ binder.binds ∧ name = pair.1 ++ name.drop pair.1.length := by
  obtain ⟨rest, hrest⟩ : pair.1 <+: name := by simpa using find?_some hfind
  refine ⟨mem_of_find?_eq_some hfind, ?_⟩
  rw [← hrest, drop_left]

theorem SafeName.offers (hsafe : binder.SafeName name) (hpath : binder.getPath name ≠ []) :
    binder.Offers name (binder.getPath name) := by
  have hname : name ≠ [] := by
    rintro rfl
    exact hpath rfl
  cases hfind : binder.findBind name with
  | none => simp [getPath, hfind] at hpath
  | some pair =>
    obtain ⟨hmem, hrest⟩ := findBind_eq_some hfind
    rw [getPath_of_findBind hname hfind hrest]
    rcases hsafe pair hfind with hdescends | ⟨other, hother, -, hbelongs, hlies⟩
    · obtain ⟨hbelongs, hlies⟩ := descends_iff.mpr hdescends
      refine ⟨pair, hmem, ?_, hlies⟩
      rw [hrest]
      exact hbelongs
    · exact ⟨other, hother, hbelongs, hlies⟩

theorem safeName_of_offers (hnodup : (binder.binds.map Prod.fst).Nodup)
    (h : binder.getPath name ≠ [] → binder.Offers name (binder.getPath name)) :
    binder.SafeName name := by
  intro pair hfind
  obtain ⟨hmem, hrest⟩ := findBind_eq_some hfind
  by_cases hwhole : name.drop pair.1.length = []
  · exact .inl (.inl hwhole)
  · have hname : name ≠ [] := by
      rintro rfl
      exact hwhole drop_nil
    rw [getPath_of_findBind hname hfind hrest] at h
    obtain ⟨other, hother, hbelongs, hlies⟩ := h fun hempty ↦ hwhole (append_eq_nil_iff.mp hempty).2
    by_cases hsame : other.1 = pair.1
    · have hpair : other = pair := inj_on_of_nodup_map hnodup hother hmem hsame
      rw [hpair] at hbelongs hlies
      rw [hrest] at hbelongs
      exact .inl (descends_iff.mp ⟨hbelongs, hlies⟩)
    · exact .inr ⟨other, hother, hsame, hbelongs, hlies⟩

/-- After any calls, a name is confined to the offer if and only if it is safe. -/
theorem confined_iff_safeName (calls : List Call) (name : StdString) :
    (({} : WebBinder).run calls).Confined name ↔ (({} : WebBinder).run calls).SafeName name := by
  refine ⟨fun h ↦ safeName_of_offers (nodup_run calls) h.resolved, fun hsafe ↦ ⟨hsafe.offers, ?_⟩⟩
  intro environment method url path hname hserved
  obtain ⟨hpath, hne⟩ := served_onReceivedRequest hserved
  rw [hname] at hpath
  rw [hpath] at hne ⊢
  exact hsafe.offers hne

/-- One folder is offered. -/
def documents : WebBinder :=
  ({} : WebBinder).run [.bind (ascii "docs") (ascii "/home/u/docs")]

/-- `Base64Decode` on the one text that is requested, and a token that is accepted. -/
def hostile : Environment where
  base64Decode text :=
    if text = ascii "ZG9jcy8uLi8uc3NoL2lk" then ascii "docs/../.ssh/id" else []
  verifyToken token := token = ascii "t"
  stoll _ := none

/-- Two dots lead out of the folder, and the file they lead to is sent. -/
theorem not_confined_documents :
    onReceivedRequest hostile documents (ascii "GET")
        (ascii "download/ZG9jcy8uLi8uc3NoL2lk&token=t") =
      ([], .serveContent (ascii "/home/u/docs/../.ssh/id") 0) ∧
    ¬ documents.Confined (ascii "docs/../.ssh/id") := by
  refine ⟨by decide +kernel, fun h ↦ ?_⟩
  have houtside : ¬ documents.Offers (ascii "docs/../.ssh/id") (ascii "/home/u/docs/../.ssh/id") := by
    decide +kernel
  exact houtside (h.served hostile (ascii "GET")
    (ascii "download/ZG9jcy8uLi8uc3NoL2lk&token=t") _ (by decide +kernel) (by decide +kernel))

end WebBinder

end DdeCooperation.Web
