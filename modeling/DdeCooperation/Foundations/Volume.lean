import DdeCooperation.Foundations.Trees

/-!
# The contents of files, and what is left alone

A later file system `Extends` an earlier one when everything is still there as it was. What
a path leads to can nevertheless change: a component that was missing may have been created,
and a pair of dots behind it leads back to what was there all the time. Without such pairs,
a path that leads to an old file has led there before.

A `Volume` is a file system with the contents of its files, as long as their sizes say. It
`Keeps` what another one has when no file with something in it is changed and no directory
is gone.
-/

namespace DdeCooperation.Foundations

open ResolvedPath List FileSystem

variable {α : Type*} [DecidableEq α]

namespace FileSystem

variable {fs fs' fs'' : FileSystem α} {loc start mid : Location α} {size : ℕ}

/-! ## Later file systems -/

/-- Everything is still there as it was. -/
def Extends (fs fs' : FileSystem α) : Prop :=
  ∀ loc node, fs.nodes.lookup loc = some node → fs'.nodes.lookup loc = some node

theorem Extends.refl (fs : FileSystem α) : fs.Extends fs := fun _ _ h ↦ h

theorem Extends.trans (h : fs.Extends fs') (h' : fs'.Extends fs'') : fs.Extends fs'' :=
  fun loc node hnode ↦ h' loc node (h loc node hnode)

theorem Extends.isDir (h : fs.Extends fs') (hdir : fs.IsDir loc) : fs'.IsDir loc :=
  h loc .directory hdir

theorem extends_put {node : Node} {hnew : ¬ fs.IsDir loc} {hparent : fs.IsDir loc.tail}
    (hmem : loc ∉ fs.nodes) : fs.Extends (fs.put loc node hnew hparent) := by
  intro other old hold
  have hne : other ≠ loc := by
    rintro rfl
    exact hmem (mem_of_lookup hold)
  exact (AList.lookup_insert_ne hne).trans hold

theorem extends_makeDirectory (h : fs.makeDirectory loc = some fs') : fs.Extends fs' := by
  unfold makeDirectory at h
  split at h
  · next hnew =>
    rw [← Option.some.inj h]
    exact extends_put hnew.1
  · cases h

theorem lookup_makeFile {other : Location α} (h : fs.makeFile loc size = some fs') :
    fs'.nodes.lookup other = if other = loc then some (.file size) else fs.nodes.lookup other := by
  unfold makeFile at h
  split at h
  · rw [← Option.some.inj h]
    exact Bimap.lookup_insert_eq fs.nodes loc other _
  · cases h

theorem not_isDir_of_makeFile (h : fs.makeFile loc size = some fs') : ¬ fs.IsDir loc := by
  unfold makeFile at h
  split at h
  · next hnew => exact hnew.1
  · cases h

theorem file_of_mem (hmem : loc ∈ fs.nodes) (hfile : ¬ fs.IsDir loc) :
    ∃ size, fs.nodes.lookup loc = some (.file size) := by
  cases hlookup : fs.nodes.lookup loc with
  | none => exact absurd hmem (lookup_eq_none.mp hlookup)
  | some node =>
    cases node with
    | directory => exact absurd hlookup hfile
    | file size => exact ⟨size, rfl⟩

theorem Extends.not_isDir (h : fs.Extends fs') (hmem : loc ∈ fs.nodes) (hfile : ¬ fs.IsDir loc) :
    ¬ fs'.IsDir loc := by
  obtain ⟨size, hsize⟩ := file_of_mem hmem hfile
  rw [IsDir, h loc _ hsize]
  simp

/-! ## What a path leads to later -/

variable {dot : α} {components : List (List α)}

theorem enter_cons_or_suffix (dot : α) (loc : Location α) (component : List α) :
    enter dot true loc component = component :: loc ∨ enter dot true loc component <:+ loc := by
  by_cases hskip : component = [] ∨ component = [dot]
  · rw [enter_skip hskip]
    exact .inr suffix_rfl
  · by_cases hup : component = [dot, dot]
    · rw [hup, enter_dots]
      cases loc with
      | nil => exact .inr (by rw [up_nil])
      | cons last loc =>
        by_cases hlast : last = [dot, dot]
        · refine .inl ?_
          rw [up, enter, if_neg (by simp), if_pos rfl]
          simp only [if_pos hlast]
        · rw [up_cons hlast]
          exact .inr (suffix_cons _ _)
    · exact .inl (enter_name hskip hup)

/-- Without pairs of dots a walk only leads down. -/
theorem suffix_of_walk (hdots : [dot, dot] ∉ components)
    (h : fs.walk dot start components = some mid) : start <:+ mid := by
  induction components generalizing start with
  | nil => rw [Option.some.inj h]
  | cons component rest ih =>
    rw [mem_cons, not_or] at hdots
    rw [walk] at h
    split at h
    · refine List.IsSuffix.trans ?_ (ih hdots.2 h)
      by_cases hskip : component = [] ∨ component = [dot]
      · rw [enter_skip hskip]
      · rw [enter_name hskip (Ne.symm hdots.1)]
        exact suffix_cons _ _
    · cases h

theorem walk_of_dirs (hdirs : ∀ loc, fs.IsDir loc → fs'.IsDir loc)
    (h : fs.walk dot start components = some mid) : fs'.walk dot start components = some mid := by
  induction components generalizing start with
  | nil => exact h
  | cons component rest ih =>
    rw [walk] at h ⊢
    split at h
    · next hdir =>
      rw [if_pos (hdirs start hdir)]
      exact ih h
    · cases h

/-- A walk to an old directory that only leads down could have been made before. -/
theorem walk_of_extends (hdots : [dot, dot] ∉ components)
    (h : fs'.walk dot start components = some mid) (hdir : fs.IsDir mid) :
    fs.walk dot start components = some mid := by
  induction components generalizing start with
  | nil => exact h
  | cons component rest ih =>
    have hsuffix : start <:+ mid := suffix_of_walk hdots h
    rw [mem_cons, not_or] at hdots
    rw [walk] at h ⊢
    split at h
    · rw [if_pos (hdir.of_suffix hsuffix)]
      exact ih hdots.2 h
    · cases h

end FileSystem

namespace Process

variable {sep dot : α} {process : Process α} {path : List α} {fs fs' : FileSystem α}
  {loc : Location α}

theorem find_of_dirs (hdirs : ∀ loc, fs.IsDir loc → fs'.IsDir loc)
    (h : process.find sep dot path fs = some loc) : process.find sep dot path fs' = some loc := by
  unfold find at h ⊢
  split at h
  · cases h
  · next hne =>
    rw [if_neg hne]
    exact walk_of_dirs hdirs h

/-- A path that leads to an old file has led there before, if it does not lead up on the way. -/
theorem find_of_extends (h : fs.Extends fs') (hdots : [dot, dot] ∉ (path.splitOn sep).dropLast)
    (hfind : process.find sep dot path fs' = some loc) (hmem : loc ∈ fs.nodes)
    (hfile : ¬ fs.IsDir loc) : process.find sep dot path fs = some loc := by
  obtain ⟨init, last, hsplit⟩ :=
    (eq_nil_or_concat' (path.splitOn sep)).resolve_left (splitOn_ne_nil _ _)
  rw [hsplit, dropLast_concat] at hdots
  unfold find at hfind ⊢
  split at hfind
  · cases hfind
  · next hne =>
    rw [if_neg hne]
    rw [hsplit, walk_append] at hfind ⊢
    obtain ⟨mid, hinit, hlast⟩ := Option.bind_eq_some_iff.mp hfind
    rw [walk] at hlast
    split at hlast
    · next hmid =>
      have hloc : enter dot true mid last = loc := Option.some.inj hlast
      -- The last component cannot lead to a directory on the way, since there is a file.
      have hcons : loc = last :: mid := by
        rcases enter_cons_or_suffix dot mid last with hcons | hsuffix
        · rw [← hloc, hcons]
        · rw [hloc] at hsuffix
          exact absurd (hmid.of_suffix hsuffix) (h.not_isDir hmem hfile)
      have hdir : fs.IsDir mid := by
        rw [hcons] at hmem
        exact .of_mem hmem
      rw [walk_of_extends hdots hinit hdir, Option.bind_some, walk, if_pos hdir, hloc]
      rfl
    · cases hlast

end Process

/-! ## Volumes -/

variable {β : Type*}

/-- A content of another size, cut off or filled up. -/
def resize (zero : β) (size : ℕ) (content : List β) : List β :=
  content.take size ++ List.replicate (size - content.length) zero

theorem length_resize (zero : β) (size : ℕ) (content : List β) :
    (resize zero size content).length = size := by
  simp only [resize, length_append, length_take, length_replicate]
  omega

theorem resize_length (zero : β) (content : List β) :
    resize zero content.length content = content := by
  simp [resize]

structure Volume (α β : Type*) [DecidableEq α] where
  fs : FileSystem α
  content : Location α → List β
  sized : ∀ loc size, fs.nodes.lookup loc = some (.file size) → (content loc).length = size

namespace Volume

/-- The file system with contents that are as long as its files. -/
def ofContent (zero : β) (fs : FileSystem α) (content : Location α → List β) : Volume α β where
  fs := fs
  content loc :=
    match fs.nodes.lookup loc with
    | some (.file size) => resize zero size (content loc)
    | _ => []
  sized := by
    intro loc size hsize
    simp only [hsize, length_resize]

variable {zero : β} {fs : FileSystem α} {content : Location α → List β} {loc : Location α}
  {v v' v'' : Volume α β}

theorem content_ofContent (h : fs.nodes.lookup loc = some (.file (content loc).length)) :
    (ofContent zero fs content).content loc = content loc := by
  simp only [ofContent, h, resize_length]

/-- No file with something in it is changed, and no directory is gone. -/
structure Keeps (v v' : Volume α β) : Prop where
  files : ∀ loc size, v.fs.nodes.lookup loc = some (.file (size + 1)) →
    v'.fs.nodes.lookup loc = some (.file (size + 1)) ∧ v'.content loc = v.content loc
  dirs : ∀ loc, v.fs.IsDir loc → v'.fs.IsDir loc

theorem Keeps.refl (v : Volume α β) : v.Keeps v := ⟨fun _ _ h ↦ ⟨h, rfl⟩, fun _ h ↦ h⟩

theorem Keeps.trans (h : v.Keeps v') (h' : v'.Keeps v'') : v.Keeps v'' where
  files loc size hsize := by
    obtain ⟨hsize', hcontent⟩ := h.files loc size hsize
    obtain ⟨hsize'', hcontent'⟩ := h'.files loc size hsize'
    exact ⟨hsize'', hcontent'.trans hcontent⟩
  dirs loc hdir := h'.dirs loc (h.dirs loc hdir)

/-- What is left alone in the file system and among the contents is kept. -/
theorem keeps_ofContent (hfiles : ∀ loc size, v.fs.nodes.lookup loc = some (.file (size + 1)) →
      fs.nodes.lookup loc = some (.file (size + 1)) ∧ content loc = v.content loc)
    (hdirs : ∀ loc, v.fs.IsDir loc → fs.IsDir loc) : v.Keeps (ofContent zero fs content) where
  files loc size hsize := by
    obtain ⟨hlater, hcontent⟩ := hfiles loc size hsize
    have hlength : (content loc).length = size + 1 := by
      rw [hcontent]
      exact v.sized loc _ hsize
    refine ⟨hlater, ?_⟩
    rw [content_ofContent (by rw [hlength]; exact hlater), hcontent]
  dirs := hdirs

theorem keeps_of_extends (h : v.fs.Extends fs) : v.Keeps (ofContent zero fs v.content) :=
  keeps_ofContent (fun loc _ hsize ↦ ⟨h loc _ hsize, rfl⟩) fun _ ↦ h.isDir

end Volume

end DdeCooperation.Foundations
