import DdeCooperation.Web.Placement
import DdeCooperation.Web.Walk

/-!
# Mirroring a remote folder

A sender offers a file or a folder under a web name; the receiver walks through it with an
empty save directory, and no request fails. What the receiver creates is a partial copy of
the offered tree. It holds the files that are not empty and the empty files directly in the
offered folder, with the directories that lead to them: `walkFolderEntry` passes over an
empty file, and a folder below the offered one is only created for a file in it. The copy is
the whole tree if and only if nothing else is in it.
-/

namespace DdeCooperation.Web.FileClient

open Foundations BaseKit ResolvedPath Computation List FileSystem FileServer

variable {n depth : ℕ} {t' : Transfer} {name : StdString} {fs : FileSystem UInt8}

/-- A tree that a sender has bound to a web name. -/
structure OfferedTree where
  name : StdString
  disk : StdString
  cwd : Location UInt8
  fs : FileSystem UInt8
  location : Location UInt8
  find : (permissive cwd).find slash dot disk fs = some location
  mem : location ∈ fs.nodes
  diskZero : 0 ∉ disk
  diskLast : disk.getLast?.any isSeparator = false

namespace OfferedTree

variable (tree : OfferedTree)

def sender : Sender where
  binder := { binds := [(tree.name, tree.disk)] }
  process := permissive tree.cwd
  fs := tree.fs

/-- The node at a location relative to the offered entry. -/
def node (rel : Location UInt8) : Option Node := tree.fs.nodes.lookup (rel ++ tree.location)

/-- The tree has an entry there. -/
abbrev Has (rel : Location UInt8) : Prop := (rel ++ tree.location) ∈ tree.fs.nodes

/-- The web name of an entry of the tree. -/
def webName (rel : Location UInt8) : StdString := relative (tree.name :: rel.reverse)

/-- The path of an entry on the disk of the sender. -/
def diskPath (rel : Location UInt8) : StdString := tree.disk ++ spell slash rel.reverse

theorem webName_eq (rel : Location UInt8) :
    tree.webName rel = tree.name ++ spell slash rel.reverse := by
  rw [webName, relative, spell_cons]
  rfl

theorem webName_nil : tree.webName [] = tree.name := by simp [webName_eq, spell]

theorem webName_cons (name : StdString) (rel : Location UInt8) :
    tree.webName (name :: rel) = tree.webName rel ++ slash :: name := by
  rw [webName_eq, webName_eq, reverse_cons, spell_concat, append_assoc]

/-- The web name and the names of the entries are taken for what they are by `BaseKit::Path`. -/
class PlainNames : Prop where
  root : Plain tree.name
  below : ∀ rel, tree.Has rel → ∀ component ∈ rel, Plain component

variable {rel : Location UInt8}

theorem diskPath_cons : tree.diskPath (name :: rel) = tree.diskPath rel ++ slash :: name := by
  rw [diskPath, diskPath, reverse_cons, spell_concat, append_assoc]

variable [tree.PlainNames]

theorem plain : Plain tree.name := PlainNames.root

theorem plainBelow (rel : Location UInt8) : tree.Has rel → ∀ component ∈ rel, Plain component :=
  PlainNames.below rel

theorem getPath_webName : tree.sender.binder.getPath (tree.webName rel) = tree.diskPath rel := by
  have hne : tree.webName rel ≠ [] := by
    rw [webName_eq]
    simp [tree.plain.ne_nil]
  have hfind : tree.sender.binder.findBind (tree.webName rel) = some (tree.name, tree.disk) := by
    rw [WebBinder.findBind, webName_eq]
    simp [sender]
  exact WebBinder.getPath_of_findBind hne hfind (tree.webName_eq rel)

variable {tree} {rel inner : Location UInt8} {name : StdString}

omit [tree.PlainNames] in
theorem exists_node (h : tree.Has rel) : ∃ node, tree.node rel = some node :=
  Option.isSome_iff_exists.mp (AList.lookup_isSome.mpr h)

omit [tree.PlainNames] in
/-- What leads to another entry is a directory. -/
theorem node_of_suffix (hinner : tree.Has inner) (hsuffix : rel <:+ inner) (hne : rel ≠ inner) :
    tree.node rel = some .directory := by
  obtain ⟨hsub, hsubne⟩ := append_ne_of_suffix hsuffix hne tree.location
  exact isDir_of_mem hinner hsub hsubne

theorem disk_ne_nil (tree : OfferedTree) : tree.disk ≠ [] := by
  intro hnil
  have hfind := tree.find
  rw [hnil] at hfind
  cases hfind

theorem diskPath_ne_nil (tree : OfferedTree) (rel : Location UInt8) : tree.diskPath rel ≠ [] := by
  simp [diskPath, tree.disk_ne_nil]

theorem find_diskPath (h : tree.Has rel) :
    (permissive tree.cwd).find slash dot (tree.diskPath rel) tree.fs = some (rel ++ tree.location) := by
  induction rel with
  | nil =>
    rw [diskPath]
    simpa [spell] using tree.find
  | cons name rel ih =>
    have hdir : tree.fs.IsDir (rel ++ tree.location) := IsDir.of_mem h
    have hname := tree.plainBelow (name :: rel) h name mem_cons_self
    rw [diskPath_cons, Process.find_append_sep (tree.diskPath_ne_nil rel) hname.ordinary.2.2.2,
      ih hdir.mem, Option.bind_some, if_pos hdir, enter_ordinary hname.ordinary]
    rfl

theorem zero_not_mem_diskPath (h : tree.Has rel) : 0 ∉ tree.diskPath rel := by
  rw [diskPath, List.mem_append, not_or]
  refine ⟨tree.diskZero, ?_⟩
  rw [spell, mem_flatMap]
  rintro ⟨name, hname, hmem⟩
  rcases mem_cons.mp hmem with hslash | hzero
  · cases hslash
  · exact (tree.plainBelow rel h name (mem_reverse.mp hname)).noZero hzero

theorem type_diskPath (h : tree.Has rel) :
    Path.type tree.sender.process (tree.diskPath rel) tree.fs = .ok (tree.node rel) := by
  rw [Path.type, cStr_eq (zero_not_mem_diskPath h), Process.stat, Process.status]
  change (if _ then _ else Except.ok ((Process.find slash dot (permissive tree.cwd) _ _).bind _)) = _
  rw [find_diskPath h]
  rfl

/-- The paths that the sender iterates over are those of the entries. -/
theorem append_diskPath (h : tree.Has rel) :
    Path.append (tree.diskPath rel) name = tree.diskPath (name :: rel) := by
  have hlast : (tree.diskPath rel).getLast?.any isSeparator = false := by
    cases rel with
    | nil => simpa [diskPath, spell] using tree.diskLast
    | cons first rel =>
      obtain ⟨front, b, hname, hb, -⟩ := (tree.plainBelow (first :: rel) h first mem_cons_self).last
      rw [diskPath_cons, hname, ← cons_append, ← append_assoc, getLast?_concat]
      exact hb
  rw [diskPath_cons, Path.append, if_neg (tree.diskPath_ne_nil rel), if_neg (by simp [hlast])]

theorem filename_diskPath (h : tree.Has (name :: rel)) :
    Path.filename (tree.diskPath (name :: rel)) = name := by
  have hdir : tree.fs.IsDir (rel ++ tree.location) := IsDir.of_mem h
  have hname := tree.plainBelow (name :: rel) h name mem_cons_self
  rw [← append_diskPath hdir.mem, Path.filename_append hname.ne_nil hname.noBreak]

/-- The size that a listing gives for a node. -/
def size : Option Node → ℤ
  | some .directory => -1
  | some (.file size) => size
  | none => 0

theorem putFileInfo_diskPath (h : tree.Has rel) :
    putFileInfo tree.sender.process tree.fs (tree.diskPath rel) =
      .ok ⟨Path.filename (tree.diskPath rel), size (tree.node rel)⟩ := by
  rw [putFileInfo, type_diskPath h]
  rcases hnode : tree.node rel with _ | _ | _ <;> rfl

/-- The entries of a folder as they are listed. -/
def items (tree : OfferedTree) (rel : Location UInt8) : List InfoItem :=
  (tree.fs.entries (rel ++ tree.location)).map fun name ↦ ⟨name, size (tree.node (name :: rel))⟩

theorem mapM_putFileInfo {names : List StdString} (h : ∀ name ∈ names, tree.Has (name :: rel)) :
    (names.map fun name ↦ tree.diskPath (name :: rel)).mapM
        (putFileInfo tree.sender.process tree.fs) =
      .ok (names.map fun name ↦ ⟨name, size (tree.node (name :: rel))⟩) := by
  induction names with
  | nil => rfl
  | cons name names ih =>
    rw [forall_mem_cons] at h
    rw [map_cons, mapM_cons, putFileInfo_diskPath h.1, filename_diskPath h.1, ih h.2]
    rfl

theorem iterate_diskPath (h : tree.fs.IsDir (rel ++ tree.location)) :
    FileServer.iterate tree.sender.process tree.fs (tree.diskPath rel) =
      .ok ((tree.fs.entries (rel ++ tree.location)).map fun name ↦ tree.diskPath (name :: rel)) := by
  have hlist : tree.sender.process.list slash dot (cStr (tree.diskPath rel)) tree.fs =
      some (tree.fs.entries (rel ++ tree.location)) := by
    rw [cStr_eq (zero_not_mem_diskPath h.mem), Process.list]
    change (if _ then _ else (Process.find slash dot (permissive tree.cwd) _ _).bind _) = _
    rw [find_diskPath h.mem, Option.bind_some, if_pos h]
    rfl
  rw [FileServer.iterate, hlist]
  exact congrArg Except.ok (map_congr_left fun name _ ↦ append_diskPath h.mem)

theorem info_of_serveInfo {entry : InfoEntry}
    (h : serveInfo tree.sender.process tree.fs (tree.diskPath rel) = .ok (some entry))
    (requests : List Request) :
    tree.sender.remote.info requests (tree.webName rel) = some entry := by
  have hfs : tree.sender.fs = tree.fs := rfl
  simp only [Sender.remote, getPath_webName, hfs, h]

variable {requests : List Request}

/-- The answer to a request for a folder of the tree. -/
theorem info_folder (h : tree.fs.IsDir (rel ++ tree.location)) :
    tree.sender.remote.info requests (tree.webName rel) =
      some ⟨Path.filename (tree.diskPath rel), -1, tree.items rel⟩ := by
  have hnode : tree.node rel = some .directory := h
  have hmapM : ((tree.fs.entries (rel ++ tree.location)).map fun name ↦ tree.diskPath (name :: rel)).mapM
      (putFileInfo tree.sender.process tree.fs) = .ok (tree.items rel) :=
    mapM_putFileInfo fun name hname ↦ mem_entries.mp hname
  refine info_of_serveInfo ?_ requests
  simp only [serveInfo, type_diskPath h.mem, putFileInfo_diskPath h.mem, hnode, if_true,
    iterate_diskPath h]
  change (do let datas ← mapM (putFileInfo tree.sender.process tree.fs) _ return _) = _
  rw [hmapM]
  rfl

/-- The answer to a request for a file of the tree. -/
theorem info_file (h : tree.node rel = some (.file n)) :
    tree.sender.remote.info requests (tree.webName rel) =
      some ⟨Path.filename (tree.diskPath rel), n, []⟩ := by
  have hmem : tree.Has rel := mem_of_lookup h
  refine info_of_serveInfo ?_ requests
  simp only [serveInfo, type_diskPath hmem, putFileInfo_diskPath hmem, h]
  rfl

theorem content_file (h : tree.node rel = some (.file n)) :
    tree.sender.remote.content requests (tree.webName rel) = ⟨true, n, true⟩ := by
  have hfs : tree.sender.fs = tree.fs := rfl
  simp only [Sender.remote, getPath_webName, hfs, type_diskPath (mem_of_lookup h), h]

end OfferedTree

/-! ## Collecting the files of a folder -/

/-- The names that have been requested for download. -/
def requested (requests : List Request) : List StdString :=
  requests.filterMap fun
    | .download name => some name
    | _ => none

/-- Nothing has happened but requests for information. -/
def Quiet (t t' : Transfer) : Prop := t'.fs = t.fs ∧ requested t'.requests = requested t.requests

theorem Quiet.rfl {t : Transfer} : Quiet t t := ⟨Eq.refl _, Eq.refl _⟩

theorem Quiet.trans {t t'' : Transfer} (h : Quiet t t') (h' : Quiet t' t'') : Quiet t t'' :=
  ⟨h'.1.trans h.1, h'.2.trans h.2⟩

section Walk

variable {tree : OfferedTree} [tree.PlainNames] {rel : Location UInt8} {t : Transfer}

theorem returns_requestInfo {info : InfoEntry} {remote : Remote}
    (h : remote.info t.requests name = some info) :
    ∃ t', Returns (requestInfo remote name) t info t' ∧ Quiet t t' := by
  refine ⟨{ t with requests := t.requests ++ [Request.info name] }, ?_, rfl, ?_⟩
  · change (Except.ok ((remote.info t.requests name).getD {}), _) = _
    rw [h]
    rfl
  · simp [requested]

theorem returns_sendInfobyHeader (mask : HeaderInfo) (name : StdString) (t : Transfer) :
    ∃ t', Returns (sendInfobyHeader mask name) t () t' ∧ Quiet t t' :=
  ⟨_, returns_modify _ _, rfl, by simp [requested]⟩

theorem returns_report (progress : Progress) :
    ∃ t', Returns (report progress) t () t' ∧ Quiet t t' :=
  ⟨_, returns_modify _ _, rfl, rfl⟩

/-- The web names of the files that an entry of a folder stands for. -/
def pieces (tree : OfferedTree) (depth : ℕ) (rel : Location UInt8) (item : InfoItem) : List StdString :=
  (tree.fs.filesAt (tree.fs.filesBelow depth) (rel ++ tree.location) item.name).map
    fun inner ↦ tree.webName (inner ++ rel)

omit [tree.PlainNames] in
theorem flatMap_pieces :
    (tree.items rel).flatMap (pieces tree depth rel) =
      (tree.fs.filesBelow (depth + 1) (rel ++ tree.location)).map fun inner ↦ tree.webName (inner ++ rel) := by
  rw [OfferedTree.items, flatMap_map, filesBelow, map_flatMap]
  rfl

omit [tree.PlainNames] in
theorem pieces_folder (h : tree.node (name :: rel) = some .directory) (size : ℤ) :
    pieces tree depth rel ⟨name, size⟩ =
      (tree.fs.filesBelow depth (name :: rel ++ tree.location)).map
        fun inner ↦ tree.webName (inner ++ name :: rel) := by
  have hlookup : tree.fs.nodes.lookup (name :: (rel ++ tree.location)) = some .directory := h
  simp only [pieces, filesAt, hlookup, map_map]
  apply map_congr_left
  intro inner _
  simp

omit [tree.PlainNames] in
theorem pieces_file (h : tree.node (name :: rel) = some (.file n)) (size : ℤ) :
    pieces tree depth rel ⟨name, size⟩ = if n = 0 then [] else [tree.webName (name :: rel)] := by
  have hlookup : tree.fs.nodes.lookup (name :: (rel ++ tree.location)) = some (.file n) := h
  cases n with
  | zero | succ n => simp [pieces, filesAt, hlookup]

omit [tree.PlainNames] in
/-- An item of a listing is an entry of the folder. -/
theorem item_cases {item : InfoItem} (h : item ∈ tree.items rel) :
    (tree.node (item.name :: rel) = some .directory ∧ item.size = -1) ∨
      ∃ n : ℕ, tree.node (item.name :: rel) = some (.file n) ∧ item.size = n := by
  obtain ⟨name, hname, rfl⟩ := mem_map.mp h
  have hmem : tree.Has (name :: rel) := mem_entries.mp hname
  obtain ⟨node, hnode⟩ := OfferedTree.exists_node hmem
  dsimp only
  rw [hnode]
  cases node with
  | directory => exact .inl ⟨rfl, rfl⟩
  | file n => exact .inr ⟨n, rfl, rfl⟩

theorem length_lt_below {loc : Location UInt8} (name : StdString)
    (h : ∀ inner, (inner ++ loc) ∈ fs.nodes → inner.length < depth + 1) :
    ∀ inner, (inner ++ name :: loc) ∈ fs.nodes → inner.length < depth := by
  intro inner hinner
  have hlength := h (inner ++ [name]) (by simpa using hinner)
  rw [length_append, length_singleton] at hlength
  omega

/-- The files of a folder and below it are put behind those in the queue. -/
theorem returns_walkFolderEntry (hdir : tree.fs.IsDir (rel ++ tree.location))
    (hdepth : ∀ inner, (inner ++ (rel ++ tree.location)) ∈ tree.fs.nodes → inner.length < depth)
    (queue : List StdString) :
    ∃ t', Returns (walkFolderEntry tree.sender.remote depth (tree.webName rel) queue) t
        (queue ++ (tree.fs.filesBelow depth (rel ++ tree.location)).map
          fun inner ↦ tree.webName (inner ++ rel)) t' ∧ Quiet t t' := by
  induction depth generalizing rel t queue with
  | zero => exact absurd (hdepth [] hdir.mem) (Nat.not_lt_zero _)
  | succ depth ih =>
    obtain ⟨t₁, hinfo, hquiet⟩ := returns_requestInfo (OfferedTree.info_folder hdir)
    have hstep : ∀ done item rest queue' t', tree.items rel = done ++ item :: rest →
        queue' = queue ++ done.flatMap (pieces tree depth rel) ∧ Quiet t t' →
        ∃ queue'' t'', Returns (folderEntryStep (walkFolderEntry tree.sender.remote depth)
          (tree.webName rel) queue' item) t' queue'' t'' ∧
          queue'' = queue ++ (done ++ [item]).flatMap (pieces tree depth rel) ∧ Quiet t t'' := by
      rintro done item rest _ t' hitems ⟨rfl, hquiet⟩
      have hmem : item ∈ tree.items rel := by
        rw [hitems]
        simp
      rw [flatMap_append, flatMap_singleton, ← append_assoc, folderEntryStep, ← tree.webName_cons]
      rcases item_cases hmem with ⟨hnode, hsize⟩ | ⟨n, hnode, hsize⟩
      · obtain ⟨t'', hreturns, hquiet'⟩ := ih (t := t') hnode (length_lt_below _ hdepth)
          (queue ++ done.flatMap (pieces tree depth rel))
        rw [hsize, if_pos (by decide)]
        refine ⟨_, t'', hreturns, ?_, hquiet.trans hquiet'⟩
        rw [pieces_folder hnode item.size]
      · rw [hsize, if_neg (by omega), pieces_file hnode item.size]
        by_cases hn : n = 0
        · rw [hn, if_neg (by decide), if_pos rfl, append_nil]
          exact ⟨_, t', returns_pure _ _, rfl, hquiet⟩
        · rw [if_pos (by omega), if_neg hn]
          exact ⟨_, t', returns_pure _ _, rfl, hquiet⟩
    -- After some entries, the queue holds the files of these.
    obtain ⟨queue', t', hloop, rfl, hquiet'⟩ := returns_foldlM
      (fun done queue' t' ↦ queue' = queue ++ done.flatMap (pieces tree depth rel) ∧ Quiet t t')
      (tree.items rel) hstep (⟨by simp, hquiet⟩ : queue = queue ++ _ ∧ Quiet t t₁)
    refine ⟨t', ?_, hquiet'⟩
    rw [← flatMap_pieces]
    exact hinfo.bind hloop

end Walk

/-! ## Creating and downloading -/

section Copy

variable {tree : OfferedTree} [tree.PlainNames] {savedir : SaveDirectory} {receiver : Receiver}
  {t : Transfer} {before : FileSystem UInt8} {done : List (Location UInt8)} {rel : Location UInt8}

/-- A client that stores in the save directory, where nothing is refused to it. -/
structure Stores (receiver : Receiver) (savedir : SaveDirectory) : Prop where
  process : ∃ cwd, receiver.process = permissive cwd ∧ Away savedir cwd receiver.home
  savedir : receiver.savedir = savedir.path

/-- The local location of the offered entry. -/
def destination (savedir : SaveDirectory) (tree : OfferedTree) : Location UInt8 :=
  tree.name :: savedir.location

/-- The tree has been copied on the way to some locations. -/
def Copied (tree : OfferedTree) (savedir : SaveDirectory) (before : FileSystem UInt8)
    (done : List (Location UInt8)) (t : Transfer) : Prop :=
  Copies tree.fs tree.location before (destination savedir tree) done t.fs

theorem returns_available {path : StdString} {isfile : Bool}
    (h : createNextAvailableName receiver.process isfile receiver.home receiver.savedir receiver.rounds
    name t.fs = (fs, .returned path)) :
    Returns (available receiver name isfile) t path { t with fs := fs } := by
  unfold available
  refine (returns_get t).bind ?_
  simp only [h]
  exact (returns_set t _).bind (returns_pure _ _)

omit [tree.PlainNames] in
theorem placed_cons :
    placed savedir (tree.name :: rel.reverse) = rel ++ destination savedir tree := by
  rw [placed, reverse_cons, reverse_reverse, append_assoc]
  rfl

/-- The place of an entry of the tree. -/
theorem exists_spot (tree : OfferedTree) [tree.PlainNames] (hrel : ∀ component ∈ rel, Plain component) :
    ∃ spot : Spot savedir, spot.route = tree.name :: rel.reverse ∧
      spot.location = rel ++ destination savedir tree := by
  obtain ⟨dirs, last, hsplit⟩ :=
    (eq_nil_or_concat' (tree.name :: rel.reverse)).resolve_left (cons_ne_nil _ _)
  have hplain : ∀ component ∈ dirs ++ [last], Plain component := by
    rw [← hsplit, forall_mem_cons]
    exact ⟨tree.plain, fun component hcomponent ↦ hrel component (mem_reverse.mp hcomponent)⟩
  obtain ⟨hdirs, hlast⟩ := forall_mem_append.mp hplain
  refine ⟨⟨dirs, last, hdirs, hlast last mem_cons_self⟩, hsplit.symm, ?_⟩
  rw [← placed_cons, hsplit, placed_concat]
  rfl

/-- An entry of the tree is created at its place, if it and what leads to it is clear. -/
theorem createNextAvailableName_webName (hstores : Stores receiver savedir) (isfile : Bool)
    (hrel : ∀ component ∈ rel, Plain component) (hdir : t.fs.IsDir savedir.location)
    (hclear : t.fs.Clear (rel ++ destination savedir tree))
    (hnew : (rel ++ destination savedir tree) ∉ t.fs.nodes) :
    ∃ fs, createNextAvailableName receiver.process isfile receiver.home receiver.savedir
        receiver.rounds (tree.webName rel) t.fs =
          (fs, .returned (place savedir (tree.name :: rel.reverse))) ∧
      Planted t.fs (rel ++ destination savedir tree) (fresh isfile) fs := by
  obtain ⟨⟨cwd, hprocess, haway⟩, hsavedir⟩ := hstores
  obtain ⟨spot, hroute, hlocation⟩ := exists_spot tree hrel
  rw [hprocess, hsavedir, OfferedTree.webName, ← hroute]
  rw [← hlocation] at hclear hnew ⊢
  exact createNextAvailableName_place spot isfile receiver.rounds haway hdir
    (hclear.of_suffix (suffix_cons _ _)) hnew

/-- What leads to the offered entry's place was there before. -/
def Ready (savedir : SaveDirectory) (tree : OfferedTree) (before : FileSystem UInt8) : Prop :=
  ∀ loc, loc <:+ destination savedir tree → loc ≠ destination savedir tree → before.IsDir loc

omit [tree.PlainNames] in
theorem ready_of_isDir (hdir : fs.IsDir savedir.location) : Ready savedir tree fs := by
  intro loc hsuffix hne
  obtain ⟨front, hfront⟩ := hsuffix
  cases front with
  | nil => exact absurd hfront hne
  | cons first front =>
    have hloc : loc <:+ savedir.location := ⟨front, (cons.inj hfront).2⟩
    by_cases heq : loc = savedir.location
    · rwa [heq]
    · exact isDir_of_mem hdir.mem hloc heq

omit [tree.PlainNames] in
theorem clear_root (hready : Ready savedir tree fs)
    (hnew : ([] ++ destination savedir tree) ∉ fs.nodes) : fs.Clear ([] ++ destination savedir tree) := by
  intro loc hsuffix hmem
  refine hready loc hsuffix ?_
  rintro rfl
  exact hnew hmem

omit [tree.PlainNames] in
theorem Copied.isDir (h : Copied tree savedir before done t) (hready : Ready savedir tree before) :
    t.fs.IsDir savedir.location := by
  have habove : ¬ destination savedir tree <:+ savedir.location := not_suffix_cons_self
  rw [IsDir, h.outside _ habove]
  exact hready _ (suffix_cons _ _) (ne_of_not_suffix habove)

/-- An empty file of the tree is created. -/
theorem Copied.available (h : Copied tree savedir before done t) (hready : Ready savedir tree before)
    (hstores : Stores receiver savedir) (hrel : rel ≠ []) (hnode : tree.node rel = some (.file 0))
    (hnew : ∀ inner ∈ done, ¬ rel <:+ inner) :
    ∃ path fs, Returns (available receiver (tree.webName rel) true) t path { t with fs := fs } ∧
      Copied tree savedir before (done ++ [rel]) { t with fs := fs } := by
  have hmem : tree.Has rel := mem_of_lookup hnode
  obtain ⟨hclear, habsent⟩ := Copies.clear h hready hmem hrel hnew
  obtain ⟨fs, hcreate, hplanted⟩ := createNextAvailableName_webName hstores true
    (tree.plainBelow rel hmem) (h.isDir hready) hclear habsent
  exact ⟨_, fs, returns_available hcreate, Copies.plant h hready hnode hplanted⟩

/-- A file of the tree is downloaded to its place. -/
theorem returns_downloadFile (hstores : Stores receiver savedir)
    (hnode : tree.node rel = some (.file n)) (hdir : t.fs.IsDir savedir.location)
    (hclear : t.fs.Clear (rel ++ destination savedir tree))
    (hnew : (rel ++ destination savedir tree) ∉ t.fs.nodes) :
    ∃ t', Returns (downloadFile receiver tree.sender.remote (tree.webName rel) []) t () t' ∧
      Planted t.fs (rel ++ destination savedir tree) (.file n) t'.fs ∧
      requested t'.requests = requested t.requests ++ [tree.webName rel] := by
  have hmem : tree.Has rel := mem_of_lookup hnode
  have hrel := tree.plainBelow rel hmem
  obtain ⟨fs, hcreate, hplanted⟩ :=
    createNextAvailableName_webName hstores true hrel hdir hclear hnew
  obtain ⟨spot, hroute, hlocation⟩ := exists_spot tree hrel
  rw [← hlocation] at hplanted hnew ⊢
  have hparent : fs.IsDir spot.above :=
    hplanted.isDir (suffix_cons _ _) (ne_of_not_suffix not_suffix_cons_self)
  have hfile : ¬ fs.IsDir spot.location := by
    rw [IsDir, hplanted.lookup_self]
    intro heq
    cases heq
  obtain ⟨cwd, hprocess, -⟩ := hstores.process
  obtain ⟨fs', hwrite, hwritten⟩ := spot.write_path hparent cwd n hfile
  have hreceived : received receiver (place savedir (tree.name :: rel.reverse))
      (tree.sender.remote.content t.requests (tree.webName rel)) fs = fs' := by
    rw [OfferedTree.content_file hnode, received, hprocess, ← hroute, ← Spot.path]
    simp only [if_true, hwrite]
  have hne : place savedir (tree.name :: rel.reverse) ≠ [] := by
    rw [← hroute]
    exact (spelled_place savedir spot.plain).ne_nil
  refine ⟨{ t with fs := fs', requests := t.requests ++ [Request.download (tree.webName rel)] }, ?_,
    hplanted.overwrite hwritten, by simp [requested]⟩
  unfold downloadFile
  rw [if_pos rfl]
  refine (returns_available hcreate).bind ?_
  rw [if_neg hne]
  refine (returns_get _).bind ?_
  dsimp only
  rw [hreceived]
  exact returns_set _ _

theorem Copied.download (h : Copied tree savedir before done t)
    (hready : Ready savedir tree before) (hstores : Stores receiver savedir) (hrel : rel ≠ [])
    (hnode : tree.node rel = some (.file n)) (hnew : ∀ inner ∈ done, ¬ rel <:+ inner) :
    ∃ t', Returns (downloadFile receiver tree.sender.remote (tree.webName rel) []) t () t' ∧
      Copied tree savedir before (done ++ [rel]) t' ∧
      requested t'.requests = requested t.requests ++ [tree.webName rel] := by
  obtain ⟨hclear, habsent⟩ := Copies.clear h hready (mem_of_lookup hnode) hrel hnew
  obtain ⟨t', hreturns, hplanted, hrequested⟩ :=
    returns_downloadFile hstores hnode (h.isDir hready) hclear habsent
  exact ⟨t', hreturns, Copies.plant h hready hnode hplanted, hrequested⟩

/-! ## The whole folder -/

/-- The empty files among the first entries of the offered folder. -/
def empties (items : List InfoItem) : List (Location UInt8) :=
  items.filterMap fun item ↦ if item.size = 0 then some [item.name] else none

theorem nodup_items (tree : OfferedTree) (rel : Location UInt8) :
    ((tree.items rel).map InfoItem.name).Nodup := by
  rw [OfferedTree.items, map_map]
  simpa [Function.comp_def] using tree.fs.nodup_entries (rel ++ tree.location)

/-- The walk through the entries of the offered folder: the empty files are created, the other
files are in the queue. -/
theorem Copied.returns_folder (h : Copied tree savedir before [] t)
    (hready : Ready savedir tree before) (hstores : Stores receiver savedir)
    (hdepth : ∀ rel, tree.Has rel → rel.length ≤ depth) :
    ∃ t', Returns ((tree.items []).foldlM
        (folderStep receiver tree.sender.remote depth (tree.webName []) []) []) t
        ((tree.fs.filesBelow (depth + 1) tree.location).map tree.webName) t' ∧
      Copied tree savedir before (empties (tree.items [])) t' ∧
      requested t'.requests = requested t.requests := by
  have hstep : ∀ done item rest queue t', tree.items [] = done ++ item :: rest →
      queue = done.flatMap (pieces tree depth []) ∧ Copied tree savedir before (empties done) t' ∧
        requested t'.requests = requested t.requests →
      ∃ queue' t'', Returns (folderStep receiver tree.sender.remote depth (tree.webName []) [] queue item)
          t' queue' t'' ∧
        queue' = (done ++ [item]).flatMap (pieces tree depth []) ∧
        Copied tree savedir before (empties (done ++ [item])) t'' ∧
        requested t''.requests = requested t.requests := by
    rintro done item rest _ t' hitems ⟨rfl, hcopied, hrequested⟩
    have hmem : item ∈ tree.items [] := by
      rw [hitems]
      simp
    have hempties : empties (done ++ [item]) =
        empties done ++ if item.size = 0 then [[item.name]] else [] := by
      rw [empties, filterMap_append]
      congr 1
      by_cases hsize : item.size = 0 <;> simp [hsize]
    rw [flatMap_append, flatMap_singleton, hempties, folderStep, ← tree.webName_cons]
    rcases item_cases hmem with ⟨hnode, hsize⟩ | ⟨n, hnode, hsize⟩
    · have hbelow := length_lt_below item.name fun inner h ↦
        Nat.lt_succ_of_le (hdepth inner h)
      obtain ⟨t'', hreturns, hfs, hquiet⟩ := returns_walkFolderEntry (t := t') hnode hbelow
        (done.flatMap (pieces tree depth []))
      rw [hsize, if_pos (by decide), if_neg (by decide), append_nil, pieces_folder hnode item.size]
      refine ⟨_, t'', hreturns, rfl, ?_, hquiet.trans hrequested⟩
      rwa [Copied, hfs]
    · rw [hsize, if_neg (by omega), pieces_file hnode item.size]
      by_cases hn : n = 0
      · subst hn
        have hnew : ∀ inner ∈ empties done, ¬ [item.name] <:+ inner := by
          intro inner hinner hsuffix
          obtain ⟨other, hother, hsome⟩ := mem_filterMap.mp hinner
          split_ifs at hsome
          cases hsome
          have hsame : item.name = other.name := by
            simpa using hsuffix.eq_of_length rfl
          have hnodup := nodup_items tree []
          rw [hitems, map_append, map_cons] at hnodup
          apply disjoint_of_nodup_append hnodup (mem_map.mpr ⟨other, hother, hsame.symm⟩)
          exact mem_cons_self
        obtain ⟨path, fs, hreturns, hcopied'⟩ :=
          hcopied.available hready hstores (cons_ne_nil _ _) hnode hnew
        rw [if_neg (by decide)]
        exact ⟨_, _, hreturns.bind (returns_pure _ _), (append_nil _).symm, hcopied', hrequested⟩
      · rw [if_pos (by omega), if_neg hn, if_neg (by omega), append_nil]
        exact ⟨_, t', returns_pure _ _, rfl, hcopied, hrequested⟩
  obtain ⟨queue, t', hloop, rfl, hcopied, hrequested⟩ := returns_foldlM
    (fun done queue t' ↦ queue = done.flatMap (pieces tree depth []) ∧
      Copied tree savedir before (empties done) t' ∧ requested t'.requests = requested t.requests)
    (tree.items []) hstep (⟨rfl, h, rfl⟩ : [] = _ ∧ Copied tree savedir before (empties []) t ∧ _ = _)
  refine ⟨t', ?_, hcopied, hrequested⟩
  have hqueue : (tree.items []).flatMap (pieces tree depth []) =
      (tree.fs.filesBelow (depth + 1) tree.location).map tree.webName := by
    rw [flatMap_pieces]
    simp
  rwa [hqueue] at hloop

omit [tree.PlainNames] in
theorem mem_empties : rel ∈ empties (tree.items []) ↔ rel.length = 1 ∧ tree.node rel = some (.file 0) := by
  rw [empties, mem_filterMap]
  constructor
  · rintro ⟨item, hitem, hsome⟩
    split_ifs at hsome with hsize
    cases hsome
    rcases item_cases hitem with ⟨-, hfolder⟩ | ⟨n, hnode, hfile⟩
    · rw [hsize] at hfolder
      cases hfolder
    · have hn : n = 0 := by omega
      exact ⟨rfl, hn ▸ hnode⟩
  · rintro ⟨hlength, hnode⟩
    obtain ⟨name, rfl⟩ := length_eq_one_iff.mp hlength
    have hmem : name ∈ tree.fs.entries ([] ++ tree.location) :=
      mem_entries.mpr (mem_of_lookup hnode)
    refine ⟨⟨name, 0⟩, mem_map.mpr ⟨name, hmem, ?_⟩, if_pos rfl⟩
    rw [hnode]
    rfl

/-- The files in the queue are downloaded one after the other. -/
theorem Copied.returns_downloads (h : Copied tree savedir before (empties (tree.items [])) t)
    (hready : Ready savedir tree before) (hstores : Stores receiver savedir) :
    ∃ t', Returns (((tree.fs.filesBelow (depth + 1) tree.location).map tree.webName).foldlM
        (fun _ subName ↦ downloadFile receiver tree.sender.remote subName []) ()) t () t' ∧
      Copied tree savedir before
        (empties (tree.items []) ++ tree.fs.filesBelow (depth + 1) tree.location) t' ∧
      requested t'.requests =
        requested t.requests ++ (tree.fs.filesBelow (depth + 1) tree.location).map tree.webName := by
  set files := tree.fs.filesBelow (depth + 1) tree.location with hfiles
  have hstep : ∀ done rel rest (u : Unit) t', files = done ++ rel :: rest →
      Copied tree savedir before (empties (tree.items []) ++ done) t' ∧
        requested t'.requests = requested t.requests ++ done.map tree.webName →
      ∃ (u' : Unit) (t'' : Transfer),
        Returns (downloadFile receiver tree.sender.remote (tree.webName rel) []) t' u' t'' ∧
        Copied tree savedir before (empties (tree.items []) ++ (done ++ [rel])) t'' ∧
        requested t''.requests = requested t.requests ++ (done ++ [rel]).map tree.webName := by
    rintro done rel rest - t' hsplit ⟨hcopied, hrequested⟩
    have hmem : rel ∈ files := by
      rw [hsplit]
      simp
    obtain ⟨hrel, -, n, hnode⟩ := mem_filesBelow.mp (hfiles ▸ hmem)
    have hnew : ∀ inner ∈ empties (tree.items []) ++ done, ¬ rel <:+ inner := by
      intro inner hinner hsuffix
      have hne : rel ≠ inner := by
        rintro rfl
        rcases List.mem_append.mp hinner with hempty | hdone
        · have hzero := (mem_empties.mp hempty).2
          rw [OfferedTree.node, hnode] at hzero
          cases hzero
        · have hnodup := hfiles ▸ tree.fs.nodup_filesBelow (depth + 1) tree.location
          rw [hsplit] at hnodup
          exact disjoint_of_nodup_append hnodup hdone mem_cons_self
      have hinner : tree.Has inner := by
        rcases List.mem_append.mp hinner with hempty | hdone
        · exact mem_of_lookup (mem_empties.mp hempty).2
        · have hin : inner ∈ files := by
            rw [hsplit]
            exact mem_append_left _ hdone
          obtain ⟨-, -, m, hm⟩ := mem_filesBelow.mp (hfiles ▸ hin)
          exact mem_of_lookup hm
      have hdir := OfferedTree.node_of_suffix hinner hsuffix hne
      rw [OfferedTree.node, hnode] at hdir
      cases hdir
    obtain ⟨t'', hreturns, hcopied', hrequested'⟩ := hcopied.download hready hstores hrel hnode hnew
    refine ⟨(), t'', hreturns, ?_, ?_⟩
    · rwa [← append_assoc]
    · rw [hrequested', hrequested, map_append, map_singleton, append_assoc]
  rw [foldlM_map]
  obtain ⟨⟨⟩, t', hloop, hcopied, hrequested⟩ := returns_foldlM
    (fun done (_ : Unit) t' ↦ Copied tree savedir before (empties (tree.items []) ++ done) t' ∧
      requested t'.requests = requested t.requests ++ done.map tree.webName)
    files hstep ⟨by rwa [append_nil], by simp⟩
  exact ⟨t', hloop, hcopied, hrequested⟩

/-- What of the tree is copied. -/
def covered (tree : OfferedTree) (depth : ℕ) : List (Location UInt8) :=
  empties (tree.items []) ++ tree.fs.filesBelow (depth + 1) tree.location

theorem filename_place : Path.filename (place savedir [tree.name]) = tree.name := by
  have hnil : ∀ component ∈ ([] : List StdString), Plain component := by simp
  rw [← nil_append [tree.name], ← append_place hnil,
    Path.filename_append tree.plain.ne_nil tree.plain.noBreak]

/-- A walk has brought the whole tree, with one download for each file that is not empty. -/
@[mk_iff]
structure Mirrored (tree : OfferedTree) (savedir : SaveDirectory) (before after : Transfer) : Prop where
  entries : ∀ rel, after.fs.nodes.lookup (rel ++ destination savedir tree) = tree.node rel
  outside : ∀ loc, ¬ destination savedir tree <:+ loc →
    after.fs.nodes.lookup loc = before.fs.nodes.lookup loc
  once : (requested after.requests).Nodup
  downloads : ∀ name, name ∈ requested after.requests ↔
    ∃ rel n, tree.node rel = some (.file (n + 1)) ∧ name = tree.webName rel

/-- Every folder below the offered one leads to a file that is not empty, and the empty files
are directly in the offered folder. -/
structure Reached (tree : OfferedTree) : Prop where
  folders : ∀ rel, rel ≠ [] → tree.node rel = some .directory →
    ∃ inner n, tree.node (inner ++ rel) = some (.file (n + 1))
  empties : ∀ rel, tree.node rel = some (.file 0) → rel.length ≤ 1

omit [tree.PlainNames] in
theorem Copied.mirrored_iff (h : Copied tree savedir t.fs done t')
    (hnodup : (requested t'.requests).Nodup) (hdownloads : ∀ name, name ∈ requested t'.requests ↔
    ∃ rel n, tree.node rel = some (.file (n + 1)) ∧ name = tree.webName rel) :
    Mirrored tree savedir t t' ↔
      ∀ rel, tree.Has rel → rel = [] ∨ ∃ inner ∈ done, rel <:+ inner := by
  rw [← Copies.complete_iff h]
  exact ⟨fun hmirrored ↦ hmirrored.entries, fun hentries ↦ ⟨hentries, h.outside, hnodup, hdownloads⟩⟩

theorem eq_of_webName_eq {inner : Location UInt8} (hrel : tree.Has rel)
    (hinner : tree.Has inner) (heq : tree.webName rel = tree.webName inner) :
    rel = inner := by
  have hsplit : ∀ r, tree.Has r → (tree.webName r).splitOn slash = tree.name :: r.reverse := by
    intro r hr
    refine splitOn_relative (cons_ne_nil _ _) ?_
    rw [forall_mem_cons]
    exact ⟨tree.plain.ordinary.2.2.2,
      fun name hname ↦ (tree.plainBelow r hr name (mem_reverse.mp hname)).ordinary.2.2.2⟩
  have hlists := hsplit rel hrel
  rw [heq, hsplit inner hinner] at hlists
  exact (reverse_injective (cons.inj hlists).2).symm

theorem nodup_webNames : ((tree.fs.filesBelow depth tree.location).map tree.webName).Nodup := by
  refine Nodup.map_on ?_ (tree.fs.nodup_filesBelow depth tree.location)
  intro rel hrel inner hinner heq
  obtain ⟨-, -, n, hnode⟩ := mem_filesBelow.mp hrel
  obtain ⟨-, -, m, hinnerNode⟩ := mem_filesBelow.mp hinner
  exact eq_of_webName_eq (mem_of_lookup hnode) (mem_of_lookup hinnerNode) heq

omit [tree.PlainNames] in
/-- In a folder, exactly what is reached is covered. -/
theorem covered_iff (hdepth : ∀ rel, tree.Has rel → rel.length ≤ depth) :
    (∀ rel, tree.Has rel →
        rel = [] ∨ ∃ inner ∈ covered tree depth, rel <:+ inner) ↔ Reached tree := by
  have hmem : ∀ inner, inner ∈ covered tree depth ↔
      (inner.length = 1 ∧ tree.node inner = some (.file 0)) ∨
        inner ≠ [] ∧ ∃ n, tree.node inner = some (.file (n + 1)) := by
    intro inner
    rw [covered, List.mem_append, mem_empties, FileSystem.mem_filesBelow]
    refine or_congr_right ⟨fun h ↦ ⟨h.1, h.2.2⟩, fun ⟨hne, n, hn⟩ ↦ ⟨hne, ?_, n, hn⟩⟩
    have hlength := hdepth inner (mem_of_lookup hn)
    omega
  constructor
  · intro hall
    constructor
    · intro rel hrel hdir
      obtain ⟨inner, hinner, front, rfl⟩ := (hall rel (mem_of_lookup hdir)).resolve_left hrel
      rcases (hmem _).mp hinner with ⟨hlength, hempty⟩ | ⟨-, n, hn⟩
      · have hfront : front = [] := by
          rw [length_append] at hlength
          have hpos := length_pos_iff.mpr hrel
          exact length_eq_zero_iff.mp (by omega)
        rw [hfront, nil_append, hdir] at hempty
        cases hempty
      · exact ⟨front, n, hn⟩
    · intro rel hempty
      rcases hall rel (mem_of_lookup hempty) with hnil | ⟨inner, hinner, hsuffix⟩
      · rw [hnil]
        exact Nat.zero_le _
      · by_cases heq : rel = inner
        · subst heq
          rcases (hmem _).mp hinner with ⟨hlength, -⟩ | ⟨-, n, hn⟩
          · exact hlength.le
          · rw [hempty] at hn
            cases hn
        · have hinner : tree.Has inner := by
            rcases (hmem _).mp hinner with ⟨-, hnode⟩ | ⟨-, n, hnode⟩ <;> exact mem_of_lookup hnode
          have hdir := OfferedTree.node_of_suffix hinner hsuffix heq
          rw [hempty] at hdir
          cases hdir
  · intro hreached rel hrel
    by_cases hnil : rel = []
    · exact .inl hnil
    right
    obtain ⟨node, hnode⟩ := OfferedTree.exists_node hrel
    match node, hnode with
    | .directory, hdir =>
      obtain ⟨inner, n, hn⟩ := hreached.folders rel hnil hdir
      exact ⟨inner ++ rel, (hmem _).mpr (.inr ⟨by simp [hnil], n, hn⟩), suffix_append _ _⟩
    | .file 0, hempty =>
      have hlength := hreached.empties rel hempty
      have hpos := length_pos_iff.mpr hnil
      exact ⟨rel, (hmem _).mpr (.inl ⟨by omega, hempty⟩), suffix_rfl⟩
    | .file (n + 1), hfile =>
      exact ⟨rel, (hmem _).mpr (.inr ⟨hnil, n, hfile⟩), suffix_rfl⟩

omit [tree.PlainNames] in
/-- Nothing is below a file. -/
theorem eq_nil_of_file (hfile : tree.node [] = some (.file n))
    (hrel : tree.Has rel) : rel = [] := by
  by_contra hne
  have hdir := OfferedTree.node_of_suffix hrel nil_suffix (Ne.symm hne)
  rw [hfile] at hdir
  cases hdir

omit [tree.PlainNames] in
theorem reached_of_file (hfile : tree.node [] = some (.file n)) : Reached tree where
  folders := fun _ hne hdir ↦ absurd (eq_nil_of_file hfile (mem_of_lookup hdir)) hne
  empties := by
    intro rel hempty
    rw [eq_nil_of_file hfile (mem_of_lookup hempty)]
    exact Nat.zero_le _

omit [tree.PlainNames] in
theorem Quiet.mirrored_congr {t₁ t₂ : Transfer} (h : Quiet t t₁) (h' : Quiet t' t₂) :
    Mirrored tree savedir t t₂ ↔ Mirrored tree savedir t₁ t' := by
  rw [mirrored_iff, mirrored_iff, h.1, h'.1, h'.2]

section Empty

variable (hstores : Stores receiver savedir) (hdir : t.fs.IsDir savedir.location)
  (hempty : t.fs.isEmpty savedir.location = true)

include hstores hdir hempty

/-- The offered entry itself is created. -/
theorem returns_available_root (isfile : Bool) (hnode : tree.node [] = some (fresh isfile)) :
    ∃ fs, Returns (available receiver tree.name isfile) t (place savedir [tree.name]) { t with fs := fs } ∧
      Copied tree savedir t.fs [] { t with fs := fs } := by
  have hready : Ready savedir tree t.fs := ready_of_isDir hdir
  have hnew : ([] ++ destination savedir tree) ∉ t.fs.nodes := isEmpty_iff.mp hempty _
  have hname := tree.webName_nil
  obtain ⟨fs, hcreate, hplanted⟩ :=
    createNextAvailableName_webName hstores isfile (by simp) hdir (clear_root hready hnew) hnew
  rw [hname] at hcreate
  exact ⟨fs, returns_available hcreate, copies_nil hplanted hnode hnew hready⟩

theorem returns_walkFolder (hfolder : tree.node [] = some .directory)
    (hdepth : ∀ rel, tree.Has rel → rel.length ≤ depth) :
    ∃ t', Returns (walkFolder receiver tree.sender.remote depth tree.name) t () t' ∧
      Copied tree savedir t.fs (covered tree depth) t' ∧
      requested t'.requests =
        requested t.requests ++ (tree.fs.filesBelow (depth + 1) tree.location).map tree.webName := by
  have hready : Ready savedir tree t.fs := ready_of_isDir hdir
  have hname := tree.webName_nil
  obtain ⟨fs, havailable, hcopied⟩ := returns_available_root hstores hdir hempty false hfolder
  have hanswer : tree.sender.remote.info t.requests (tree.webName []) =
      some ⟨Path.filename (tree.diskPath []), -1, tree.items []⟩ := OfferedTree.info_folder hfolder
  obtain ⟨t₁, hinfo, hfs, hquiet⟩ := returns_requestInfo (t := { t with fs := fs }) hanswer
  have hcopied₁ : Copied tree savedir t.fs [] t₁ := by rwa [Copied, hfs]
  obtain ⟨t₂, hloop, hcopied₂, hrequested₂⟩ := hcopied₁.returns_folder hready hstores hdepth
  obtain ⟨t₃, hdownloads, hcopied₃, hrequested₃⟩ := hcopied₂.returns_downloads hready hstores
  refine ⟨t₃, ?_, hcopied₃, ?_⟩
  · rw [hname] at hinfo hloop
    unfold walkFolder
    refine havailable.bind ?_
    have hne : place savedir [tree.name] ≠ [] := by
      rw [place, spell_concat]
      simp
    rw [if_neg hne, filename_place]
    dsimp only
    rw [if_pos rfl]
    exact hinfo.bind (hloop.bind hdownloads)
  · rw [hrequested₃, hrequested₂, hquiet]

variable (hrequested : requested t.requests = [])

include hrequested

/-- The offered entry is a file: it is created or downloaded. -/
theorem returns_file (hfile : tree.node [] = some (.file n)) :
    ∃ t', Returns (if (n : ℤ) = 0 then (do let _ ← available receiver tree.name true return ())
        else if 0 < (n : ℤ) then downloadFile receiver tree.sender.remote tree.name []
        else walkFolder receiver tree.sender.remote depth tree.name) t () t' ∧
      Mirrored tree savedir t t' := by
  have hnew : ([] ++ destination savedir tree) ∉ t.fs.nodes := isEmpty_iff.mp hempty _
  have hready : Ready savedir tree t.fs := ready_of_isDir hdir
  have hname := tree.webName_nil
  have hcover : ∀ rel, tree.Has rel →
      rel = [] ∨ ∃ inner ∈ ([] : List (Location UInt8)), rel <:+ inner :=
    fun rel hrel ↦ .inl (eq_nil_of_file hfile hrel)
  cases n with
  | zero =>
    obtain ⟨fs, havailable, hcopied⟩ := returns_available_root hstores hdir hempty true hfile
    refine ⟨_, havailable.bind (returns_pure _ _), (hcopied.mirrored_iff ?_ ?_).mpr hcover⟩
    · rw [hrequested]
      exact nodup_nil
    · intro name
      rw [hrequested]
      refine iff_of_false not_mem_nil ?_
      rintro ⟨rel, n, hn, -⟩
      rw [eq_nil_of_file hfile (mem_of_lookup hn), hfile] at hn
      cases hn
  | succ n =>
    obtain ⟨t', hreturns, hplanted, hdownloads⟩ :=
      returns_downloadFile hstores hfile hdir (clear_root hready hnew) hnew
    rw [if_neg (by omega), if_pos (by omega)]
    rw [hname] at hreturns hdownloads
    rw [hrequested, nil_append] at hdownloads
    have hcopied : Copied tree savedir t.fs [] t' := copies_nil hplanted hfile hnew hready
    refine ⟨t', hreturns, (hcopied.mirrored_iff ?_ ?_).mpr hcover⟩
    · rw [hdownloads]
      exact nodup_singleton _
    · intro name
      rw [hdownloads, mem_singleton]
      constructor
      · rintro rfl
        exact ⟨[], n, hfile, hname.symm⟩
      · rintro ⟨rel, m, hm, rfl⟩
        rw [eq_nil_of_file hfile (mem_of_lookup hm), hname]

/-- The offered entry is a folder. -/
theorem returns_folder (hfolder : tree.node [] = some .directory)
    (hdepth : ∀ rel, tree.Has rel → rel.length ≤ depth) :
    ∃ t', Returns (walkFolder receiver tree.sender.remote depth tree.name) t () t' ∧
      (Mirrored tree savedir t t' ↔ Reached tree) := by
  obtain ⟨t', hreturns, hcopied, hdownloads⟩ := returns_walkFolder hstores hdir hempty hfolder hdepth
  rw [hrequested, nil_append] at hdownloads
  refine ⟨t', hreturns, ?_⟩
  rw [hcopied.mirrored_iff, covered_iff hdepth]
  · rw [hdownloads]
    exact nodup_webNames
  · intro name
    rw [hdownloads, List.mem_map]
    constructor
    · rintro ⟨rel, hrel, rfl⟩
      obtain ⟨-, -, n, hn⟩ := mem_filesBelow.mp hrel
      exact ⟨rel, n, hn, rfl⟩
    · rintro ⟨rel, n, hn, rfl⟩
      have hlength := hdepth rel (mem_of_lookup hn)
      refine ⟨rel, mem_filesBelow.mpr ⟨?_, by omega, n, hn⟩, rfl⟩
      rintro rfl
      rw [hfolder] at hn
      cases hn

theorem returns_walkName (hdepth : ∀ rel, tree.Has rel → rel.length ≤ depth) :
    ∃ t', Returns (walkName receiver tree.sender.remote depth tree.name) t () t' ∧
      (Mirrored tree savedir t t' ↔ Reached tree) := by
  obtain ⟨t₁, hhead, hquiet₁⟩ := returns_sendInfobyHeader .INFO_WEB_INDEX tree.name t
  obtain ⟨t₂, hreport, hquiet₂⟩ := returns_report (.WEB_INDEX_BEGIN tree.name)
  have hmem : tree.Has [] := tree.mem
  obtain ⟨node, hroot⟩ := OfferedTree.exists_node hmem
  have hanswer : tree.sender.remote.info t₂.requests tree.name =
      some ⟨Path.filename (tree.diskPath []), OfferedTree.size (some node),
        if node = .directory then tree.items [] else []⟩ := by
    rw [← tree.webName_nil]
    cases node with
    | directory => exact OfferedTree.info_folder hroot
    | file n => exact OfferedTree.info_file hroot
  obtain ⟨t₃, hinfo, hquiet₃⟩ := returns_requestInfo hanswer
  have hquiet : Quiet t t₃ := (hquiet₁.trans hquiet₂).trans hquiet₃
  rw [← hquiet.1] at hdir hempty
  rw [← hquiet.2] at hrequested
  have hprelude : ∀ {next : InfoEntry → Walk Unit} {t'}, Returns (next _) t₃ () t' → Returns (do
        sendInfobyHeader .INFO_WEB_INDEX tree.name
        report (.WEB_INDEX_BEGIN tree.name)
        let info ← requestInfo tree.sender.remote tree.name
        next info) t () t' := fun hnext ↦ hhead.bind (hreport.bind (hinfo.bind hnext))
  cases node with
  | directory =>
    obtain ⟨t', hreturns, hiff⟩ := returns_folder hstores hdir hempty hrequested hroot hdepth
    exact ⟨t', hprelude hreturns, (hquiet.mirrored_congr .rfl).trans hiff⟩
  | file n =>
    obtain ⟨t', hreturns, hmirrored⟩ := returns_file hstores hdir hempty hrequested hroot
    exact ⟨t', hprelude hreturns,
      iff_of_true ((hquiet.mirrored_congr .rfl).mpr hmirrored) (reached_of_file hroot)⟩

end Empty

end Copy

/-! ## Two offered folders -/

section Folders

/-- A folder below the root. -/
def offered (name : StdString) (fs : FileSystem UInt8) (hname : Plain name)
    (hdir : fs.IsDir [name])
    (hfind : (permissive []).find slash dot (slash :: name) fs = some [name]) : OfferedTree where
  name := name
  disk := slash :: name
  cwd := []
  fs := fs
  location := [name]
  find := hfind
  mem := hdir.mem
  diskZero := by
    rw [mem_cons, not_or]
    exact ⟨by decide, hname.noZero⟩
  diskLast := by
    obtain ⟨front, b, rfl, hb, -⟩ := hname.last
    rw [← cons_append, getLast?_concat]
    exact hb

def receiver : Receiver where
  process := permissive []
  home := none
  savedir := downloads.path
  rounds := 1

theorem stores_receiver : Stores receiver downloads where
  process := ⟨[], rfl, fun _ hpath ↦ nomatch hpath⟩
  savedir := rfl

/-- The save directory exists and holds nothing. -/
def start : Transfer where
  fs := .ofDirectories [downloads.location]
  requests := []
  reports := []

/-- A folder with an empty file, and with a file in a folder of its own. -/
def docs : OfferedTree :=
  offered (ascii "docs")
    (((ofDirectories [[ascii "a", ascii "docs"]]).put
      [ascii "f", ascii "a", ascii "docs"] (.file 3) (by decide +kernel) (by decide +kernel)).put
        [ascii "g", ascii "docs"] (.file 0) (by decide +kernel) (by decide +kernel))
    (by decide +kernel) (by decide +kernel) (by decide +kernel)

theorem plainNames_docs : docs.PlainNames where
  root := by decide +kernel
  below := by
    have hplain : ∀ loc ∈ docs.fs.nodes.keys, ∀ component ∈ loc, Plain component := by
      decide +kernel
    exact fun rel hrel component hcomponent ↦
      hplain _ (AList.mem_keys.mp hrel) component (mem_append_left _ hcomponent)

/-- What the folder contains. -/
abbrev docsEntries : List (Location UInt8) := [[], [ascii "a"], [ascii "f", ascii "a"], [ascii "g"]]

theorem mem_docs {rel : Location UInt8} (h : (rel ++ docs.location) ∈ docs.fs.nodes) :
    rel ∈ docsEntries := by
  have hkeys : ∀ loc ∈ docs.fs.nodes.keys, loc = [] ∨
      ∃ rel ∈ docsEntries, loc = rel ++ docs.location := by
    decide +kernel
  rcases hkeys _ (AList.mem_keys.mp h) with hnil | ⟨r, hr, heq⟩
  · exact absurd (append_eq_nil_iff.mp hnil).2 (cons_ne_nil _ _)
  · rwa [append_cancel_right heq]

theorem reached_docs : Reached docs where
  folders := by
    intro rel hne hdir
    have hfolders : ∀ r ∈ docsEntries,
        r = [] ∨ r = [ascii "a"] ∨ docs.node r ≠ some .directory := by decide +kernel
    rcases hfolders rel (mem_docs (mem_of_lookup hdir)) with hnil | ha | hfile
    · exact absurd hnil hne
    · refine ⟨[ascii "f"], 2, ?_⟩
      rw [ha]
      decide +kernel
    · exact absurd hdir hfile
  empties := by
    intro rel hempty
    have hfiles : ∀ r ∈ docsEntries,
        r.length ≤ 1 ∨ docs.node r ≠ some (.file 0) := by decide +kernel
    exact (hfiles rel (mem_docs (mem_of_lookup hempty))).resolve_right (absurd hempty)

/-- A folder with an empty folder. -/
def shelf : OfferedTree :=
  offered (ascii "docs") (.ofDirectories [[ascii "a", ascii "docs"]])
    (by decide +kernel) (by decide +kernel) (by decide +kernel)

end Folders

end DdeCooperation.Web.FileClient
