import DdeCooperation.Foundations.Trees
import DdeCooperation.Web.Containment

/-!
# Files at their own place

When nothing is in the way, `createNextAvailableName` creates a name where it says: at the
same path below the save directory, together with the directories that lead there. The names
are those that the system and `BaseKit::Path` read alike.
-/

namespace DdeCooperation.Web.FileClient

open Foundations BaseKit ResolvedPath List Option Path FileSystem Directory Process StdPath

/-- A name that leads one level down, and after which a slash means no drive. -/
structure Plain (name : StdString) : Prop extends Leaf name where
  noQuestion : name.getLast? ≠ some question

variable {name : StdString}

theorem plain_iff : Plain name ↔ (name ≠ [] ∧ name ≠ [dot] ∧ name ≠ [dot, dot] ∧ slash ∉ name) ∧
      name.all (fun b ↦ !isBreak b) = true ∧ 0 ∉ name ∧ name.getLast? ≠ some question := by
  simp only [List.all_eq_true, Bool.not_eq_true']
  exact ⟨fun h ↦ ⟨h.ordinary, h.noBreak, h.noZero, h.noQuestion⟩, fun h ↦ ⟨⟨h.1, h.2.1, h.2.2.1⟩, h.2.2.2⟩⟩

instance (name : StdString) : Decidable (Plain name) := decidable_of_iff' _ plain_iff

theorem Plain.last (h : Plain name) :
    ∃ front b, name = front ++ [b] ∧ isSeparator b = false ∧ b ≠ question ∧ b ≠ colon := by
  obtain ⟨front, b, rfl⟩ := (eq_nil_or_concat' name).resolve_left h.ne_nil
  have hbreak := h.noBreak b (mem_append_right _ mem_cons_self)
  obtain ⟨hseparator, hcolon⟩ := Bool.or_eq_false_iff.mp hbreak
  refine ⟨front, b, rfl, hseparator, ?_, of_decide_eq_false hcolon⟩
  rintro rfl
  exact h.noQuestion getLast?_concat

/-- The relative path through some names, the outermost first. -/
def relative (names : List StdString) : StdString := (spell slash names).tail

variable {names : List StdString}

theorem slash_cons_relative (h : names ≠ []) : slash :: relative names = spell slash names := by
  cases names with
  | nil => exact absurd rfl h
  | cons => rfl

theorem splitOn_relative (hne : names ≠ []) (h : ∀ name ∈ names, slash ∉ name) :
    (relative names).splitOn slash = names := by
  have hsplit := splitOn_spell h
  have hcons : ([] ++ slash :: relative names).splitOn slash =
      [].splitOn slash ++ (relative names).splitOn slash := splitOn_append_cons_self _ _
  rw [nil_append, slash_cons_relative hne, hsplit, splitOn_nil, singleton_append,
    cons_inj_right] at hcons
  exact hcons.symm

section Place

variable (savedir : SaveDirectory) {cwd : Location UInt8} {fs fs' : FileSystem UInt8}
  {names : List StdString} {last : StdString}

/-- The path of some names below the save directory. -/
def place (names : List StdString) : StdString := spell slash (savedir.names ++ names)

/-- The location of some names below the save directory. -/
def placed (names : List StdString) : Location UInt8 := names.reverse ++ savedir.location

theorem place_nil : place savedir [] = base savedir.path := by
  rw [place, append_nil, savedir.base_eq]

theorem place_concat : place savedir (names ++ [last]) = place savedir names ++ slash :: last := by
  rw [place, ← append_assoc, spell_concat]
  rfl

theorem placed_concat : placed savedir (names ++ [last]) = last :: placed savedir names := by
  rw [placed, reverse_append, reverse_singleton, singleton_append, cons_append]
  rfl

variable {savedir}

theorem spelled_place (savedir : SaveDirectory) (h : ∀ name ∈ names, Plain name) :
    Spelled (place savedir names) (savedir.names ++ names) [] where
  text := by
    rw [append_nil]
    rfl
  ends := .inl rfl
  nonempty := by simp [savedir.names_ne_nil]
  ordinary := forall_mem_append.mpr ⟨savedir.ordinary, fun name hmem ↦ (h name hmem).ordinary⟩

theorem reverse_names_append : (savedir.names ++ names).reverse = placed savedir names := by
  rw [reverse_append, savedir.reverse_names]
  rfl

theorem located_place (h : ∀ name ∈ names, Plain name) (process : Process UInt8) :
    located process (place savedir names) = placed savedir names := by
  rw [(spelled_place savedir h).located_eq, reverse_names_append]

theorem zero_not_mem_place (savedir : SaveDirectory) (h : ∀ name ∈ names, Plain name) :
    0 ∉ place savedir names := by
  rw [place, spell_append, List.mem_append, not_or]
  constructor
  · have hbase := lexicallyNormal_zero savedir.absolute savedir.noZero
    rw [← savedir.base_eq]
    exact fun hmem ↦ hbase ((List.rdropWhile_prefix _ _).subset hmem)
  · rw [spell, mem_flatMap]
    rintro ⟨name, hname, hmem⟩
    rcases mem_cons.mp hmem with hslash | hzero
    · cases hslash
    · exact (h name hname).noZero hzero

/-- A path below the save directory does not end in a separator, and below the first level it
does not end like a drive either. -/
theorem place_last (savedir : SaveDirectory) (h : ∀ name ∈ names, Plain name) :
    ∃ outer b, place savedir names = outer ++ [b] ∧ isSeparator b = false ∧
      (names ≠ [] → b ≠ question ∧ b ≠ colon) := by
  rcases eq_nil_or_concat' names with rfl | ⟨init, name, rfl⟩
  · obtain ⟨outer, b, hspell, hb⟩ := savedir.spell_names
    rw [place_nil, savedir.base_eq]
    exact ⟨outer, b, hspell, hb, fun hne ↦ absurd rfl hne⟩
  · obtain ⟨front, b, rfl, hseparator, hquestion, hcolon⟩ :=
      (h name (mem_append_right _ mem_cons_self)).last
    refine ⟨place savedir init ++ slash :: front, b, ?_, hseparator, fun _ ↦ ⟨hquestion, hcolon⟩⟩
    rw [place_concat, append_assoc]
    rfl

theorem append_place (h : ∀ name ∈ names, Plain name) :
    Path.append (place savedir names) last = place savedir (names ++ [last]) := by
  obtain ⟨outer, b, hplace, hb, -⟩ := place_last savedir h
  rw [place_concat, hplace, append_of_not_separator hb]

/-- A name below the save directory, with the directories that lead to it. -/
structure Spot (savedir : SaveDirectory) where
  dirs : List StdString
  last : StdString
  plainDirs : ∀ name ∈ dirs, Plain name
  plainLast : Plain last

/-- The node that is created for a name. -/
def fresh (isfile : Bool) : Node := if isfile then .file 0 else .directory

namespace Spot

variable (spot : Spot savedir)

def route : List StdString := spot.dirs ++ [spot.last]

def path : StdString := place savedir spot.route

/-- The directory the name is in. -/
def above : Location UInt8 := placed savedir spot.dirs

def location : Location UInt8 := spot.last :: spot.above

theorem plain : ∀ name ∈ spot.route, Plain name :=
  forall_mem_append.mpr ⟨spot.plainDirs, by simpa using spot.plainLast⟩

theorem cStr_path : cStr spot.path = spot.path := cStr_eq (zero_not_mem_place savedir spot.plain)

theorem rdropWhile_path : spot.path.rdropWhile (· = slash) = spot.path := by
  obtain ⟨outer, b, hplace, hb, -⟩ := place_last savedir spot.plain
  have hslash : b ≠ slash := by
    rintro rfl
    cases hb
  rw [path, hplace, rdropWhile_concat_neg _ _ _ (by simpa using hslash)]

/-- The last name is found where the names before it lead to a directory. -/
theorem find_path : (permissive cwd).find slash dot spot.path fs =
    if fs.IsDir spot.above then some spot.location else none := by
  have hspelled := spelled_place savedir spot.plainDirs
  rw [path, route, place_concat, find_append_sep hspelled.ne_nil spot.plainLast.ordinary.2.2.2]
  by_cases hdir : fs.IsDir spot.above
  · have hfind : (permissive cwd).find slash dot (place savedir spot.dirs) fs = some spot.above := by
      rw [above, ← reverse_names_append] at hdir ⊢
      exact hspelled.find_eq hdir
    rw [hfind, bind_some, enter_ordinary spot.plainLast.ordinary]
    rfl
  · rw [if_neg hdir, bind_eq_none_iff]
    intro loc hfind
    have hloc : loc = spot.above := by
      rw [above, ← located_place spot.plainDirs (permissive cwd)]
      exact locate_of_find hfind
    rw [hloc, if_neg hdir]

theorem type_path :
    Path.type (permissive cwd) spot.path fs = .ok (fs.nodes.lookup spot.location) := by
  rw [type, cStr_path, stat, status, find_path]
  split_ifs with hrefused hdir
  · cases hrefused
  · rfl
  · have habsent : fs.nodes.lookup spot.location = none :=
      lookup_eq_none.mpr fun hmem ↦ hdir (IsDir.of_mem hmem)
    rw [habsent]
    rfl

/-- The directory that is created, or that is there, is the one of the last name. -/
theorem isDirectoryExists_path (cwd : Location UInt8) (fs : FileSystem UInt8) :
    Directory.isDirectoryExists (permissive cwd) spot.path fs =
      .ok (decide (fs.IsDir spot.location)) := by
  rw [isDirectoryExists, type_path]
  rfl

variable {spot} (hparent : fs.IsDir spot.above)

include hparent

/-- One new directory. -/
theorem create_path (hnew : spot.location ∉ fs.nodes) :
    ∃ fs', Directory.create (permissive cwd) spot.path fs = .ok fs' ∧
      Planted fs spot.location .directory fs' := by
  obtain ⟨fs', hmake, hplanted⟩ := makeDirectory_of hnew hparent
  have hmkdir : (permissive cwd).mkdir slash dot (cStr spot.path) fs = some fs' := by
    rw [cStr_path, mkdir, if_neg (by simp [permissive]), rdropWhile_path, find_path, if_pos hparent, bind_some,
      hmake]
  refine ⟨fs', ?_, hplanted⟩
  rw [create, isDirectoryExists_path, decide_eq_false fun h ↦ hnew h.mem, hmkdir]

/-- Writing a file where no directory is. -/
theorem write_path (cwd : Location UInt8) (size : ℕ) (hfile : ¬ fs.IsDir spot.location) :
    ∃ fs', (permissive cwd).write slash dot (cStr spot.path) size fs = some fs' ∧
      Planted fs spot.location (.file size) fs' := by
  obtain ⟨fs', hmake, hplanted⟩ : ∃ fs', fs.makeFile spot.location size = some fs' ∧
      Planted fs spot.location (.file size) fs' := makeFile_of hfile hparent
  refine ⟨fs', ?_, hplanted⟩
  rw [cStr_path, write, if_neg (by simp [permissive]), find_path, if_pos hparent, bind_some, hmake]

/-- One new file. -/
theorem writeEmpty_path (hnew : spot.location ∉ fs.nodes) :
    ∃ fs', File.writeEmpty (permissive cwd) spot.path fs = .ok fs' ∧
      Planted fs spot.location (.file 0) fs' := by
  obtain ⟨fs', hwrite, hplanted⟩ := write_path hparent cwd 0 fun h ↦ hnew h.mem
  have hcreat : (permissive cwd).creat slash dot (cStr spot.path) fs = some fs' := hwrite
  refine ⟨fs', ?_, hplanted⟩
  rw [File.writeEmpty, hcreat]

omit hparent

variable (spot)

theorem parent_path : Path.parent spot.path = place savedir spot.dirs ∨
    spot.dirs = [] ∧ Path.parent spot.path = place savedir [] ++ [slash] := by
  obtain ⟨outer, b, hplace, hb, hdrive⟩ := place_last savedir spot.plainDirs
  have hsettled : Path.Settled (place savedir spot.dirs) := by
    rw [hplace]
    exact settled_of_last hb
  rw [path, route, ← append_place spot.plainDirs]
  rcases parent_append (spelled_place savedir spot.plainDirs).ne_nil hsettled spot.plainLast.ne_nil
    spot.plainLast.noBreak with heq | ⟨hends, heq⟩
  · exact .inl heq
  · by_cases hnil : spot.dirs = []
    · exact .inr ⟨hnil, by rw [heq, hnil]⟩
    · obtain ⟨hquestion, hcolon⟩ := hdrive hnil
      rw [hplace, getLast?_concat, some.injEq, some.injEq] at hends
      rcases hends with h | h
      · exact absurd h hquestion
      · exact absurd h hcolon

end Spot

theorem not_mem_of_planted {loc : Location UInt8} {node : Node} {entry : StdString}
    (h : Planted fs loc node fs') (hnew : (entry :: loc) ∉ fs.nodes) :
    (entry :: loc) ∉ fs'.nodes := by
  rw [← lookup_eq_none, h.lookup_other not_suffix_cons_self]
  exact lookup_eq_none.mpr hnew

/-- The save directory, however it is written. -/
theorem isDirectoryExists_of_spelled {path : StdString} {ending : List StdString}
    (hspelled : Spelled path savedir.names ending) (hzero : 0 ∉ path)
    (hdir : fs.IsDir savedir.location) :
    Directory.isDirectoryExists (permissive cwd) path fs = .ok true := by
  rw [← savedir.reverse_names] at hdir
  have hlookup : fs.nodes.lookup savedir.names.reverse = some .directory := hdir
  rw [isDirectoryExists, type, cStr_eq hzero, stat, status, hspelled.find_eq hdir, bind_some, hlookup]
  rfl

/-- The directories that lead to a clear place. -/
theorem createTree_place (hnames : ∀ name ∈ names, Plain name) (hdir : fs.IsDir savedir.location)
    (hclear : fs.Clear (placed savedir names)) :
    ∃ fs', Directory.createTree (permissive cwd) (place savedir names) fs = (fs', .ok ()) ∧
      Planted fs (placed savedir names) .directory fs' := by
  induction names using reverseRecOn with
  | nil =>
    refine ⟨fs, ?_, planted_of_isDir hdir⟩
    have hspelled := spelled_place savedir hnames
    rw [append_nil] at hspelled
    rw [createTree_eq, createTreeWith,
      isDirectoryExists_of_spelled hspelled (zero_not_mem_place savedir hnames) hdir]
  | append_singleton names last ih =>
    obtain ⟨hnames', hlast⟩ := forall_mem_append.mp hnames
    let spot : Spot savedir := ⟨names, last, hnames', hlast last mem_cons_self⟩
    rw [placed_concat] at hclear ⊢
    change ∃ fs', createTree (permissive cwd) spot.path fs = (fs', .ok ()) ∧
      Planted fs spot.location .directory fs'
    have hexists := spot.isDirectoryExists_path cwd fs
    rw [createTree_eq, createTreeWith, hexists]
    by_cases hthere : fs.IsDir spot.location
    · rw [decide_eq_true hthere]
      exact ⟨fs, rfl, planted_of_isDir hthere⟩
    · rw [decide_eq_false hthere] at hexists ⊢
      have hnew : spot.location ∉ fs.nodes := fun hmem ↦ hthere (hclear _ suffix_rfl hmem)
      by_cases hparent : fs.IsDir spot.above
      · obtain ⟨fs', hcreate, hplanted⟩ := spot.create_path hparent hnew
        dsimp only
        rw [hcreate]
        exact ⟨fs', rfl, hplanted⟩
      · -- The parent is missing too, so that it is not the save directory.
        have hne : names ≠ [] := by
          rintro rfl
          exact hparent hdir
        have hup : parent spot.path = place savedir names :=
          spot.parent_path.resolve_right fun h ↦ hne h.1
        have hcreate : create (permissive cwd) spot.path fs = .error .refused := by
          have hmkdir : (permissive cwd).mkdir slash dot (cStr spot.path) fs = none := by
            rw [spot.cStr_path, mkdir, if_neg (by simp [permissive]), spot.rdropWhile_path,
              spot.find_path, if_neg hparent]
            rfl
          rw [create, hexists, hmkdir]
        obtain ⟨middle, htree, hmiddle⟩ := ih hnames' (hclear.of_suffix (suffix_cons _ _))
        obtain ⟨fs', hlater, hplanted⟩ :=
          spot.create_path hmiddle.lookup_self (not_mem_of_planted hmiddle hnew)
        dsimp only
        rw [hcreate, hup]
        dsimp only
        rw [if_neg (spelled_place savedir hnames').ne_nil, htree]
        dsimp only
        rw [hlater]
        exact ⟨fs', rfl, hmiddle.then hplanted⟩

namespace Spot

variable {spot : Spot savedir} (hdir : fs.IsDir savedir.location) (hclear : fs.Clear spot.above)

include hdir hclear

theorem createTree_parent (cwd : Location UInt8) : ∃ fs',
    Directory.createTree (permissive cwd) (Path.parent spot.path) fs = (fs', .ok ()) ∧
      Planted fs spot.above .directory fs' := by
  rcases spot.parent_path with heq | ⟨hnil, heq⟩
  · rw [heq]
    exact createTree_place spot.plainDirs hdir hclear
  · -- The save directory ends like a drive; the separator behind it makes no difference.
    have habove : spot.above = savedir.location := by
      rw [above, hnil]
      rfl
    rw [habove]
    refine ⟨fs, ?_, planted_of_isDir hdir⟩
    have hspelled : Spelled (place savedir [] ++ [slash]) savedir.names [[]] := by
      refine ⟨?_, .inr rfl, by simp, savedir.ordinary⟩
      rw [place, append_nil, spell_concat]
    have hzero : 0 ∉ place savedir [] ++ [slash] := by
      rw [List.mem_append, not_or]
      exact ⟨zero_not_mem_place savedir (by simp), by decide⟩
    rw [heq, createTree_eq, createTreeWith, isDirectoryExists_of_spelled hspelled hzero hdir]

/-- A name that is not there is created at its place. -/
theorem createNotExistPath_path (cwd : Location UInt8) (isfile : Bool)
    (hnew : spot.location ∉ fs.nodes) :
    ∃ fs', createNotExistPath (permissive cwd) isfile spot.path fs = (fs', .ok (true, spot.path)) ∧
      Planted fs spot.location (fresh isfile) fs' := by
  obtain ⟨middle, htree, hmiddle⟩ := createTree_parent hdir hclear cwd
  have hparent : middle.IsDir spot.above := hmiddle.lookup_self
  have hnew' := not_mem_of_planted hmiddle hnew
  obtain ⟨fs', hmade, hplanted⟩ : ∃ fs',
      (if isfile then File.writeEmpty (permissive cwd) spot.path middle
        else create (permissive cwd) spot.path middle) = .ok fs' ∧
      Planted middle spot.location (fresh isfile) fs' := by
    cases isfile with
    | true => exact writeEmpty_path hparent hnew'
    | false => exact create_path hparent hnew'
  refine ⟨fs', ?_, hmiddle.then hplanted⟩
  have htype : type (permissive cwd) spot.path fs = .ok none := by
    rw [type_path, lookup_eq_none.mpr hnew]
  have htry : tryCreate (permissive cwd) isfile spot.path fs = (fs', .ok true) := by
    rw [tryCreate, htype]
    dsimp only
    rw [htree]
    dsimp only
    rw [hmade]
  rw [createNotExistPath, createNotExistPathWith, htry]

end Spot

end Place

/-! ## Names as the client resolves them -/

section Resolve

variable {savedir : SaveDirectory} {names : List StdString} {fs : FileSystem UInt8}

/-- The components of a relative path follow those of the save directory. -/
theorem splitOn_join (savedir : SaveDirectory) (hne : names ≠ []) (hnames : ∀ name ∈ names, Plain name) :
    ∃ front, (StdPath.join savedir.path (relative names)).splitOn slash = front ++ names ∧
      front.foldl (enter dot true) [] = savedir.location := by
  have hslash : ∀ name ∈ names, slash ∉ name := fun name hmem ↦ (hnames name hmem).ordinary.2.2.2
  have hsplit := splitOn_relative hne hslash
  have hhead : (relative names).head? ≠ some slash := by
    intro hhead
    obtain ⟨name, more, rfl⟩ := exists_cons_of_ne_nil hne
    have hname := hnames name mem_cons_self
    have hrelative : relative (name :: more) = name ++ spell slash more := by
      rw [relative, spell_cons]
      rfl
    rw [hrelative, head?_append_of_ne_nil _ hname.ne_nil] at hhead
    exact hname.ordinary.2.2.2 (mem_of_mem_head? hhead)
  have hlocation : (savedir.path.splitOn slash).foldl (enter dot true) [] = savedir.location := by
    have hroot : decide (savedir.path.head? = some slash) = true := decide_eq_true savedir.absolute
    rw [SaveDirectory.location, resolve, hroot]
  have hpath : savedir.path ≠ [] := by
    intro hnil
    have habsolute := savedir.absolute
    rw [hnil] at habsolute
    cases habsolute
  rw [StdPath.join, if_neg hhead]
  by_cases hends : savedir.path.getLast? = some slash
  · obtain ⟨front, last, hfront⟩ := (eq_nil_or_concat' savedir.path).resolve_left hpath
    rw [hfront, getLast?_concat, some.injEq] at hends
    subst hends
    refine ⟨front.splitOn slash, ?_, ?_⟩
    · rw [if_pos (.inr (by rw [hfront, getLast?_concat])), hfront, append_assoc,
        singleton_append, splitOn_append_cons_self, hsplit]
    · rw [← hlocation, hfront, splitOn_append_cons_self, splitOn_nil, foldl_append,
        foldl_cons, foldl_nil, enter_skip (.inl rfl)]
  · refine ⟨savedir.path.splitOn slash, ?_, hlocation⟩
    rw [if_neg (not_or.mpr ⟨hpath, hends⟩), splitOn_append_cons_self, hsplit]

variable (spot : Spot savedir)

theorem target_relative : target savedir.path (relative spot.route) = spot.path := by
  have hlast := spot.plainLast.ordinary
  obtain ⟨front, hsplit, hfront⟩ := splitOn_join savedir (by simp [Spot.route]) spot.plain
  have habsolute := savedir.join_absolute (relative spot.route)
  have hroot : decide ((join savedir.path (relative spot.route)).head? = some slash) = true :=
    decide_eq_true habsolute
  have hcomponents : (resolve slash dot (join savedir.path (relative spot.route))).components =
      spot.route.reverse ++ savedir.location := by
    rw [resolve]
    dsimp only
    rw [hroot, hsplit, foldl_append, hfront,
      foldl_enter_ordinary fun name hmem ↦ (spot.plain name hmem).ordinary]
  have hclosed : ¬ endsOpen (join savedir.path (relative spot.route)) := by
    rw [endsOpen, hsplit, Spot.route, ← append_assoc, getLast?_concat]
    simp only [mem_cons, some.injEq, not_mem_nil, or_false]
    exact fun h ↦ h.elim hlast.1 (·.elim hlast.2.1 hlast.2.2.1)
  rw [target, lexicallyNormal_closed habsolute (by rw [hcomponents]; simp [Spot.route]) hclosed,
    hcomponents, reverse_append, reverse_reverse]
  rfl

/-- The home directory is not the save directory, nor below it. -/
def Away (savedir : SaveDirectory) (cwd : Location UInt8) (home : Option StdString) : Prop :=
  ∀ path ∈ home, ¬ savedir.location <:+ located (permissive cwd) (cStr path)

variable {cwd : Location UInt8} {home : Option StdString}

theorem redirect_place (isfile : Bool) (haway : Away savedir cwd home) :
    redirect (permissive cwd) isfile home spot.path fs = spot.path := by
  have hparent : located (permissive cwd) (cStr (Path.parent spot.path)) = spot.above := by
    have hdirs := spot.plainDirs
    have hzero := zero_not_mem_place savedir hdirs
    rcases spot.parent_path with heq | ⟨hnil, heq⟩
    · rw [heq, cStr_eq hzero, located_place hdirs]
      rfl
    · rw [hnil] at hdirs hzero
      have hzero' : 0 ∉ place savedir [] ++ [slash] := by
        rw [List.mem_append, not_or]
        exact ⟨hzero, by decide⟩
      rw [heq, cStr_eq hzero', located_append_slash (spelled_place savedir hdirs).ne_nil (by simp),
        enter_skip (.inl rfl), located_place hdirs, Spot.above, hnil]
  cases isfile with
  | false => rfl
  | true =>
    unfold redirect
    rw [if_pos rfl]
    cases home with
    | none => rfl
    | some path =>
      dsimp only
      have hdiffer : Path.isEquivalent (permissive cwd) (Path.parent spot.path) path fs ≠ .ok true := by
        unfold Path.isEquivalent
        split
        · rename_i loc loc' hloc hloc'
          have hinode : ∀ {text loc}, (permissive cwd).inode slash dot text fs = some loc →
              loc = located (permissive cwd) text := by
            intro text loc hinode
            rw [Process.inode, if_neg (by simp [permissive])] at hinode
            obtain ⟨loc', hfind, hsome⟩ := bind_eq_some_iff.mp hinode
            split_ifs at hsome
            rw [← some.inj hsome]
            exact Process.locate_of_find hfind
          intro heq
          have hsame : loc = loc' := of_decide_eq_true (Except.ok.inj heq)
          apply haway path rfl
          rw [← hinode hloc', ← hsame, hinode hloc, hparent]
          exact suffix_append _ _
        · exact fun heq ↦ nomatch heq
      split
      · exact absurd ‹_› hdiffer
      · rfl

/-- A name that is not there is created at its place, and its path is returned. -/
theorem createNextAvailableName_place (isfile : Bool)
    (rounds : ℕ) (haway : Away savedir cwd home) (hdir : fs.IsDir savedir.location)
    (hclear : fs.Clear spot.above) (hnew : spot.location ∉ fs.nodes) :
    ∃ fs', createNextAvailableName (permissive cwd) isfile home savedir.path rounds
        (relative spot.route) fs = (fs', .returned spot.path) ∧
      Planted fs spot.location (fresh isfile) fs' := by
  obtain ⟨fs', hmade, hplanted⟩ := spot.createNotExistPath_path hdir hclear cwd isfile hnew
  refine ⟨fs', ?_, hplanted⟩
  have hpasses : passes spot.path (base savedir.path) := by
    right
    rw [Spot.path, place, spell_append, savedir.base_eq, drop_left,
      head?_spell (by simp [Spot.route])]
    exact ⟨List.prefix_append _ _, rfl⟩
  rw [createNextAvailableName, target_relative, if_pos hpasses]
  dsimp only
  rw [redirect_place spot isfile haway, hmade]

end Resolve

end DdeCooperation.Web.FileClient
