import Mathlib.Data.Finset.Card
import Mathlib.Data.Nat.Digits.Defs
import DdeCooperation.Web.RequestUrl
import DdeCooperation.Web.SaveDirectory

/-!
# The end of the search for a name

The number that makes one candidate differ from the next is in the middle of the name, before
the last dot, and the middle is what is left out of a name that is too long. With a long stem
and a long extension all numbers give the same short name. When a file with that name is
there, the search does not end.

Otherwise every candidate comes to a name of its own, up to numbers of nine digits. An attempt
in vain changes nothing, and what is in its way is an entry of the directory. So the search
ends after as many rounds as the file system has entries, and one more.
-/

namespace DdeCooperation.Web.FileClient

open Foundations BaseKit ResolvedPath List

variable {process : Process UInt8} {isfile : Bool} {dir name filename : StdString}
  {fs : FileSystem UInt8} {i j : ℕ}

/-! ## Numbers in names -/

/-- What stands before the last dot. -/
def stem (filename : StdString) : StdString :=
  ((splitLast (· = dot) filename).map Prod.fst).getD filename

/-- The last dot and what follows it. -/
def extension (filename : StdString) : StdString :=
  ((splitLast (· = dot) filename).map fun (_, last, after) ↦ last :: after).getD []

theorem stem_append_extension (filename : StdString) :
    stem filename ++ extension filename = filename := by
  unfold stem extension
  cases hsplit : splitLast (· = dot) filename with
  | none => exact append_nil _
  | some parts => exact (of_splitLast_eq_some hsplit).1.symm

theorem numbered_eq (filename : StdString) (i : ℕ) :
    numbered filename i = stem filename ++ (tag i ++ extension filename) := by
  unfold numbered stem extension
  cases splitLast (· = dot) filename with
  | none => simp
  | some parts => simp

theorem tag_eq (i : ℕ) : tag i = 40 :: (stdToString i ++ [41]) := rfl

theorem stdToString_inj (h : stdToString i = stdToString j) : i = j := by
  have hdecimal := decimal_stdToString i
  rw [h, decimal_stdToString] at hdecimal
  exact (Option.some.inj hdecimal).symm

theorem paren_not_mem {b : UInt8} (h : b ∈ stdToString i) : b ≠ 40 ∧ b ≠ 41 := by
  have hdigit := all_eq_true.mp (all_isDigit i) b h
  constructor
  · rintro rfl
    cases hdigit
  · rintro rfl
    cases hdigit

/-- A number can be read off from its left. -/
theorem tag_append_inj {rest rest' : StdString} (h : tag i ++ rest = tag j ++ rest') : i = j := by
  have hread : ∀ (i : ℕ) (rest : StdString),
      ((tag i ++ rest).drop 1).takeWhile (· ≠ 41) = stdToString i := by
    intro i rest
    rw [tag_eq, cons_append, drop_succ_cons, drop_zero, append_assoc,
      takeWhile_append_of_pos fun b hb ↦ by simpa using (paren_not_mem hb).2]
    simp
  exact stdToString_inj (by rw [← hread i rest, h, hread])

/-- A number can be read off from its right. -/
theorem append_tag_inj {front front' : StdString} (h : front ++ tag i = front' ++ tag j) :
    i = j := by
  have hread : ∀ (i : ℕ) (front : StdString),
      splitLast (· = 40) (front ++ tag i) = some (front, 40, stdToString i ++ [41]) := by
    intro i front
    rw [tag_eq]
    refine splitLast_append rfl fun b hb ↦ decide_eq_false ?_
    rcases List.mem_append.mp hb with hdigit | hparen
    · exact (paren_not_mem hdigit).1
    · rw [mem_singleton.mp hparen]
      decide
  have hsplit := hread i front
  rw [h, hread] at hsplit
  simp only [Option.some.injEq, Prod.mk.injEq, true_and] at hsplit
  exact stdToString_inj (append_cancel_right hsplit.2.symm)

theorem length_tag (h : i < 10 ^ 9) : 3 ≤ (tag i).length ∧ (tag i).length ≤ 11 := by
  have hdigits : (stdToString i).length ≤ 9 := by
    rw [stdToString, length_map]
    exact Nat.toDigits_length 10 i 9 (by decide) h
  have hpos : 0 < (stdToString i).length := by
    rw [stdToString, length_map, length_pos_iff]
    exact Nat.toDigits_ne_nil
  rw [tag_eq, length_cons, length_append, length_singleton]
  omega

theorem length_numbered (filename : StdString) (i : ℕ) :
    (numbered filename i).length = filename.length + (tag i).length := by
  have hlength := congrArg length (stem_append_extension filename)
  rw [length_append] at hlength
  rw [numbered_eq, length_append, length_append]
  omega

/-! ## What is left of a numbered name -/

/-- A number of up to nine digits is left in the name. -/
def ShowsNumber (filename : StdString) : Prop :=
  filename.length + 11 < nameMax ∨ (stem filename).length + 11 ≤ nameMax / 3 ∨
    (extension filename).length + 11 ≤ nameMax / 3

/-- A name stays, or it is shortened because it is long. -/
def Becomes (name other : StdString) : Prop :=
  other = name ∨ nameMax ≤ name.length ∧ other = shortName name

theorem shortName_numbered_inj (hshows : ShowsNumber filename) (hi : i < 10 ^ 9) (hj : j < 10 ^ 9)
    (hlong : nameMax ≤ (numbered filename i).length)
    (hlong' : nameMax ≤ (numbered filename j).length)
    (h : shortName (numbered filename i) = shortName (numbered filename j)) : i = j := by
  have htag := length_tag hi
  have htag' := length_tag hj
  have hlength := length_numbered filename i
  have hlength' := length_numbered filename j
  have hfilename := congrArg length (stem_append_extension filename)
  rw [length_append] at hfilename
  have hmax : nameMax = 255 := rfl
  simp only [shortName, append_assoc] at h
  obtain ⟨htake, hrest⟩ := append_inj h (by rw [length_take, length_take]; omega)
  have hdrop := append_cancel_left hrest
  rcases hshows with hshort | hstem | hextension
  · omega
  · have hkept : ∀ i, (tag i).length ≤ 11 → (numbered filename i).take (nameMax / 3) =
        stem filename ++ (tag i ++ (extension filename).take
          (nameMax / 3 - (stem filename).length - (tag i).length)) := by
      intro i hi
      rw [numbered_eq, take_append, take_append, take_of_length_le (by omega),
        take_of_length_le (by omega)]
    rw [hkept i htag.2, hkept j htag'.2] at htake
    exact tag_append_inj (append_cancel_left htake)
  · have hkept : ∀ i, (tag i).length ≤ 11 → nameMax ≤ (numbered filename i).length →
        (numbered filename i).drop ((numbered filename i).length - nameMax / 3) =
          (stem filename).drop ((numbered filename i).length - nameMax / 3) ++ tag i ++
            extension filename := by
      intro i hi hlong
      have hlength := length_numbered filename i
      generalize hcut : (numbered filename i).length - nameMax / 3 = cut
      have hin : cut - (stem filename).length = 0 := by omega
      rw [numbered_eq, drop_append, hin, drop_zero, append_assoc]
    rw [hkept i htag.2 hlong, hkept j htag'.2 hlong'] at hdrop
    exact append_tag_inj (append_cancel_right hdrop)

/-- Different numbers come to different names. -/
theorem becomes_numbered_inj {other : StdString} (hshows : ShowsNumber filename)
    (hi : i < 10 ^ 9) (hj : j < 10 ^ 9) (h : Becomes (numbered filename i) other)
    (h' : Becomes (numbered filename j) other) : i = j := by
  have htag := length_tag hi
  have htag' := length_tag hj
  -- a name that is shortened is much shorter than those that are not
  have hmixed : ∀ {i j}, (tag i).length ≤ 11 → 3 ≤ (tag j).length →
      nameMax ≤ (numbered filename i).length →
        shortName (numbered filename i) ≠ numbered filename j := by
    intro i j hi hj hlong heq
    have hlength := length_shortName hlong
    rw [heq, length_numbered] at hlength
    rw [length_numbered, nameMax] at hlong
    omega
  rcases h with rfl | ⟨hlong, rfl⟩ <;> rcases h' with heq | ⟨hlong', heq⟩
  · rw [numbered_eq, numbered_eq] at heq
    exact tag_append_inj (append_cancel_left heq)
  · exact absurd heq.symm (hmixed htag'.2 htag.1 hlong')
  · exact absurd heq (hmixed htag.2 htag'.1 hlong)
  · exact shortName_numbered_inj hshows hi hj hlong hlong' heq

/-! ## One attempt -/

theorem type_eq {path : StdString} (hzero : 0 ∉ path) : Path.type process path fs =
    if process.refuses path then .error .refused else .ok (process.status slash dot path fs) := by
  rw [Path.type, cStr_eq hzero, Process.stat]

/-- A directory that is there, by a path after which the parents of its entries are cut. -/
structure Ground (process : Process UInt8) (dir : StdString) (fs : FileSystem UInt8) : Prop where
  noZero : 0 ∉ dir
  last : ∃ outer last, dir = outer ++ [last] ∧ isSeparator last = false ∧ last ≠ question ∧
    last ≠ colon
  isDir : Directory.isDirectoryExists process dir fs = .ok true

namespace Ground

variable (h : Ground process dir fs) (hname : Leaf name)

include h

theorem append_eq (name : StdString) : Path.append dir name = dir ++ slash :: name := by
  obtain ⟨outer, last, rfl, hlast, -, -⟩ := h.last
  exact Path.append_of_not_separator hlast

theorem createTree : Directory.createTree process dir fs = (fs, .ok ()) := by
  rw [Directory.createTree_eq, Directory.createTreeWith, h.isDir]

include hname

theorem filename_eq : Path.filename (dir ++ slash :: name) = name := by
  rw [← h.append_eq]
  exact Path.filename_append hname.ne_nil hname.noBreak

theorem parent_eq : Path.parent (dir ++ slash :: name) = dir := by
  obtain ⟨outer, last, rfl, hlast, hquestion, hcolon⟩ := h.last
  have hdrop : (outer ++ [last]).rdropWhile isSeparator = outer ++ [last] :=
    rdropWhile_concat_neg _ _ _ (by simp [hlast])
  rw [Path.parent_append_separator _ rfl hname.noBreak, hdrop]
  simp [hlast, hquestion, hcolon]

theorem shortPath_eq :
    Path.append (Path.parent (dir ++ slash :: name)) (shortName (Path.filename (dir ++ slash :: name))) =
      dir ++ slash :: shortName name := by
  rw [h.parent_eq hname, h.filename_eq hname, h.append_eq]

theorem noZero_entry : 0 ∉ dir ++ slash :: name := by
  rw [List.mem_append, List.mem_cons, not_or, not_or]
  exact ⟨h.noZero, by decide, hname.noZero⟩

omit hname

/-- The location of the directory. -/
theorem exists_location : ∃ loc, ∀ name, Leaf name →
    process.find slash dot (dir ++ slash :: name) fs = some (name :: loc) := by
  have hne : dir ≠ [] := by
    obtain ⟨outer, last, rfl, -⟩ := h.last
    simp
  have hdir := h.isDir
  rw [Directory.isDirectoryExists, type_eq h.noZero] at hdir
  split_ifs at hdir
  · cases hdir
  · have hstatus : process.status slash dot dir fs = some .directory := by
      simpa [Except.map] using hdir
    obtain ⟨loc, hfind, hloc⟩ := Option.bind_eq_some_iff.mp hstatus
    have hplace : fs.IsDir loc := hloc
    refine ⟨loc, fun name hname ↦ ?_⟩
    rw [Process.find_append_sep hne hname.ordinary.2.2.2, hfind, Option.bind_some, if_pos hplace,
      enter_ordinary hname.ordinary]

include hname

/-- Creating an entry of the directory leaves no traces when it fails. -/
theorem tryCreate_cases (isfile : Bool) :
    (∃ fs', tryCreate process isfile (dir ++ slash :: name) fs = (fs', .ok true)) ∨
      (∃ e, tryCreate process isfile (dir ++ slash :: name) fs = (fs, .error e)) ∨
      tryCreate process isfile (dir ++ slash :: name) fs = (fs, .ok false) ∧
        ∃ node, Path.type process (dir ++ slash :: name) fs = .ok (some node) := by
  unfold tryCreate
  rw [h.parent_eq hname, h.createTree]
  split
  · exact .inr (.inl ⟨_, rfl⟩)
  · exact .inr (.inr ⟨rfl, _, ‹_›⟩)
  · dsimp only
    split
    · exact .inr (.inl ⟨_, rfl⟩)
    · exact .inl ⟨_, rfl⟩

end Ground

/-- A directory can be listed, and for a file a file will do. -/
theorem exists_isUsable (isfile : Bool) {path : StdString} {node : Node} (hzero : 0 ∉ path)
    (htype : Path.type process path fs = .ok (some node))
    (hkind : isfile = true ∨ ∀ size, node ≠ .file size) :
    ∃ usable, isUsable process isfile path fs = .ok usable := by
  have hstatus := htype
  rw [type_eq hzero] at hstatus
  split_ifs at hstatus with hrefuses
  have hnode : process.status slash dot path fs = some node := Except.ok.inj hstatus
  obtain ⟨loc, hfind, hloc⟩ := Option.bind_eq_some_iff.mp hnode
  rw [isUsable, htype]
  cases node with
  | directory =>
    have hdir : fs.IsDir loc := hloc
    refine ⟨fs.isEmpty loc, ?_⟩
    simp [Directory.isDirectoryEmpty, Process.isDirectoryEmpty, cStr_eq hzero, hrefuses, hfind, hdir]
  | file size =>
    have hfile : isfile = true := hkind.resolve_right fun hnone ↦ hnone size rfl
    exact ⟨decide (size = 0), if_pos hfile⟩

/-- How an attempt for a name in a directory ends: with a path, without one, or at an entry that
is in use. -/
inductive Ended (process : Process UInt8) (dir : StdString) (fs : FileSystem UInt8)
    (name : StdString) : Attempt → Prop
  | found (fs' : FileSystem UInt8) (path : StdString) :
      Ended process dir fs name (fs', .ok (true, path))
  | failed : Ended process dir fs name (fs, .ok (false, []))
  | taken {other : StdString} (hbecomes : Becomes name other) (hleaf : Leaf other)
      (hpresent : process.status slash dot (dir ++ slash :: other) fs ≠ none) :
      Ended process dir fs name (fs, .ok (false, dir ++ slash :: other))

/-- Where a folder is asked for, no file is in the directory. -/
def NoFiles (process : Process UInt8) (isfile : Bool) (dir : StdString) (fs : FileSystem UInt8) :
    Prop :=
  isfile = true ∨ ∀ entry size,
    process.status slash dot (dir ++ slash :: entry) fs ≠ some (.file size)

section Attempting

variable (h : Ground process dir fs) (hkind : NoFiles process isfile dir fs) (hname : Leaf name)

include h hkind hname

theorem ended_createNotExistPathWith (again : StdString → FileSystem UInt8 → Attempt)
    (hagain : nameMax ≤ name.length →
      Ended process dir fs name (again (dir ++ slash :: shortName name) fs)) :
    Ended process dir fs name
      (createNotExistPathWith process isfile again (dir ++ slash :: name) fs) := by
  unfold createNotExistPathWith
  rw [h.shortPath_eq hname, h.filename_eq hname]
  rcases h.tryCreate_cases hname isfile with ⟨fs', hmade⟩ | ⟨e, herror⟩ | ⟨hthere, node, htype⟩
  · rw [hmade]
    exact .found fs' _
  · rw [herror]
    dsimp only
    split_ifs with hlong
    · exact hagain hlong
    · exact .failed
  · have hstatus := htype
    rw [type_eq (h.noZero_entry hname)] at hstatus
    split_ifs at hstatus
    have hnode : process.status slash dot (dir ++ slash :: name) fs = some node :=
      Except.ok.inj hstatus
    obtain ⟨usable, husable⟩ := exists_isUsable isfile (h.noZero_entry hname) htype
      (hkind.imp_right fun hnone size heq ↦ hnone name size (by rw [hnode, heq]))
    rw [hthere]
    dsimp only
    rw [husable]
    cases usable with
    | true => exact .found fs _
    | false => exact .taken (.inl rfl) hname (by rw [hnode]; exact Option.some_ne_none _)

theorem ended_createNotExistPath :
    Ended process dir fs name (createNotExistPath process isfile (dir ++ slash :: name) fs) := by
  refine ended_createNotExistPathWith h hkind hname _ fun hlong ↦ ?_
  have hleaf : Leaf (shortName name) := leaf_shortName hlong hname.noBreak hname.noZero
  have hshort : ¬ nameMax ≤ (shortName name).length := by
    rw [length_shortName hlong]
    decide
  have hended := ended_createNotExistPathWith h hkind hleaf (fun _ fs ↦ (fs, .ok (false, [])))
    fun _ ↦ .failed
  generalize createNotExistPathWith process isfile _ (dir ++ slash :: shortName name) fs =
    attempt at hended ⊢
  cases hended with
  | found fs' path => exact .found fs' path
  | failed => exact .failed
  | taken hbecomes hother hpresent =>
    have hsame := hbecomes.resolve_right fun hagain ↦ hshort hagain.1
    exact .taken (.inr ⟨hlong, hsame⟩) hother hpresent

end Attempting

/-! ## The search -/

/-- A directory and a name for which the search ends. -/
structure Roomy (process : Process UInt8) (isfile : Bool) (dir filename : StdString)
    (fs : FileSystem UInt8) : Prop where
  ground : Ground process dir fs
  noFiles : NoFiles process isfile dir fs
  leaf : Leaf filename
  shows : ShowsNumber filename
  entries : fs.nodes.keys.length + 1 < 10 ^ 9

/-- The search has ended, or there is an entry for each of its rounds. -/
theorem search_cases (h : Roomy process isfile dir filename fs) (rounds i : ℕ) :
    (∃ path, (search process isfile dir filename rounds i fs).2 = .returned path) ∨
      ∀ k < rounds, ∃ other, Becomes (numbered filename (i + k)) other ∧ Leaf other ∧
        process.status slash dot (dir ++ slash :: other) fs ≠ none := by
  induction rounds generalizing i with
  | zero => exact .inr fun k hk ↦ absurd hk (Nat.not_lt_zero k)
  | succ rounds ih =>
    have hleaf : Leaf (numbered filename i) := leaf_numbered h.leaf.noBreak h.leaf.noZero i
    have hended := ended_createNotExistPath h.ground h.noFiles hleaf
    rw [search, h.ground.append_eq]
    generalize createNotExistPath process isfile (dir ++ slash :: numbered filename i) fs =
      attempt at hended
    cases hended with
    | found fs' path => exact .inl ⟨path, rfl⟩
    | failed => exact .inl ⟨[], rfl⟩
    | @taken other hbecomes hother hpresent =>
      dsimp only
      rw [if_neg (by simp)]
      refine (ih (i + 1)).imp_right fun hrest k hk ↦ ?_
      cases k with
      | zero => exact ⟨other, hbecomes, hother, hpresent⟩
      | succ k =>
        have hnext := hrest k (Nat.lt_of_succ_lt_succ hk)
        rwa [Nat.add_assoc, Nat.add_comm 1 k] at hnext

/-- There are not so many entries. -/
theorem exists_returned (h : Roomy process isfile dir filename fs) : ∃ path,
    (search process isfile dir filename (fs.nodes.keys.length + 1) 1 fs).2 = .returned path := by
  refine (search_cases h _ 1).resolve_right fun hall ↦ ?_
  choose! other hbecomes hleaf hpresent using hall
  obtain ⟨loc, hloc⟩ := h.ground.exists_location
  have hentries := h.entries
  have hmem : ∀ k < fs.nodes.keys.length + 1, other k :: loc ∈ fs.nodes.keys := by
    intro k hk
    have hstatus := hpresent k hk
    rw [Process.status, hloc _ (hleaf k hk), Option.bind_some] at hstatus
    rw [← AList.mem_keys, ← AList.lookup_isSome]
    exact Option.isSome_iff_ne_none.mpr hstatus
  have hcard := Finset.card_le_card_of_injOn (s := Finset.range (fs.nodes.keys.length + 1))
    (t := fs.nodes.keys.toFinset) (fun k ↦ other k :: loc)
    (fun k hk ↦ mem_toFinset.mpr (hmem k (Finset.mem_range.mp hk))) (by
      intro k hk k' hk' heq
      have hk : k < fs.nodes.keys.length + 1 := Finset.mem_range.mp hk
      have hk' : k' < fs.nodes.keys.length + 1 := Finset.mem_range.mp hk'
      have hother : other k = other k' := (cons.inj heq).1
      have hsame := becomes_numbered_inj h.shows (by omega) (by omega) (hbecomes k hk)
        (hother ▸ hbecomes k' hk')
      omega)
  rw [Finset.card_range] at hcard
  have hkeys := toFinset_card_le fs.nodes.keys
  omega

/-- A system that takes no names longer than `NAME_MAX`. -/
def nameMaxProcess : Process UInt8 where
  cwd := []
  refuses path := (path.splitOn slash).any fun component ↦ nameMax < component.length

/-- A long name that is the same at both ends. -/
def framed (middle : StdString) : StdString :=
  replicate 100 97 ++ middle ++ replicate 200 120

/-- What is left of it. -/
def frame : StdString := replicate 85 97 ++ ascii "..." ++ replicate 85 120

theorem length_framed (middle : StdString) : (framed middle).length = middle.length + 300 := by
  simp only [framed, length_append, length_replicate]
  omega

theorem shortName_framed (middle : StdString) : shortName (framed middle) = frame := by
  have htake : (framed middle).take 85 = replicate 85 97 := by
    rw [framed, append_assoc, take_append_of_le_length (by simp), take_replicate]
    rfl
  have hdrop : (framed middle).drop ((framed middle).length - 85) = replicate 85 120 := by
    have hlength : (framed middle).length - 85 =
        (replicate 100 97 ++ middle : StdString).length + 115 := by
      rw [length_framed, length_append, length_replicate]
      omega
    rw [hlength, framed, drop_append, drop_of_length_le (by omega), nil_append,
      Nat.add_sub_cancel_left, drop_replicate]
  simp only [shortName, nameMax, Nat.reduceDiv, htake, hdrop]
  rfl

theorem leaf_framed {middle : StdString} (hbreak : ∀ b ∈ middle, isBreak b = false)
    (hzero : 0 ∉ middle) : Leaf (framed middle) := by
  have hmem : ∀ b ∈ framed middle, b = 97 ∨ b ∈ middle ∨ b = 120 := by
    intro b hb
    simp only [framed, List.mem_append, List.mem_replicate] at hb
    tauto
  apply leaf_of_long
  · rw [length_framed]
    omega
  · intro b hb
    rcases hmem b hb with rfl | hmiddle | rfl
    · decide
    · exact hbreak b hmiddle
    · decide
  · intro hb
    rcases hmem 0 hb with h | hmiddle | h
    · cases h
    · exact hzero hmiddle
    · cases h

theorem leaf_framed_dot : Leaf (framed [dot]) :=
  leaf_framed (forall_mem_singleton.mpr rfl) (by decide)

/-- All numbers are left out in the end. -/
theorem numbered_framed (i : ℕ) : numbered (framed [dot]) i = framed (tag i ++ [dot]) := by
  have hsplit : splitLast (· = dot) (framed [dot]) =
      some (replicate 100 97, dot, replicate 200 120) := by
    rw [framed, append_assoc, singleton_append]
    refine splitLast_append rfl fun b hb ↦ ?_
    rw [eq_of_mem_replicate hb]
    decide
  rw [numbered, hsplit]
  simp [framed]

/-- The directory has a file of one byte with the name that is left. -/
def frameTaken : FileSystem UInt8 :=
  (FileSystem.makeFile [frame, ascii "d"] 1 (.ofDirectories [[ascii "d"]])).getD (.ofDirectories [])

theorem ground_frameTaken : Ground nameMaxProcess (ascii "/d") frameTaken where
  noZero := by decide
  last := ⟨ascii "/", 100, by decide, by decide, by decide, by decide⟩
  isDir := by decide +kernel

theorem createNotExistPath_framed {middle : StdString} (hleaf : Leaf (framed middle)) :
    createNotExistPath nameMaxProcess true (ascii "/d" ++ slash :: framed middle) frameTaken =
      (frameTaken, .ok (false, ascii "/d" ++ slash :: frame)) := by
  have hlong : nameMax < (framed middle).length := by
    rw [length_framed, nameMax]
    omega
  have hrefuses : nameMaxProcess.refuses (ascii "/d" ++ slash :: framed middle) = true := by
    simp [nameMaxProcess, splitOn_append_cons_self, splitOn_eq_singleton hleaf.ordinary.2.2.2, hlong]
  have hrefused : tryCreate nameMaxProcess true (ascii "/d" ++ slash :: framed middle) frameTaken =
      (frameTaken, .error .refused) := by
    rw [tryCreate, type_eq (ground_frameTaken.noZero_entry hleaf), if_pos hrefuses]
  have hthere : tryCreate nameMaxProcess true (ascii "/d" ++ slash :: frame) frameTaken =
      (frameTaken, .ok false) := by
    have htype : Path.type nameMaxProcess (ascii "/d" ++ slash :: frame) frameTaken =
        .ok (some (.file 1)) := by decide +kernel
    rw [tryCreate, htype]
  have husable : isUsable nameMaxProcess true (ascii "/d" ++ slash :: frame) frameTaken =
      .ok false := by decide +kernel
  rw [createNotExistPath, createNotExistPathWith, hrefused]
  dsimp only
  rw [ground_frameTaken.shortPath_eq hleaf, ground_frameTaken.filename_eq hleaf, if_pos hlong.le,
    shortName_framed, createNotExistPathWith, hthere]
  dsimp only
  rw [husable]
  rfl

theorem search_framed (rounds i : ℕ) :
    search nameMaxProcess true (ascii "/d") (framed [dot]) rounds i frameTaken =
      (frameTaken, .searching) := by
  induction rounds generalizing i with
  | zero => rfl
  | succ rounds ih =>
    have hleaf := leaf_numbered leaf_framed_dot.noBreak leaf_framed_dot.noZero i
    rw [numbered_framed] at hleaf
    rw [search, ground_frameTaken.append_eq, numbered_framed, createNotExistPath_framed hleaf]
    dsimp only
    rw [if_neg (by simp), ih]

theorem target_framed :
    target (ascii "/d") (framed [dot]) = ascii "/d" ++ slash :: framed [dot] := by
  have hslash : slash ∉ framed [dot] := leaf_framed_dot.ordinary.2.2.2
  have hordinary : ∀ component ∈ [framed [dot], ascii "d"], Ordinary slash dot component := by
    rw [forall_mem_cons]
    exact ⟨leaf_framed_dot.ordinary, by decide⟩
  have hjoin : StdPath.join (ascii "/d") (framed [dot]) =
      pathTo slash [framed [dot], ascii "d"] := by
    have hhead : (framed [dot]).head? ≠ some slash := fun hhead ↦
      hslash (mem_of_mem_head? hhead)
    rw [StdPath.join, if_neg hhead, if_neg (by decide)]
    simp [pathTo, ascii, slash]
  have hpath : pathTo slash [framed [dot], ascii "d"] = ascii "/d" ++ slash :: framed [dot] := by
    simp [pathTo, ascii, slash]
  rw [target, hjoin, StdPath.lexicallyNormal_pathTo hordinary, hpath]

end DdeCooperation.Web.FileClient
