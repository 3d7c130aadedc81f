import DdeCooperation.Daemon.Blocks

/-!
# The names of blocks

A job sends entries of a directory that is given by an absolute path without redundant
parts. The blocks of a file are named by its path below that directory, whatever the names
are. The block of a directory is too, if and only if the job's directory does not occur again
in that path.
-/

namespace DdeCooperation.Daemon.SendingJob

open Foundations Web List Coost

/-- What stands before the name in a job path. -/
def frontOf (parent : Location UInt8) : StdString := spell slash parent.reverse ++ [slash]

variable {parent : Location UInt8} {names : List StdString} {name : StdString}

theorem frontOf_ne_nil (parent : Location UInt8) : frontOf parent ≠ [] := by
  simp [frontOf]

theorem pathTo_eq_frontOf (hne : names ≠ []) :
    pathTo slash (names.reverse ++ parent) = frontOf parent ++ relative names :=
  pathTo_append_relative hne parent

theorem filename_dirBlock (hne : names ≠ []) :
    (dirBlock (frontOf parent) (pathTo slash (names.reverse ++ parent))).filename =
      replace (relative names) (frontOf parent) [] := by
  rw [dirBlock, pathTo_eq_frontOf hne, replace_append (frontOf_ne_nil parent), nil_append]

/-- The directory part of a path below the job's directory. -/
theorem split_pathTo_append (hname : slash ∉ name) :
    split (pathTo slash (name :: names.reverse ++ parent)) =
      (spell slash parent.reverse ++ spell slash names ++ [slash], name) := by
  rw [cons_append, split_pathTo hname, reverse_append, reverse_reverse, spell_append]

theorem getSubdir_pathTo (hnames : Ordinaries slash dot names) (hname : slash ∉ name) :
    getSubdir (pathTo slash (name :: names.reverse ++ parent)) (frontOf parent) =
      if names = [] then [] else relative names := by
  rw [getSubdir, split_pathTo_append hname]
  dsimp only
  split_ifs with hlength hempty hempty
  · exfalso
    rw [hempty] at hlength
    simp [frontOf, spell] at hlength
  · have hfiledir : spell slash parent.reverse ++ spell slash names ++ [slash] =
        frontOf parent ++ (relative names ++ [slash]) := by
      rw [frontOf, ← cons_intercalate hempty]
      simp [relative]
    rw [hfiledir, removePrefix, if_pos (prefix_append _ _), drop_left, join_slash hempty hnames]
  · rfl
  · exfalso
    have hpos : 0 < (spell slash names).length := by
      rw [length_pos_iff, ← cons_intercalate hempty]
      exact cons_ne_nil _ _
    simp only [frontOf, length_append, length_singleton] at hlength
    omega

/-- The blocks of a file are named by its path. -/
theorem readFile_pathTo (parent : Location UInt8)
    (hnames : Ordinaries slash dot names) (hname : Ordinary slash dot name) (fileid : ℤ)
    (content : List UInt8) :
    readFile (frontOf parent) (pathTo slash (name :: names.reverse ++ parent)) fileid content =
      readFileBlock fileid (relative (names ++ [name])) content := by
  rw [readFile, getSubdir_pathTo hnames hname.2.2.2, split_pathTo_append hname.2.2.2]
  split_ifs with hempty
  · rw [hempty, join_nil hname, nil_append]
  · rw [join_relative hempty hnames hname]

variable (hparent : Ordinaries slash dot parent)

include hparent

theorem join_pathTo (hname : Ordinary slash dot name) :
    join (pathTo slash parent) name = pathTo slash (name :: parent) := by
  have habsolute : (pathTo slash parent).head? = some slash := rfl
  rw [join_absolute habsolute, location_pathTo hparent,
    splitOn_eq_singleton hname.2.2.2, foldl_cons, enter_ordinary hname, foldl_nil]

theorem join_pathTo_nil : join (pathTo slash parent) [] = pathTo slash parent := by
  have habsolute : (pathTo slash parent).head? = some slash := rfl
  rw [join_absolute habsolute, location_pathTo hparent, splitOn_nil,
    foldl_cons, ResolvedPath.enter_skip (.inl rfl), foldl_nil]

/-- The entries of the job's directory are sent like those of the directories below it. -/
theorem scanPaths_eq_readPath
    {entries : Forest UInt8 UInt8} (hentries : entries.Proper (Ordinary slash dot)) (count : ℕ) :
    scanPaths (frontOf parent) count entries =
      readPath (frontOf parent) (pathTo slash parent) count entries := by
  have hpath : ∀ name, Ordinary slash dot name →
      frontOf parent ++ name = pathTo slash (name :: parent) := by
    intro name hname
    have hfront : pathTo slash ([name].reverse ++ parent) =
        frontOf parent ++ relative [name] := pathTo_eq_frontOf (cons_ne_nil name [])
    simpa [relative] using hfront.symm
  have hroot : ∀ name, Ordinary slash dot name →
      (split (frontOf parent ++ name)).1 = frontOf parent := by
    intro name hname
    rw [hpath name hname, split_pathTo hname.2.2.2]
    rfl
  induction entries generalizing count with
  | nil => rfl
  | file name content rest ih =>
    rw [scanPaths, readPath, hroot name hentries.1, hpath name hentries.1,
      join_pathTo hparent hentries.1, ih hentries.2.2]
  | directory name inner rest _ ih =>
    rw [scanPaths, readPath, hroot name hentries.1, hpath name hentries.1,
      join_pathTo hparent hentries.1, ih hentries.2.2.2]

end DdeCooperation.Daemon.SendingJob
