import Amber.Lib.Vfs.Walk

/-!
# File system calls

The calls of a standard library on the tree: each resolves its path and then acts at the
canonical place it was led to.  The process is taken to be allowed everything it asks for.

`Confined root fs₀ fs` says that `fs` differs from `fs₀` at and below `root` only: every object
elsewhere is where it was, with the mode and the data it had.  Each call has a lemma that says
what it takes to stay confined, in terms of the place its path leads to.
-/

namespace Vfs

open List

variable {N : Type} [DecidableEq N]

inductive Fault
  | notFound
  | other
  deriving DecidableEq

def WalkError.fault : WalkError → Fault
  | .notFound => .notFound
  | _ => .other

/-- The file system after a call, and whether the call succeeded. -/
abbrev Res (N : Type) [DecidableEq N] := Fs N × Except Fault Unit

/-- Go on unless the call failed. -/
def Res.andThen (r : Res N) (next : Fs N → Res N) : Res N :=
  match r.2 with
  | .ok _ => next r.1
  | .error e => (r.1, .error e)

namespace Fs

variable (fs : Fs N)

/-! ## The calls -/

def newMode (mode : ℕ) : ℕ := mode - (mode &&& fs.umask)

/-- `Path::exists`. -/
def exists? (p : Path N) : Bool := (fs.canonicalize p).isSome

/-- `Path::is_dir`. -/
def isDir? (p : Path N) : Bool :=
  match fs.canonicalize p with
  | some c => decide (fs.IsDir c)
  | none => false

/-- `symlink_metadata`: what the path names, without following a link at its end. -/
def symlinkMetadata (p : Path N) : Option (Obj N) :=
  match fs.resolve false p with
  | .found c => fs.get c
  | _ => none

/-- `mkdir`. -/
def mkdir (p : Path N) : Res N :=
  match fs.resolve false ⟨p.abs, p.comps, .bare⟩ with
  | .found _ => (fs, .error .other)
  | .missing c n => (fs.insert c n (.dir (fs.newMode 0o777)), .ok ())
  | .error e => (fs, .error e.fault)

/-- `create_dir_all`, over the components in reverse. -/
def createDirAllRev (abs : Bool) : List (Comp N) → Res N
  | [] =>
    if abs = false then (fs, .ok ())
    else if fs.isDir? ⟨true, [], .bare⟩ then (fs, .ok ()) else (fs, .error .other)
  | x :: xs =>
    let p : Path N := ⟨abs, (x :: xs).reverse, .bare⟩
    match fs.mkdir p with
    | (fs', .ok _) => (fs', .ok ())
    | (_, .error .notFound) =>
      (createDirAllRev abs xs).andThen fun fs' =>
        match fs'.mkdir p with
        | (fs'', .ok _) => (fs'', .ok ())
        | (_, .error e) => if fs'.isDir? p then (fs', .ok ()) else (fs', .error e)
    | (_, .error e) => if fs.isDir? p then (fs, .ok ()) else (fs, .error e)

/-- `create_dir_all`. -/
def createDirAll (p : Path N) : Res N := fs.createDirAllRev p.abs p.comps.reverse

/-- `set_permissions`; follows a link at the end. -/
def setPermissions (p : Path N) (mode : ℕ) : Res N :=
  match fs.canonicalize p with
  | none => (fs, .error .other)
  | some c =>
    match fs.get c with
    | some (.dir _) => (fs.chmodDir c mode, .ok ())
    | some (.file ino) => (fs.setInode ino { fs.inodes ino with mode }, .ok ())
    | _ => (fs, .error .other)

/-- `remove_file`. -/
def removeFile (p : Path N) : Res N :=
  match fs.resolve false p with
  | .found c => if fs.IsDir c then (fs, .error .other) else (fs.remove c, .ok ())
  | .missing _ _ => (fs, .error .notFound)
  | .error e => (fs, .error e.fault)

/-- `rmdir`: an empty directory under its own name.  A slash behind the name does not lead through
a link, and a path that ends in a dot or in the parent is refused. -/
def rmdir (p : Path N) : Res N :=
  match fs.resolve false p.unslashed with
  | .found c =>
    if p.named = true ∧ fs.IsDir c ∧ fs.children c = [] then (fs.remove c, .ok ())
    else (fs, .error .other)
  | .missing _ _ => (fs, .error .notFound)
  | .error e => (fs, .error e.fault)

/-- `remove_dir_all`: a link itself, or a directory with everything in it.  The directory is emptied
first and then removed by its path, which may lead nowhere by then. -/
def removeDirAll (p : Path N) : Res N :=
  match fs.resolve false p with
  | .found c =>
    match fs.get c with
    | some (.symlink _) => (fs.remove c, .ok ())
    | some (.dir _) =>
      match (fs.clear c).rmdir p with
      | (fs', .error .notFound) => (fs', .ok ())
      | r => r
    | _ => (fs, .error .other)
  | .missing _ _ => (fs, .error .notFound)
  | .error e => (fs, .error e.fault)

/-- A new, empty regular file. -/
def newFile (c : List N) (n : N) (mode : ℕ) : Fs N :=
  (fs.setInode fs.fresh ⟨mode, []⟩).insert c n (.file fs.fresh)

/-- `File::create`: the inode opened for writing, truncated or new. -/
def createFile (p : Path N) : Fs N × Except Fault ℕ :=
  match fs.resolve true p with
  | .found c =>
    match fs.get c with
    | some (.file ino) => (fs.setInode ino { fs.inodes ino with data := [] }, .ok ino)
    | _ => (fs, .error .other)
  | .missing c n => (fs.newFile c n (fs.newMode 0o666), .ok fs.fresh)
  | .error e => (fs, .error e.fault)

/-- Append to an open file. -/
def append (ino : ℕ) (bytes : List UInt8) : Fs N :=
  fs.setInode ino { fs.inodes ino with data := (fs.inodes ino).data ++ bytes }

/-- `symlink`. -/
def symlink (target p : Path N) : Res N :=
  if target.abs = false ∧ target.segs = [] then (fs, .error .notFound)
  else
    match fs.resolve false p with
    | .found _ => (fs, .error .other)
    | .missing c n => (fs.insert c n (.symlink target), .ok ())
    | .error e => (fs, .error e.fault)

/-- `hard_link`: a second name for a file, or for a link itself. -/
def hardLink (src p : Path N) : Res N :=
  match fs.symlinkMetadata src with
  | none => (fs, .error .notFound)
  | some (.dir _) => (fs, .error .other)
  | some o =>
    match fs.resolve false p with
    | .found _ => (fs, .error .other)
    | .missing c n => (fs.insert c n o, .ok ())
    | .error e => (fs, .error e.fault)

/-- `copy`: data and mode of a regular file, links followed on both sides. -/
def copy (src p : Path N) : Res N :=
  match fs.canonicalize src with
  | none => (fs, .error .notFound)
  | some c =>
    match fs.get c with
    | some (.file from_) =>
      match fs.createFile p with
      | (fs', .ok ino) =>
        (fs'.setInode ino ⟨(fs.inodes from_).mode, (fs.inodes from_).data⟩, .ok ())
      | (fs', .error e) => (fs', .error e)
    | _ => (fs, .error .other)

/-- `rename` of a file or a link, in place of one that is in the way; two names of one file stay
as they are. -/
def renameFile (p p' : Path N) : Res N :=
  match fs.resolve false p with
  | .missing _ _ => (fs, .error .notFound)
  | .error e => (fs, .error e.fault)
  | .found c =>
    match fs.get c with
    | none => (fs, .error .notFound)
    | some (.dir _) => (fs, .error .other)
    | some o =>
      match fs.resolve false p' with
      | .error e => (fs, .error e.fault)
      | .missing d n => ((fs.remove c).insert d n o, .ok ())
      | .found c' =>
        if fs.IsDir c' then (fs, .error .other)
        else if c = c' ∨ (o.isFile ∧ fs.get c' = some o) then (fs, .ok ())
        else
          match c'.getLast? with
          | none => (fs, .error .other)
          | some n => (((fs.remove c').remove c).insert c'.dropLast n o, .ok ())

/-- `read_dir`: the names in a directory, in the order of the tree. -/
def readDir (p : Path N) : Option (List N) :=
  match fs.canonicalize p with
  | some c => if fs.IsDir c then some (fs.children c) else none
  | none => none

/-- A hard link that is not made changes nothing. -/
theorem hardLink_cases (src p : Path N) :
    (fs.hardLink src p).2 = .ok () ∨ ∃ f, fs.hardLink src p = (fs, .error f) := by
  unfold hardLink
  split
  · exact .inr ⟨_, rfl⟩
  · exact .inr ⟨_, rfl⟩
  · split
    · exact .inr ⟨_, rfl⟩
    · exact .inl rfl
    · exact .inr ⟨_, rfl⟩

/-- A hard link gives a file a name, and leaves what is in it alone. -/
theorem inodes_hardLink (src p : Path N) : (fs.hardLink src p).1.inodes = fs.inodes := by
  unfold hardLink
  split
  · rfl
  · rfl
  · split
    · rfl
    · exact inodes_insert
    · rfl

/-- A path that leads to a file names a file or a link. -/
theorem symlinkMetadata_of_file {p : Path N} {c : List N} {ino : ℕ}
    (hcan : fs.canonicalize p = some c) (hget : fs.get c = some (.file ino)) :
    ∃ o, fs.symlinkMetadata p = some o ∧ ∀ mode, o ≠ .dir mode := by
  have hfound := canonicalize_eq_some.1 hcan
  by_cases hname : ∃ segs n, p.segs = segs ++ [.normal n]
  · obtain ⟨segs, n, hsegs⟩ := hname
    -- the last name is looked up in the directory that the rest leads to
    have hchild : ∀ follow, fs.resolve follow p =
        fs.resolve follow ((⟨p.abs, segs, .bare⟩ : Path N).child n) := by
      intro follow
      have hsame : p.segs = ((⟨p.abs, segs, .bare⟩ : Path N).child n).segs := by
        rw [hsegs, Path.segs_child]
      rw [resolve, resolve, ← hsame]
      rfl
    rw [hchild] at hfound
    obtain ⟨d, hloc, hdir, hsome⟩ := canonicalize_child (canonicalize_eq_some.2 hfound)
    obtain ⟨o, ho⟩ := Option.isSome_iff_exists.1 hsome
    have hmeta : fs.symlinkMetadata p = some o := by
      rw [symlinkMetadata, hchild, resolve_child, hloc, finish_of_dir hdir, if_pos hsome]
      exact ho
    refine ⟨o, hmeta, ?_⟩
    rintro mode rfl
    rw [resolve_child_follow, hloc, finish_of_dir hdir, if_pos hsome] at hfound
    · obtain rfl := Walk.found.inj hfound
      rw [ho] at hget
      cases hget
    · intro d' hd' t ht
      obtain rfl : d = d' := Walk.found.inj (hloc.symm.trans hd')
      rw [ho] at ht
      cases ht
  · have hsame : fs.resolve false p = fs.resolve true p := by
      rcases eq_nil_or_concat p.segs with hnil | ⟨segs, x, hsegs⟩
      · have hstay : ∀ follow k cur, walk fs.get follow k cur [] = .found cur := by
          intro follow k cur
          cases k <;> rfl
        simp only [resolve, hnil, hstay]
      · rw [concat_eq_append] at hsegs
        exact resolve_of_not_name hsegs (fun n hx => hname ⟨segs, n, hx ▸ hsegs⟩) false
    refine ⟨.file ino, ?_, fun mode h => by cases h⟩
    rw [symlinkMetadata, hsame, hfound]
    exact hget

/-! ## Removing -/

section Remove

variable {fs : Fs N} {p q : Path N} {n : N} {c d : List N}

/-- What may be left of the tree once something is removed by path `p`: all of it, all but the
object that `p` names, or all but what stands in it. -/
inductive Removal (fs : Fs N) (p : Path N) : Fs N → Prop
  | nothing : Removal fs p fs
  | whole {c : List N} (h : fs.resolve false p = .found c) : Removal fs p (fs.remove c)
  | inside {c : List N} (h : fs.resolve false p = .found c) : Removal fs p (fs.clear c)

theorem Removal.get_of_get {fs' : Fs N} (h : Removal fs p fs') {o : Obj N}
    (hget : fs'.get c = some o) : fs.get c = some o := by
  cases h with
  | nothing => exact hget
  | whole h => exact get_of_get_remove hget
  | inside h => exact get_of_get_clear hget

theorem Removal.get_none {fs' : Fs N} (h : Removal fs p fs') (hnone : fs.get c = none) :
    fs'.get c = none :=
  Option.eq_none_iff_forall_ne_some.2 fun _ ho => by cases hnone.symm.trans (h.get_of_get ho)

theorem Removal.cwd {fs' : Fs N} (h : Removal fs p fs') : fs'.cwd = fs.cwd := by
  cases h <;> rfl

theorem Removal.locate {fs' : Fs N} (h : Removal fs p fs') (hloc : fs'.locate q = .found c) :
    fs.locate q = .found c :=
  locate_mono (fun _ _ hget _ => h.get_of_get hget) h.cwd.symm hloc

/-- A slash behind the name of a directory changes nothing. -/
theorem resolve_of_unslashed (hnamed : p.named = true)
    (hres : fs.resolve false p.unslashed = .found c) (hdir : fs.IsDir c) :
    fs.resolve false p = .found c := by
  obtain ⟨q, n, hq⟩ := Path.exists_child_of_named hnamed
  obtain ⟨abs, comps, trail⟩ := p
  cases trail with
  | bare => exact hres
  | dot => exact hres
  | slash =>
    rw [hq, resolve_child] at hres
    obtain ⟨d, hd, -, rfl, -⟩ := finish_found hres
    have hstill : ∀ b, fs.locate q = .found b → ∀ t, fs.get (b ++ [n]) ≠ some (.symlink t) := by
      intro b hb t ht
      obtain rfl : d = b := Walk.found.inj (hd.symm.trans hb)
      obtain ⟨m, hm⟩ := hdir
      rw [hm] at ht
      cases ht
    have hloc : fs.locate (q.child n) = .found (d ++ [n]) := (locate_child hstill).trans hres
    have hsame : (⟨abs, comps, .bare⟩ : Path N) = q.child n := hq
    rw [← hsame] at hloc
    rw [resolve_of_not_name (x := .curDir) rfl nofun, ← canonicalize_eq_some]
    exact canonicalize_trail hloc hdir

theorem rmdir_cases (fs : Fs N) (p : Path N) :
    (fs.rmdir p).1 = fs ∨ ∃ c, fs.resolve false p.unslashed = .found c ∧ p.named = true ∧
      fs.IsDir c ∧ fs.rmdir p = (fs.remove c, .ok ()) := by
  unfold rmdir
  split
  · rename_i c hc
    split_ifs with h
    · exact .inr ⟨c, hc, h.1, h.2.1, rfl⟩
    · exact .inl rfl
  · exact .inl rfl
  · exact .inl rfl

/-- The directory that is removed once it is empty is the one that was emptied. -/
theorem rmdir_clear (hres : fs.resolve false p = .found c) :
    ((fs.clear c).rmdir p).1 = fs.clear c ∨ (fs.clear c).rmdir p = (fs.remove c, .ok ()) := by
  refine (rmdir_cases (fs.clear c) p).imp_right ?_
  rintro ⟨d, hd, hnamed, ⟨m, hm⟩, hrm⟩
  have hd' := resolve_of_unslashed hnamed (resolve_mono (fun _ _ h _ => get_of_get_clear h) rfl hd)
    ⟨m, get_of_get_clear hm⟩
  obtain rfl : c = d := Walk.found.inj (hres.symm.trans hd')
  rw [hrm, remove_clear]

/-- A directory is emptied, or goes with everything in it. -/
theorem removeDirAll_of_dir (hres : fs.resolve false p = .found c) (hdir : fs.IsDir c) :
    (fs.removeDirAll p).1 = fs.clear c ∨ (fs.removeDirAll p).1 = fs.remove c := by
  obtain ⟨m, hm⟩ := hdir
  have hrm := rmdir_clear hres
  rw [removeDirAll, hres]
  simp only [hm]
  split
  · rename_i fs' heq
    rw [heq] at hrm
    exact hrm.imp id fun h => by cases h
  · exact hrm.imp id fun h => by rw [h]

theorem removeDirAll_removal (fs : Fs N) (p : Path N) : Removal fs p (fs.removeDirAll p).1 := by
  cases hres : fs.resolve false p with
  | missing d n =>
    rw [removeDirAll, hres]
    exact .nothing
  | error e =>
    rw [removeDirAll, hres]
    exact .nothing
  | found c =>
    by_cases hdir : fs.IsDir c
    · rcases removeDirAll_of_dir hres hdir with h | h
      · exact h ▸ .inside hres
      · exact h ▸ .whole hres
    · rw [removeDirAll, hres]
      dsimp only
      split
      · exact .whole hres
      · rename_i m hm
        exact absurd ⟨m, hm⟩ hdir
      · exact .nothing

theorem removeFile_removal (fs : Fs N) (p : Path N) : Removal fs p (fs.removeFile p).1 := by
  unfold removeFile
  split
  · rename_i c hc
    split_ifs
    · exact .nothing
    · exact .whole hc
  · exact .nothing
  · exact .nothing

/-- A directory whose path does not lead through it is removed with everything in it. -/
theorem removeDirAll_child (hloc : (fs.clear (d ++ [n])).locate q = .found d)
    (hdir : fs.IsDir (d ++ [n])) :
    fs.removeDirAll (q.child n) = (fs.remove (d ++ [n]), .ok ()) := by
  obtain ⟨m, hm⟩ := hdir
  have hm' : (fs.clear (d ++ [n])).get (d ++ [n]) = some (.dir m) := by
    rw [get_clear, if_pos (.inl rfl), hm]
  have hres := resolve_of_get (locate_mono (fun _ _ hget _ => get_of_get_clear hget) rfl hloc) hm
  have hrm : (fs.clear (d ++ [n])).rmdir (q.child n) = (fs.remove (d ++ [n]), .ok ()) := by
    rw [rmdir, Path.unslashed_child, resolve_of_get hloc hm']
    exact (if_pos ⟨Path.named_child q n, ⟨m, hm'⟩, children_clear fs _⟩).trans
      (by rw [remove_clear])
  rw [removeDirAll, hres]
  simp only [hm, hrm]

/-- Once `remove_dir_all` has succeeded, there is nothing left under the name. -/
theorem removeDirAll_gone (hok : (fs.removeDirAll (q.child n)).2 = .ok ())
    (hloc : (fs.removeDirAll (q.child n)).1.locate q = .found d) :
    (fs.removeDirAll (q.child n)).1.get (d ++ [n]) = none := by
  have hloc₀ := (removeDirAll_removal fs (q.child n)).locate hloc
  cases hget : fs.get (d ++ [n]) with
  | none => exact (removeDirAll_removal fs (q.child n)).get_none hget
  | some o =>
    have hres := resolve_of_get hloc₀ hget
    cases o with
    | file ino =>
      rw [removeDirAll, hres] at hok
      simp only [hget] at hok
      cases hok
    | symlink t =>
      rw [removeDirAll, hres]
      simp only [hget]
      rw [get_remove, if_neg (by simp)]
    | dir m =>
      -- its path leads to it once it is empty, or to nothing any more
      by_cases hstill : (fs.clear (d ++ [n])).locate q = .found d
      · rw [removeDirAll_child hstill ⟨m, hget⟩, get_remove, if_neg (by simp)]
      · rcases removeDirAll_of_dir hres ⟨m, hget⟩ with h | h
        · rw [h] at hloc
          exact absurd hloc hstill
        · rw [h, get_remove, if_neg (by simp)]

end Remove

/-! ## Directories along a path -/

section CreateDirAll

variable {fs : Fs N} {p : Path N} {n : N} {c a : List N}

theorem mkdir_child (p : Path N) (n : N) :
    fs.mkdir (p.child n) =
      match finish fs.get n (fs.locate p) with
      | .found _ => (fs, .error .other)
      | .missing c n => (fs.insert c n (.dir (fs.newMode 0o777)), .ok ())
      | .error e => (fs, .error e.fault) := by
  rw [← resolve_child]
  rfl

theorem createDirAll_child (p : Path N) (n : N) :
    fs.createDirAll (p.child n) =
      match fs.mkdir (p.child n) with
      | (fs', .ok _) => (fs', .ok ())
      | (_, .error .notFound) =>
        (fs.createDirAll p).andThen fun fs' =>
          match fs'.mkdir (p.child n) with
          | (fs'', .ok _) => (fs'', .ok ())
          | (_, .error e) => if fs'.isDir? (p.child n) then (fs', .ok ()) else (fs', .error e)
      | (_, .error e) => if fs.isDir? (p.child n) then (fs, .ok ()) else (fs, .error e) := by
  have hrev : (p.child n).comps.reverse = .normal n :: p.comps.reverse := by simp [Path.child]
  rw [createDirAll, hrev, createDirAllRev]
  simp only [reverse_cons, reverse_reverse]
  rfl

/-- Where something is already, it is there that `create_dir_all` ends. -/
theorem createDirAll_of_canonicalize (h : fs.canonicalize (p.child n) = some a) :
    fs.createDirAll (p.child n) =
      if fs.IsDir a then (fs, .ok ()) else (fs, .error .other) := by
  obtain ⟨c, hloc, hdir, hsome⟩ := canonicalize_child h
  have hmk : fs.mkdir (p.child n) = (fs, .error .other) := by
    rw [mkdir_child, hloc, finish_of_dir hdir, if_pos hsome]
  rw [createDirAll_child, hmk]
  simp [isDir?, h]

/-- The path of a new object that is no link leads to it. -/
theorem canonicalize_insert (hdir : fs.IsDir c) (hnone : fs.get (c ++ [n]) = none)
    (hloc : fs.locate p = .found c) {o : Obj N} (ho : ∀ t, o ≠ .symlink t) :
    (fs.insert c n o).canonicalize (p.child n) = some (c ++ [n]) := by
  have hget : (fs.insert c n o).get (c ++ [n]) = some o := by
    rw [get_insert hdir hnone, if_pos rfl]
  have hloc' : (fs.insert c n o).locate p = .found c :=
    locate_mono (fun _ _ h _ => get_insert_of_some h) cwd_insert hloc
  have hdir' : (fs.insert c n o).IsDir c := hdir.imp fun _ h => get_insert_of_some h
  rw [canonicalize_eq_some, resolve_child_follow, hloc', finish_of_dir hdir', hget]
  · rfl
  · intro d hd t ht
    obtain rfl : c = d := Walk.found.inj (hloc'.symm.trans hd)
    rw [hget] at ht
    exact ho t (Option.some.inj ht)

/-- There is nothing in what was added. -/
theorem get_below_insert (hnone : fs.get (c ++ [n]) = none) (o : Obj N) (m : N) :
    (fs.insert c n o).get (c ++ [n] ++ [m]) = none := by
  have hnot : ¬ fs.IsDir (c ++ [n]) := fun ⟨mode, h⟩ => by
    rw [hnone] at h
    cases h
  rw [get_insert_of_ne (by simp), get_child_of_not_isDir hnot]

end CreateDirAll

end Fs

/-! ## Confinement -/

/-- `fs` differs from `fs₀` at and below `root` only. -/
structure Confined (root : List N) (fs₀ fs : Fs N) : Prop where
  same : ∀ q, ¬ root <+: q → fs.get q = fs₀.get q
  data : ∀ q ino, ¬ root <+: q → fs₀.get q = some (.file ino) → fs.inodes ino = fs₀.inodes ino
  cwd : fs.cwd = fs₀.cwd

namespace Confined

variable {root c q : List N} {n : N} {o : Obj N} {fs₀ fs : Fs N} {p : Path N}

theorem refl (root : List N) (fs : Fs N) : Confined root fs fs :=
  ⟨fun _ _ => rfl, fun _ _ _ _ => rfl, rfl⟩

theorem trans {fs₁ : Fs N} (h : Confined root fs₀ fs₁) (h' : Confined root fs₁ fs) :
    Confined root fs₀ fs := by
  refine ⟨fun q hq => (h'.same q hq).trans (h.same q hq), fun q ino hq hget => ?_,
    h'.cwd.trans h.cwd⟩
  exact (h'.data q ino hq ((h.same q hq).trans hget)).trans (h.data q ino hq hget)

/-- No name outside uses the inode. -/
def Private (root : List N) (fs : Fs N) (ino : ℕ) : Prop :=
  ∀ q, ¬ root <+: q → fs.get q ≠ some (.file ino)

theorem fresh_private (root : List N) (fs : Fs N) : Private root fs fs.fresh :=
  fun q _ => fs.get_ne_fresh q

variable (h : Confined root fs₀ fs)

include h

theorem insert (hin : root <+: c ++ [n]) :
    Confined root fs₀ (fs.insert c n o) := by
  refine ⟨fun q hq => ?_, fun q ino hq hget => ?_, Fs.cwd_insert.trans h.cwd⟩
  · have hne : c ++ [n] ≠ q := fun heq => hq (heq ▸ hin)
    rw [Fs.get_insert_of_ne hne]
    exact h.same q hq
  · rw [Fs.inodes_insert]
    exact h.data q ino hq hget

theorem remove (hq : root <+: q) : Confined root fs₀ (fs.remove q) := by
  refine ⟨fun p hp => ?_, h.data, h.cwd⟩
  rw [Fs.get_remove, if_pos (.inr fun hpre => hp (hq.trans hpre))]
  exact h.same p hp

theorem clear (hq : root <+: q) : Confined root fs₀ (fs.clear q) := by
  refine ⟨fun p hp => ?_, h.data, h.cwd⟩
  rw [Fs.get_clear, if_pos (.inr fun hpre => hp (hq.trans hpre))]
  exact h.same p hp

theorem chmodDir (hq : root <+: q) (mode : ℕ) :
    Confined root fs₀ (fs.chmodDir q mode) := by
  refine ⟨fun p hp => ?_, h.data, h.cwd⟩
  have hne : p ≠ q := fun heq => hp (heq ▸ hq)
  rw [Fs.get_chmodDir, ← h.same p hp]
  simp [hne]

theorem setInode {ino : ℕ} (hino : Private root fs ino) (i : Inode) :
    Confined root fs₀ (fs.setInode ino i) := by
  refine ⟨h.same, fun q j hq hget => ?_, h.cwd⟩
  have hne : j ≠ ino := by
    rintro rfl
    exact hino q hq ((h.same q hq).trans hget)
  change Function.update fs.inodes ino i j = fs₀.inodes j
  rw [Function.update_of_ne hne]
  exact h.data q j hq hget

/-! ### The calls -/

omit h in
theorem andThen {r : Res N} {next : Fs N → Res N} (hr : Confined root fs₀ r.1)
    (hnext : ∀ fs', r = (fs', .ok ()) → Confined root fs₀ (next fs').1) :
    Confined root fs₀ (r.andThen next).1 := by
  obtain ⟨fs', e⟩ := r
  cases e with
  | error e => exact hr
  | ok u => exact hnext fs' rfl

/-- A mode is changed inside: that of a directory, or of a file with no name outside. -/
theorem setPermissions
    (hp : ∀ c, fs.canonicalize p = some c → root <+: c)
    (hfile : ∀ c ino, fs.canonicalize p = some c → fs.get c = some (.file ino) →
      Private root fs ino) (mode : ℕ) :
    Confined root fs₀ (fs.setPermissions p mode).1 := by
  unfold Fs.setPermissions
  split
  · exact h
  · rename_i c hc
    split
    · exact h.chmodDir (hp c hc) mode
    · rename_i ino hget
      exact h.setInode (hfile c ino hc hget) _
    · exact h

/-- Something is removed inside. -/
theorem removal {fs' : Fs N} (hrm : Fs.Removal fs p fs')
    (hp : ∀ c, fs.resolve false p = .found c → root <+: c) : Confined root fs₀ fs' := by
  cases hrm with
  | nothing => exact h
  | whole hc => exact h.remove (hp _ hc)
  | inside hc => exact h.clear (hp _ hc)

theorem symlink (target : Path N)
    (hp : ∀ c n, fs.resolve false p = .missing c n → root <+: c) :
    Confined root fs₀ (fs.symlink target p).1 := by
  unfold Fs.symlink
  split_ifs
  · exact h
  · split
    · exact h
    · rename_i c n hres
      exact h.insert ((hp c n hres).trans (prefix_append c [n]))
    · exact h

theorem hardLink (src : Path N)
    (hp : ∀ c n, fs.resolve false p = .missing c n → root <+: c) :
    Confined root fs₀ (fs.hardLink src p).1 := by
  unfold Fs.hardLink
  split
  · exact h
  · exact h
  · split
    · exact h
    · rename_i c n hres
      exact h.insert ((hp c n hres).trans (prefix_append c [n]))
    · exact h

/-- A file created where nothing is in the way: its inode is private. -/
theorem createFile
    (hfound : ∀ c, fs.resolve true p ≠ .found c)
    (hp : ∀ c n, fs.resolve true p = .missing c n → root <+: c) :
    Confined root fs₀ (fs.createFile p).1 ∧
      ∀ ino, (fs.createFile p).2 = .ok ino → Private root (fs.createFile p).1 ino := by
  unfold Fs.createFile
  split
  · rename_i c hres
    exact absurd hres (hfound c)
  · rename_i c n hres
    have hin : root <+: c ++ [n] := (hp c n hres).trans (prefix_append c [n])
    refine ⟨(h.setInode (fresh_private root fs) _).insert hin, fun ino heq q hq => ?_⟩
    obtain rfl : fs.fresh = ino := by injection heq
    have hne : c ++ [n] ≠ q := fun heq => hq (heq ▸ hin)
    rw [Fs.newFile, Fs.get_insert_of_ne hne]
    exact fs.get_ne_fresh q
  · exact ⟨h, nofun⟩

theorem copy (src : Path N)
    (hfound : ∀ c, fs.resolve true p ≠ .found c)
    (hp : ∀ c n, fs.resolve true p = .missing c n → root <+: c) :
    Confined root fs₀ (fs.copy src p).1 := by
  obtain ⟨hconf, hpriv⟩ := h.createFile hfound hp
  unfold Fs.copy
  split
  · exact h
  · split
    · split
      · rename_i fs' ino heq
        rw [heq] at hconf hpriv
        exact hconf.setInode (hpriv ino rfl) _
      · rename_i fs' e heq
        rw [heq] at hconf
        exact hconf
    · exact h

end Confined

end Vfs
