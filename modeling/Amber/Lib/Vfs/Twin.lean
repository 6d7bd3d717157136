import Amber.Lib.Vfs.Ops

/-!
# What a call learns about contents

Two file systems with the same names, whose files may have different contents.  Most calls look at
names only and do the same in both; `Blind` says so.  `Twin root` says that the files with a name
at or below `root` have the same contents in both: then the two look the same there.

* `Blind.twin` — a blind call keeps twins alike.
* `Twin.createFile`, `Twin.setPermissions`, `Twin.append` — so do the calls that write.
* `Twin.hardLink`, `Twin.copy` — and those that take a file from elsewhere, if it has a name at or
  below `root`.
* `Twin.node_eq` — what twins show there.
-/

namespace Vfs

variable {N : Type} [DecidableEq N]

/-- The same names, for files with other contents. -/
def Fs.withInodes (fs : Fs N) (inodes : ℕ → Inode) : Fs N := { fs with inodes }

theorem Fs.insert_withInodes (fs : Fs N) (i : ℕ → Inode) (c : List N) (n : N) (o : Obj N) :
    (fs.withInodes i).insert c n o = (fs.insert c n o).withInodes i := by
  unfold insert
  split_ifs with h h' h'
  · rfl
  · exact absurd h h'
  · exact absurd h' h
  · rfl

/-- Only the new object may be a file with a new name. -/
theorem Fs.file_of_insert {fs : Fs N} {c q : List N} {n : N} {o : Obj N} {ino : ℕ}
    (h : (fs.insert c n o).get q = some (.file ino)) :
    (c ++ [n] = q ∧ o = .file ino) ∨ fs.get q = some (.file ino) := by
  unfold insert at h
  split_ifs at h
  · rw [get_addNew] at h
    split_ifs at h with heq
    · exact .inl ⟨heq, Option.some.inj h⟩
    · exact .inr h
  · exact .inr h

/-! ## Calls that look at names only -/

/-- The call does the same whatever is in the files, and gives no file a new name. -/
structure Blind {α : Type} (f : Fs N → Fs N × α) : Prop where
  same : ∀ fs i, f (fs.withInodes i) = ((f fs).1.withInodes i, (f fs).2)
  names : ∀ fs q ino, (f fs).1.get q = some (.file ino) → fs.get q = some (.file ino)

namespace Blind

theorem inodes {α : Type} {f : Fs N → Fs N × α} (hf : Blind f) (fs : Fs N) :
    (f fs).1.inodes = fs.inodes :=
  congrArg (fun r => r.1.inodes) (hf.same fs fs.inodes)

theorem pure {α : Type} (a : α) : Blind fun fs : Fs N => (fs, a) :=
  ⟨fun _ _ => rfl, fun _ _ _ h => h⟩

theorem andThen {f g : Fs N → Res N} (hf : Blind f) (hg : Blind g) :
    Blind fun fs => (f fs).andThen g where
  same fs i := by
    simp only [hf.same]
    cases hfs : f fs with
    | mk fs' r =>
      cases r with
      | error e => rfl
      | ok u => exact hg.same fs' i
  names fs q ino h := by
    have hnames := hf.names fs q ino
    cases hfs : f fs with
    | mk fs' r =>
      rw [hfs] at h hnames
      cases r with
      | error e => exact hnames h
      | ok u => exact hnames (hg.names fs' q ino h)

/-- Another call in place of one that failed. -/
theorem recover {f : Fs N → Res N} {g : Fault → Fs N → Res N} (hf : Blind f)
    (hg : ∀ e, Blind (g e)) :
    Blind fun fs => match f fs with
      | (fs', .ok _) => (fs', .ok ())
      | (_, .error e) => g e fs where
  same fs i := by
    simp only [hf.same]
    cases hfs : f fs with
    | mk fs' r =>
      cases r with
      | error e => exact (hg e).same fs i
      | ok u => rfl
  names fs q ino h := by
    have hnames := hf.names fs q ino
    cases hfs : f fs with
    | mk fs' r =>
      rw [hfs] at h hnames
      cases r with
      | error e => exact (hg e).names fs q ino h
      | ok u => exact hnames h

variable (p : Path N)

theorem mkdir : Blind fun fs : Fs N => fs.mkdir p where
  same fs i := by
    have hres : (fs.withInodes i).resolve false ⟨p.abs, p.comps, .bare⟩ =
        fs.resolve false ⟨p.abs, p.comps, .bare⟩ := rfl
    unfold Fs.mkdir
    rw [hres]
    cases fs.resolve false ⟨p.abs, p.comps, .bare⟩ with
    | found c => rfl
    | missing c n => exact Prod.ext (fs.insert_withInodes i c n _) rfl
    | error e => rfl
  names fs q ino h := by
    unfold Fs.mkdir at h
    split at h
    · exact h
    · exact (Fs.file_of_insert h).resolve_left fun h => by cases h.2
    · exact h

theorem symlink (target p : Path N) : Blind fun fs : Fs N => fs.symlink target p where
  same fs i := by
    have hres : (fs.withInodes i).resolve false p = fs.resolve false p := rfl
    unfold Fs.symlink
    rw [hres]
    split_ifs
    · rfl
    · cases fs.resolve false p with
      | found c => rfl
      | missing c n => exact Prod.ext (fs.insert_withInodes i c n _) rfl
      | error e => rfl
  names fs q ino h := by
    unfold Fs.symlink at h
    split_ifs at h
    · exact h
    · split at h
      · exact h
      · exact (Fs.file_of_insert h).resolve_left fun h => by cases h.2
      · exact h

theorem removeFile : Blind fun fs : Fs N => fs.removeFile p where
  same fs i := by
    have hres : (fs.withInodes i).resolve false p = fs.resolve false p := rfl
    unfold Fs.removeFile
    rw [hres]
    cases fs.resolve false p with
    | found c =>
      have hdir : (fs.withInodes i).IsDir c ↔ fs.IsDir c := Iff.rfl
      by_cases h : fs.IsDir c
      · simp [hdir, h]
      · simp only [hdir, h, if_false]
        rfl
    | missing c n => rfl
    | error e => rfl
  names fs _ _ h := (Fs.removeFile_removal fs p).get_of_get h

theorem rmdir_withInodes (fs : Fs N) (i : ℕ → Inode) :
    (fs.withInodes i).rmdir p = ((fs.rmdir p).1.withInodes i, (fs.rmdir p).2) := by
  have hres : (fs.withInodes i).resolve false p.unslashed = fs.resolve false p.unslashed := rfl
  unfold Fs.rmdir
  rw [hres]
  cases fs.resolve false p.unslashed with
  | missing c n => rfl
  | error e => rfl
  | found c =>
    have hdir : (fs.withInodes i).IsDir c ↔ fs.IsDir c := Iff.rfl
    have hchildren : (fs.withInodes i).children c = fs.children c := rfl
    simp only [hdir, hchildren]
    split_ifs <;> rfl

theorem removeDirAll : Blind fun fs : Fs N => fs.removeDirAll p where
  same fs i := by
    have hres : (fs.withInodes i).resolve false p = fs.resolve false p := rfl
    unfold Fs.removeDirAll
    rw [hres]
    cases fs.resolve false p with
    | found c =>
      have hget : (fs.withInodes i).get c = fs.get c := rfl
      have hclear : (fs.withInodes i).clear c = (fs.clear c).withInodes i := rfl
      simp only [hget, hclear, rmdir_withInodes p (fs.clear c) i]
      rcases fs.get c with - | (mode | ino | t)
      · rfl
      · obtain ⟨fs', res⟩ := (fs.clear c).rmdir p
        rcases res with (- | -) | - <;> rfl
      · rfl
      · rfl
    | missing c n => rfl
    | error e => rfl
  names fs _ _ h := (Fs.removeDirAll_removal fs p).get_of_get h

/-- What could not be made may be there already. -/
theorem isDir (e : Fault) :
    Blind fun fs : Fs N => if fs.isDir? p then (fs, Except.ok ()) else (fs, Except.error e) where
  same fs i := by
    have hdir : (fs.withInodes i).isDir? p = fs.isDir? p := rfl
    simp only [hdir]
    cases fs.isDir? p <;> rfl
  names fs q ino h := by
    split_ifs at h <;> exact h

theorem createDirAllRev (abs : Bool) (l : List (Comp N)) :
    Blind fun fs : Fs N => fs.createDirAllRev abs l := by
  induction l with
  | nil =>
    unfold Fs.createDirAllRev
    split_ifs
    · exact pure _
    · exact isDir _ _
  | cons x xs ih =>
    have hagain := recover (mkdir ⟨abs, (x :: xs).reverse, .bare⟩)
      (isDir ⟨abs, (x :: xs).reverse, .bare⟩)
    constructor
    · intro fs i
      have hmk := (mkdir ⟨abs, (x :: xs).reverse, .bare⟩).same fs i
      simp only [Fs.createDirAllRev, hmk]
      cases fs.mkdir ⟨abs, (x :: xs).reverse, .bare⟩ with
      | mk fs' r =>
        rcases r with (_ | _) | _
        · exact (ih.andThen hagain).same fs i
        · exact (isDir _ _).same fs i
        · rfl
    · intro fs q ino h
      have hnames := (mkdir ⟨abs, (x :: xs).reverse, .bare⟩).names fs q ino
      simp only [Fs.createDirAllRev] at h
      cases hmk : fs.mkdir ⟨abs, (x :: xs).reverse, .bare⟩ with
      | mk fs' r =>
        rw [hmk] at h hnames
        rcases r with (_ | _) | _
        · exact (ih.andThen hagain).names fs q ino h
        · exact (isDir _ _).names fs q ino h
        · exact hnames h

theorem createDirAll : Blind fun fs : Fs N => fs.createDirAll p :=
  createDirAllRev p.abs p.comps.reverse

end Blind

/-! ## Twins -/

/-- The same names; the files that have one at or below `root` have the same contents, and all
have the same mode. -/
structure Twin (root : List N) (fs₁ fs₂ : Fs N) : Prop where
  same : fs₂ = fs₁.withInodes fs₂.inodes
  mode : ∀ ino, (fs₂.inodes ino).mode = (fs₁.inodes ino).mode
  data : ∀ q ino, root <+: q → fs₁.get q = some (.file ino) →
    (fs₂.inodes ino).data = (fs₁.inodes ino).data

/-- The same after two calls, which gave the same answer. -/
def Twins {α : Type} (root : List N) (r₁ r₂ : Fs N × α) : Prop :=
  r₁.2 = r₂.2 ∧ Twin root r₁.1 r₂.1

namespace Twin

variable {root : List N} {fs₁ fs₂ : Fs N}

variable (h : Twin root fs₁ fs₂)

include h

/-- **Twins show the same** at and below `root`. -/
theorem node_eq {q : List N} (hq : root <+: q) :
    fs₂.node q = fs₁.node q := by
  have hget : fs₂.get q = fs₁.get q := by
    rw [h.same]
    rfl
  unfold Fs.node
  rw [hget]
  cases ho : fs₁.get q with
  | none => rfl
  | some o =>
    cases o with
    | dir mode => rfl
    | symlink t => rfl
    | file ino => simp [Fs.Node.ofObj, h.mode, h.data q ino hq ho]

theorem get_eq : fs₂.get = fs₁.get := by
  rw [h.same]
  rfl

theorem resolve_eq : fs₂.resolve = fs₁.resolve := by
  rw [h.same]
  rfl

/-- A new name, which is no file or one with the same data in both. -/
theorem insert (c : List N) (n : N) {o : Obj N}
    (ho : ∀ ino, o = .file ino → (fs₂.inodes ino).data = (fs₁.inodes ino).data) :
    Twin root (fs₁.insert c n o) (fs₂.insert c n o) := by
  refine ⟨?_, fun ino => ?_, fun q ino hq hget => ?_⟩
  · rw [Fs.inodes_insert, ← Fs.insert_withInodes, ← h.same]
  · rw [Fs.inodes_insert, Fs.inodes_insert, h.mode]
  · rw [Fs.inodes_insert, Fs.inodes_insert]
    rcases Fs.file_of_insert hget with ⟨-, hfile⟩ | hold
    · exact ho ino hfile
    · exact h.data q ino hq hold

/-- Writing the same to the same file. -/
theorem setInode (ino : ℕ) {i₁ i₂ : Inode} (hmode : i₂.mode = i₁.mode)
    (hdata : (fs₂.inodes ino).data = (fs₁.inodes ino).data → i₂.data = i₁.data) :
    Twin root (fs₁.setInode ino i₁) (fs₂.setInode ino i₂) := by
  have hat : ∀ (fs : Fs N) (i : Inode) (j : ℕ),
      (fs.setInode ino i).inodes j = if j = ino then i else fs.inodes j :=
    fun fs i j => Function.update_apply fs.inodes ino i j
  refine ⟨?_, fun j => ?_, fun q j hq hget => ?_⟩
  · nth_rewrite 1 [h.same]
    rfl
  · rw [hat, hat]
    split_ifs
    · exact hmode
    · exact h.mode j
  · have hold := h.data q j hq hget
    rw [hat, hat]
    split_ifs with hj
    · exact hdata (hj ▸ hold)
    · exact hold

theorem append (ino : ℕ) (bytes : List UInt8) :
    Twin root (fs₁.append ino bytes) (fs₂.append ino bytes) :=
  h.setInode ino (h.mode ino) fun heq => congrArg (· ++ bytes) heq

theorem newFile (c : List N) (n : N) (mode : ℕ) :
    Twin root (fs₁.newFile c n mode) (fs₂.newFile c n mode) := by
  have hfresh : fs₂.fresh = fs₁.fresh := by
    rw [h.same]
    rfl
  unfold Fs.newFile
  rw [hfresh]
  refine (h.setInode fs₁.fresh rfl fun _ => rfl).insert c n fun ino heq => ?_
  obtain rfl : fs₁.fresh = ino := Obj.file.inj heq
  simp [Fs.setInode]

theorem createFile (p : Path N) :
    Twins root (fs₁.createFile p) (fs₂.createFile p) := by
  have hfresh : fs₂.fresh = fs₁.fresh := by
    rw [h.same]
    rfl
  have hmask : fs₂.newMode 0o666 = fs₁.newMode 0o666 := by
    rw [h.same]
    rfl
  unfold Fs.createFile
  rw [h.resolve_eq]
  cases fs₁.resolve true p with
  | error e => exact ⟨rfl, h⟩
  | missing c n =>
    simp only [hfresh, hmask]
    exact ⟨rfl, h.newFile c n _⟩
  | found c =>
    simp only [h.get_eq]
    rcases fs₁.get c with - | (mode | ino | t)
    · exact ⟨rfl, h⟩
    · exact ⟨rfl, h⟩
    · exact ⟨rfl, h.setInode ino (h.mode ino) fun _ => rfl⟩
    · exact ⟨rfl, h⟩

theorem setPermissions (p : Path N) (mode : ℕ) :
    Twins root (fs₁.setPermissions p mode) (fs₂.setPermissions p mode) := by
  have hcan : fs₂.canonicalize p = fs₁.canonicalize p := by
    rw [h.same]
    rfl
  unfold Fs.setPermissions
  rw [hcan]
  cases fs₁.canonicalize p with
  | none => exact ⟨rfl, h⟩
  | some c =>
    simp only [h.get_eq]
    rcases fs₁.get c with - | (m | ino | t)
    · exact ⟨rfl, h⟩
    · refine ⟨rfl, ?_, h.mode, fun q ino hq hget => h.data q ino hq ?_⟩
      · nth_rewrite 1 [h.same]
        rfl
      · rw [Fs.get_chmodDir] at hget
        obtain ⟨o, ho, heq⟩ := Option.map_eq_some_iff.1 hget
        split_ifs at heq
        rw [ho, heq]
    · exact ⟨rfl, h.setInode ino rfl fun heq => heq⟩
    · exact ⟨rfl, h⟩

/-- A second name for a file that has one at or below `root`. -/
theorem hardLink (src p : Path N)
    (hsrc : ∀ c ino, fs₁.resolve false src = .found c → fs₁.get c = some (.file ino) → root <+: c) :
    Twins root (fs₁.hardLink src p) (fs₂.hardLink src p) := by
  have hmeta : fs₂.symlinkMetadata src = fs₁.symlinkMetadata src := by
    rw [h.same]
    rfl
  unfold Fs.hardLink
  rw [hmeta, h.resolve_eq]
  cases ho : fs₁.symlinkMetadata src with
  | none => exact ⟨rfl, h⟩
  | some o =>
    have hfile : ∀ ino, o = .file ino → (fs₂.inodes ino).data = (fs₁.inodes ino).data := by
      rintro ino rfl
      unfold Fs.symlinkMetadata at ho
      cases hres : fs₁.resolve false src with
      | found c =>
        rw [hres] at ho
        exact h.data c ino (hsrc c ino hres ho) ho
      | missing _ _ | error _ =>
        rw [hres] at ho
        cases ho
    cases o with
    | dir mode => exact ⟨rfl, h⟩
    | file _ | symlink _ =>
      cases fs₁.resolve false p with
      | found c => exact ⟨rfl, h⟩
      | missing c n => exact ⟨rfl, h.insert c n hfile⟩
      | error e => exact ⟨rfl, h⟩

/-- A copy of a file that has a name at or below `root`. -/
theorem copy (src p : Path N)
    (hsrc : ∀ c ino, fs₁.resolve true src = .found c → fs₁.get c = some (.file ino) → root <+: c) :
    Twins root (fs₁.copy src p) (fs₂.copy src p) := by
  have hcan : fs₂.canonicalize src = fs₁.canonicalize src := by
    rw [h.same]
    rfl
  unfold Fs.copy
  rw [hcan]
  cases hc : fs₁.canonicalize src with
  | none => exact ⟨rfl, h⟩
  | some c =>
    simp only [h.get_eq]
    cases hget : fs₁.get c with
    | none => exact ⟨rfl, h⟩
    | some o =>
      cases o with
      | dir mode => exact ⟨rfl, h⟩
      | symlink t => exact ⟨rfl, h⟩
      | file ino =>
        have hin := hsrc c ino (Fs.canonicalize_eq_some.1 hc) hget
        obtain ⟨hans, htwin⟩ := h.createFile p
        cases hmk : fs₁.createFile p with
        | mk fs₁' r =>
          cases hmk' : fs₂.createFile p with
          | mk fs₂' r' =>
            rw [hmk, hmk'] at hans htwin
            obtain rfl : r = r' := hans
            cases r with
            | error e => exact ⟨rfl, htwin⟩
            | ok j => exact ⟨rfl, htwin.setInode j (h.mode ino) fun _ => h.data c ino hin hget⟩

end Twin

/-- **A blind call keeps twins alike.** -/
theorem Blind.twin {α : Type} {f : Fs N → Fs N × α} (hf : Blind f) {root : List N}
    {fs₁ fs₂ : Fs N} (h : Twin root fs₁ fs₂) : Twins root (f fs₁) (f fs₂) := by
  have hsame := hf.same fs₁ fs₂.inodes
  rw [← h.same] at hsame
  refine ⟨by rw [hsame], ?_, fun ino => ?_, fun q ino hq hget => ?_⟩
  · rw [hsame]
    rfl
  · rw [hf.inodes, hf.inodes, h.mode]
  · rw [hf.inodes, hf.inodes, h.data q ino hq (hf.names fs₁ q ino hget)]

end Vfs
