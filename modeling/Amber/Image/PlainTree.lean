import Amber.Image.Containment

/-!
# A tree without links

The calls of `flatten` below a directory that has no symbolic link in it.  A path below it leads to
the object of its name or nowhere, the guard always lets it pass, and `create_dir_all` succeeds
unless a file stands on the way.

* `Plain.locate_under` — where a path leads, and how it fails to.
* `Plain.withinRootFrom_under` — the guard lets everything pass.
* `Plain.createDirAll_free` — directories along a path.
* `Plain.removeAny_cut`, `Plain.clearDir_cut` — what a whiteout and an opaque marker take away.
-/

namespace Amber.Image

open Vfs List Option Fs

/-- The destination is a directory with no link in it; outside of it everything is as in `fs₀`. -/
structure Plain (fs₀ : HostFs) (c : List OsStr) (n : OsStr) (fs : HostFs) : Prop where
  outside : ∀ q, ¬ c ++ [n] <+: q → fs.get q = fs₀.get q
  cwd : fs.cwd = fs₀.cwd
  isDir : fs.IsDir (c ++ [n])
  nolink : ∀ q t, fs.get (c ++ [n] ++ q) ≠ some (.symlink t)

/-- A file stands at a path or above it. -/
def Blocked (fs : HostFs) (root names : List OsStr) : Prop :=
  ∃ a ino, a <+: names ∧ fs.get (root ++ a) = some (.file ino)

theorem not_blocked_of_isDir {fs : HostFs} {root names : List OsStr}
    (hdir : fs.IsDir (root ++ names)) : ¬ Blocked fs root names := by
  rintro ⟨a, ino, hpre, hfile⟩
  obtain ⟨m, hm⟩ := hdir
  by_cases heq : a = names
  · rw [heq, hm] at hfile
    cases hfile
  · obtain ⟨m', hm'⟩ := isDir_of_below ((prefix_append_right_inj root).2 hpre)
      (fun hroot => heq (append_cancel_left hroot)) hm
    rw [hfile] at hm'
    cases hm'

/-- A file at or above a path at whose end there is nothing is at or above its parent. -/
theorem blocked_concat_iff {fs : HostFs} {root names : List OsStr} {m : OsStr}
    (hnone : fs.get (root ++ names ++ [m]) = none) :
    Blocked fs root (names ++ [m]) ↔ Blocked fs root names := by
  constructor
  · rintro ⟨a, ino, hpre, hfile⟩
    rcases prefix_concat_iff.1 hpre with rfl | hpre
    · rw [← append_assoc, hnone] at hfile
      cases hfile
    · exact ⟨a, ino, hpre, hfile⟩
  · rintro ⟨a, ino, hpre, hfile⟩
    exact ⟨a, ino, hpre.trans (prefix_append names [m]), hfile⟩

/-! ## Changes -/

/-- `fs'` is `fs` without what is `gone`. -/
structure Cut (fs fs' : HostFs) (gone : List OsStr → Prop) : Prop where
  get_gone : ∀ q, gone q → fs'.get q = none
  get_kept : ∀ q, ¬ gone q → fs'.get q = fs.get q
  inodes : fs'.inodes = fs.inodes
  cwd : fs'.cwd = fs.cwd
  umask : fs'.umask = fs.umask

/-- `fs'` is `fs` with a directory wherever there was nothing at or above `root ++ names`. -/
structure DirsMade (fs fs' : HostFs) (root names : List OsStr) : Prop where
  get : ∀ q, fs'.get q = if root <+: q ∧ q <+: root ++ names ∧ fs.get q = none then
    some (.dir (fs.newMode 0o777)) else fs.get q
  inodes : fs'.inodes = fs.inodes
  cwd : fs'.cwd = fs.cwd
  umask : fs'.umask = fs.umask

section Changes

variable {fs₀ fs fs' : HostFs} {c root names : List OsStr} {n m : OsStr} {gone : List OsStr → Prop}

theorem Cut.refl (h : ∀ q, gone q → fs.get q = none) :
    Cut fs fs gone := ⟨h, fun _ _ => rfl, rfl, rfl, rfl⟩

theorem Cut.trans {fs₁ fs₂ : HostFs} {gone₁ gone₂ : List OsStr → Prop} (h₁ : Cut fs fs₁ gone₁)
    (h₂ : Cut fs₁ fs₂ gone₂) : Cut fs fs₂ fun q => gone₁ q ∨ gone₂ q := by
  refine ⟨fun q hq => ?_, fun q hq => ?_, h₂.inodes.trans h₁.inodes, h₂.cwd.trans h₁.cwd,
    h₂.umask.trans h₁.umask⟩
  · by_cases hgone : gone₂ q
    · exact h₂.get_gone q hgone
    · rw [h₂.get_kept q hgone, h₁.get_gone q (hq.resolve_right hgone)]
  · rw [not_or] at hq
    rw [h₂.get_kept q hq.2, h₁.get_kept q hq.1]

/-- Where there was nothing anyway, it does not matter what is gone. -/
theorem Cut.mono {gone' : List OsStr → Prop} (h : Cut fs fs' gone) (hle : ∀ q, gone q → gone' q)
    (hge : ∀ q, gone' q → gone q ∨ fs.get q = none) :
    Cut fs fs' gone' := by
  refine ⟨fun q hq => ?_, fun q hq => h.get_kept q fun hgone => hq (hle q hgone), h.inodes, h.cwd,
    h.umask⟩
  by_cases hgone : gone q
  · exact h.get_gone q hgone
  · rw [h.get_kept q hgone]
    exact (hge q hq).resolve_left hgone

theorem Cut.remove {p : List OsStr} (hp : p ≠ []) : Cut fs (fs.remove p) (p <+: ·) := by
  refine ⟨fun q hq => ?_, fun q hq => ?_, rfl, rfl, rfl⟩
  · have hne : q ≠ [] := fun hnil => hp (prefix_nil.1 (hnil ▸ hq))
    rw [get_remove, if_neg (by tauto)]
  · rw [get_remove, if_pos (.inr hq)]

theorem Cut.clear (p : List OsStr) : Cut fs (fs.clear p) fun q => p <+: q ∧ p ≠ q := by
  refine ⟨fun q hq => ?_, fun q hq => ?_, rfl, rfl, rfl⟩
  · rw [get_clear, if_neg fun hkeep => hkeep.elim (fun heq => hq.2 heq.symm) fun hout => hout hq.1]
  · rw [get_clear, if_pos (by tauto)]

/-- What is taken away inside leaves the rest of the tree as it is. -/
theorem Plain.cut (h : Plain fs₀ c n fs) (hcut : Cut fs fs' gone)
    (hin : ∀ q, gone q → c ++ [n] <+: q ∧ c ++ [n] ≠ q) : Plain fs₀ c n fs' := by
  refine ⟨fun q hq => ?_, hcut.cwd.trans h.cwd, ?_, fun q t hget => ?_⟩
  · exact (hcut.get_kept q fun hgone => hq (hin q hgone).1).trans (h.outside q hq)
  · obtain ⟨mode, hmode⟩ := h.isDir
    exact ⟨mode, (hcut.get_kept _ fun hgone => (hin _ hgone).2 rfl).trans hmode⟩
  · by_cases hgone : gone (c ++ [n] ++ q)
    · rw [hcut.get_gone _ hgone] at hget
      cases hget
    · rw [hcut.get_kept _ hgone] at hget
      exact h.nolink q t hget

theorem DirsMade.refl (hdir : fs.IsDir (root ++ names)) : DirsMade fs fs root names := by
  refine ⟨fun q => ?_, rfl, rfl, rfl⟩
  rw [if_neg]
  rintro ⟨-, hpre, hnone⟩
  obtain ⟨mode, hmode⟩ := hdir
  rw [get_below_of_none hpre hnone] at hmode
  cases hmode

theorem DirsMade.get_beyond (h : DirsMade fs fs' root names) (m : OsStr) :
    fs'.get (root ++ names ++ [m]) = fs.get (root ++ names ++ [m]) := by
  rw [h.get, if_neg fun hc => not_inside_above _ m hc.2.1]

theorem DirsMade.insert (h : DirsMade fs fs' root names) (hdir : fs'.IsDir (root ++ names))
    (hnone : fs.get (root ++ names ++ [m]) = none) :
    DirsMade fs (fs'.insert (root ++ names) m (.dir (fs.newMode 0o777))) root (names ++ [m]) := by
  have hnone' : fs'.get (root ++ names ++ [m]) = none := (h.get_beyond m).trans hnone
  refine ⟨fun q => ?_, ?_, ?_, ?_⟩
  · rw [get_insert hdir hnone', h.get, ← append_assoc]
    by_cases heq : root ++ names ++ [m] = q
    · have hroot : root <+: q := by
        rw [← heq, append_assoc]
        exact prefix_append root _
      rw [if_pos heq, if_pos ⟨hroot, heq ▸ prefix_rfl, heq ▸ hnone⟩]
    · have hpre : q <+: root ++ names ++ [m] ↔ q <+: root ++ names := by
        rw [prefix_concat_iff]
        exact or_iff_right fun hq => heq hq.symm
      simp only [if_neg heq, hpre]
  · rw [inodes_insert, h.inodes]
  · rw [cwd_insert, h.cwd]
  · rw [umask_insert, h.umask]

/-- New directories inside leave the rest of the tree as it is. -/
theorem Plain.dirsMade (h : Plain fs₀ c n fs) (hmade : DirsMade fs fs' (c ++ [n]) names) :
    Plain fs₀ c n fs' := by
  refine ⟨fun q hq => ?_, hmade.cwd.trans h.cwd, ?_, fun q t hget => ?_⟩
  · rw [hmade.get, if_neg fun hc => hq hc.1]
    exact h.outside q hq
  · obtain ⟨mode, hmode⟩ := h.isDir
    refine ⟨mode, ?_⟩
    rw [hmade.get, hmode, if_neg fun hc => by cases hc.2.2]
  · rw [hmade.get] at hget
    split_ifs at hget
    · cases hget
    · exact h.nolink q t hget

end Changes

namespace Plain

variable {fs₀ fs : HostFs} {above : HostPath} {c names : List OsStr} {n m : OsStr}

theorem obj_cases (h : Plain fs₀ c n fs) (q : List OsStr) :
    fs.get (c ++ [n] ++ q) = none ∨ fs.IsDir (c ++ [n] ++ q) ∨
      ∃ ino, fs.get (c ++ [n] ++ q) = some (.file ino) := by
  cases hget : fs.get (c ++ [n] ++ q) with
  | none => exact .inl rfl
  | some o =>
    cases o with
    | dir mode => exact .inr (.inl ⟨mode, hget⟩)
    | file ino => exact .inr (.inr ⟨ino, rfl⟩)
    | symlink t => exact absurd hget (h.nolink q t)

theorem isDir_of_dirsMade {fs' : HostFs} (h : Plain fs₀ c n fs)
    (hmade : DirsMade fs fs' (c ++ [n]) names) (hfree : ¬ Blocked fs (c ++ [n]) names) :
    fs'.IsDir (c ++ [n] ++ names) := by
  rcases h.obj_cases names with hnone | ⟨mode, hmode⟩ | ⟨ino, hfile⟩
  · exact ⟨_, by rw [hmade.get, if_pos ⟨prefix_append _ _, prefix_rfl, hnone⟩]⟩
  · exact ⟨mode, by rw [hmade.get, hmode, if_neg fun hc => by cases hc.2.2]⟩
  · exact absurd ⟨names, ino, prefix_rfl, hfile⟩ hfree

/-! ## Paths -/

section Locate

variable (hplaced : Placed fs₀ above c n) (h : Plain fs₀ c n fs)

include hplaced h

theorem leads : fs.locate (above.child n) = .found (c ++ [n]) := by
  have habove := hplaced.locate_of_outside h.outside h.cwd
  obtain ⟨mode, hmode⟩ := h.isDir
  rw [locate_child, habove, finish_of_get hmode]
  · intro d hd t ht
    obtain rfl : c = d := Walk.found.inj (habove.symm.trans hd)
    rw [hmode] at ht
    cases ht

/-- **Where a path leads**: to the object of its name; or a file is in the way; or something is
missing. -/
theorem locate_under (names : List OsStr) :
    ((fs.get (c ++ [n] ++ names)).isSome ∧
        fs.locate (under (above.child n) names) = .found (c ++ [n] ++ names)) ∨
      (fs.get (c ++ [n] ++ names) = none ∧ Blocked fs (c ++ [n]) names ∧
        fs.locate (under (above.child n) names) = .error .notDir) ∨
      (fs.get (c ++ [n] ++ names) = none ∧ ¬ Blocked fs (c ++ [n]) names ∧
        (fs.locate (under (above.child n) names) = .error .notFound ∨
          ∃ d k, fs.locate (under (above.child n) names) = .missing d k)) := by
  induction names using reverseRecOn with
  | nil =>
    obtain ⟨mode, hmode⟩ := h.isDir
    rw [under_child_nil, append_nil, hmode]
    exact .inl ⟨rfl, h.leads hplaced⟩
  | append_singleton names m ih =>
    rw [under_concat, ← append_assoc]
    set q := under (above.child n) names
    have hnext : ∀ d, fs.locate q = .found d → d = c ++ [n] ++ names := by
      intro d hd
      rcases ih with ⟨-, hloc⟩ | ⟨-, -, hloc⟩ | ⟨-, -, hloc | ⟨d', k, hloc⟩⟩
      · exact (Walk.found.inj (hloc.symm.trans hd)).symm
      · exact (nomatch hloc.symm.trans hd)
      · exact (nomatch hloc.symm.trans hd)
      · exact (nomatch hloc.symm.trans hd)
    have hstep : fs.locate (q.child m) = finish fs.get m (fs.locate q) := by
      refine locate_child fun d hd t => ?_
      rw [hnext d hd, append_assoc]
      exact h.nolink _ t
    rw [hstep]
    rcases ih with ⟨hsome, hloc⟩ | ⟨hnone, hblk, hloc⟩ | ⟨hnone, hblk, hloc⟩
    · rw [hloc]
      rcases h.obj_cases names with hnone | hdir | ⟨ino, hfile⟩
      · rw [hnone] at hsome
        cases hsome
      · rw [finish_of_dir hdir]
        cases hget : fs.get (c ++ [n] ++ names ++ [m]) with
        | some o => exact .inl ⟨rfl, rfl⟩
        | none =>
          refine .inr (.inr ⟨rfl, ?_, .inr ⟨_, _, rfl⟩⟩)
          rw [blocked_concat_iff hget]
          exact not_blocked_of_isDir hdir
      · have hnone := get_child_of_file hfile m
        refine .inr (.inl ⟨hnone, ?_, by simp only [finish, hfile]⟩)
        rw [blocked_concat_iff hnone]
        exact ⟨names, ino, prefix_rfl, hfile⟩
    · have hnone' := get_child_of_none hnone m
      rw [hloc, blocked_concat_iff hnone']
      exact .inr (.inl ⟨hnone', hblk, rfl⟩)
    · have hnone' := get_child_of_none hnone m
      rw [blocked_concat_iff hnone']
      refine .inr (.inr ⟨hnone', hblk, .inl ?_⟩)
      rcases hloc with hloc | ⟨d, k, hloc⟩
      · rw [hloc]
        rfl
      · rw [hloc]
        rfl

theorem locate_of_some (hsome : (fs.get (c ++ [n] ++ names)).isSome) :
    fs.locate (under (above.child n) names) = .found (c ++ [n] ++ names) := by
  rcases h.locate_under hplaced names with ⟨-, hloc⟩ | ⟨hnone, -⟩ | ⟨hnone, -⟩
  · exact hloc
  · rw [hnone] at hsome
    cases hsome
  · rw [hnone] at hsome
    cases hsome

theorem locate_of_isDir (hdir : fs.IsDir (c ++ [n] ++ names)) :
    fs.locate (under (above.child n) names) = .found (c ++ [n] ++ names) :=
  h.locate_of_some hplaced (hdir.elim fun _ hmode => isSome_iff_exists.2 ⟨_, hmode⟩)

theorem canonicalize_under (names : List OsStr) :
    fs.canonicalize (under (above.child n) names) =
      if (fs.get (c ++ [n] ++ names)).isSome then some (c ++ [n] ++ names) else none := by
  have hne : (under (above.child n) names).comps ≠ [] := by simp [under, Path.child]
  split_ifs with hsome
  · exact (canonicalize_iff_locate hne rfl).2 (h.locate_of_some hplaced hsome)
  · cases hcan : fs.canonicalize (under (above.child n) names) with
    | none => rfl
    | some a =>
      have hloc := (canonicalize_iff_locate hne rfl).1 hcan
      rcases h.locate_under hplaced names with
        ⟨hsome', -⟩ | ⟨-, -, hloc'⟩ | ⟨-, -, hloc' | ⟨d, k, hloc'⟩⟩
      · exact absurd hsome' hsome
      · cases hloc.symm.trans hloc'
      · cases hloc.symm.trans hloc'
      · cases hloc.symm.trans hloc'

/-- **The guard lets every path pass.** -/
theorem withinRootFrom_under (names : List OsStr) :
    withinRootFrom fs (c ++ [n]) (under (above.child n) names) = true := by
  induction names using reverseRecOn with
  | nil =>
    have hcan := h.canonicalize_under hplaced []
    obtain ⟨mode, hmode⟩ := h.isDir
    rw [append_nil, hmode, under_child_nil] at hcan
    rw [under_child_nil, withinRootFrom_child, hcan]
    exact decide_eq_true prefix_rfl
  | append_singleton names m ih =>
    have hcan := h.canonicalize_under hplaced (names ++ [m])
    rw [under_concat] at hcan ⊢
    rw [withinRootFrom_child, hcan]
    split_ifs
    · exact decide_eq_true (prefix_append _ _)
    · exact ih

end Locate

/-! ## Directories -/

section CreateDirAll

variable (hplaced : Placed fs₀ above c n) (h : Plain fs₀ c n fs)

include hplaced h

/-- The last directory of a path, once those above it are made. -/
theorem mkdir_of_dirsMade {fs₁ : HostFs} {m : OsStr}
    (hnone : fs.get (c ++ [n] ++ names ++ [m]) = none) (hmade : DirsMade fs fs₁ (c ++ [n]) names)
    (hdir : fs₁.IsDir (c ++ [n] ++ names)) :
    fs₁.mkdir ((under (above.child n) names).child m) =
      (fs₁.insert (c ++ [n] ++ names) m (.dir (fs.newMode 0o777)), .ok ()) := by
  have hloc := (h.dirsMade hmade).locate_of_isDir hplaced hdir
  have hmask : fs₁.newMode 0o777 = fs.newMode 0o777 := by rw [newMode, hmade.umask]; rfl
  rw [mkdir_child, hloc, finish_of_dir hdir, hmade.get_beyond, hnone, ← hmask]
  rfl

/-- **Directories are made along a path** with no file on it. -/
theorem createDirAll_free (hfree : ¬ Blocked fs (c ++ [n]) names) :
    ∃ fs', fs.createDirAll (under (above.child n) names) = (fs', .ok ()) ∧
      DirsMade fs fs' (c ++ [n]) names := by
  induction names using reverseRecOn with
  | nil =>
    have hcan := h.canonicalize_under hplaced []
    obtain ⟨mode, hmode⟩ := h.isDir
    have hdir : fs.IsDir (c ++ [n] ++ []) := by
      rw [append_nil]
      exact ⟨mode, hmode⟩
    rw [append_nil, hmode, under_child_nil] at hcan
    refine ⟨fs, ?_, DirsMade.refl hdir⟩
    rw [under_child_nil, createDirAll_of_canonicalize hcan, if_pos ⟨mode, hmode⟩]
  | append_singleton names m ih =>
    have hcan := h.canonicalize_under hplaced (names ++ [m])
    rw [under_concat] at hcan ⊢
    rcases h.obj_cases (names ++ [m]) with hnone | hdir | ⟨ino, hfile⟩
    · rw [← append_assoc] at hnone
      rw [blocked_concat_iff hnone] at hfree
      rcases h.locate_under hplaced names with ⟨hsome, hloc⟩ | ⟨-, hblk, -⟩ | ⟨-, -, hloc⟩
      · have hdir : fs.IsDir (c ++ [n] ++ names) := by
          rcases h.obj_cases names with hno | hdir | ⟨ino, hfile⟩
          · rw [hno] at hsome
            cases hsome
          · exact hdir
          · exact absurd ⟨names, ino, prefix_rfl, hfile⟩ hfree
        refine ⟨_, ?_, (DirsMade.refl hdir).insert hdir hnone⟩
        rw [createDirAll_child, h.mkdir_of_dirsMade hplaced hnone (DirsMade.refl hdir) hdir]
      · exact absurd hblk hfree
      · -- the directory above is made first
        obtain ⟨fs₁, hmk, hmade⟩ := ih hfree
        have hdir := h.isDir_of_dirsMade hmade hfree
        have hfirst :
            fs.mkdir ((under (above.child n) names).child m) = (fs, .error .notFound) := by
          rw [mkdir_child]
          rcases hloc with hloc | ⟨d, k, hloc⟩
          · rw [hloc]
            rfl
          · rw [hloc]
            rfl
        refine ⟨_, ?_, hmade.insert hdir hnone⟩
        rw [createDirAll_child, hfirst, hmk]
        simp only [Res.andThen, h.mkdir_of_dirsMade hplaced hnone hmade hdir]
    · obtain ⟨mode, hmode⟩ := hdir
      rw [hmode] at hcan
      refine ⟨fs, ?_, DirsMade.refl ⟨mode, hmode⟩⟩
      rw [createDirAll_of_canonicalize hcan, if_pos ⟨mode, hmode⟩]
    · exact absurd ⟨names ++ [m], ino, prefix_rfl, hfile⟩ hfree

end CreateDirAll

/-! ## Deletions -/

section Remove

variable (hplaced : Placed fs₀ above c n) (h : Plain fs₀ c n fs) {order : List OsStr → List OsStr}

include hplaced h

theorem removeAny_cut (names : List OsStr) (m : OsStr) :
    ∃ fs', removeAny fs ((under (above.child n) names).child m) = (fs', .ok ()) ∧
      Cut fs fs' (c ++ [n] ++ names ++ [m] <+: ·) := by
  set p := (under (above.child n) names).child m
  set d := c ++ [n] ++ names ++ [m]
  have hfound : ∀ o, fs.get d = some o → fs.resolve false p = .found d := by
    intro o ho
    exact resolve_of_get (h.locate_of_isDir hplaced (fs.tree _ _ _ ho)) ho
  have hmeta : ∀ o, fs.get d = some o → fs.symlinkMetadata p = some o := by
    intro o ho
    rw [symlinkMetadata, hfound o ho]
    exact ho
  rcases h.obj_cases (names ++ [m]) with hnone | ⟨mode, hmode⟩ | ⟨ino, hfile⟩
  · rw [← append_assoc] at hnone
    refine ⟨fs, ?_, Cut.refl fun q hq => get_below_of_none hq hnone⟩
    have hmiss : fs.symlinkMetadata p = none := by
      unfold symlinkMetadata
      split
      · rename_i a ha
        rw [resolve_child] at ha
        obtain ⟨b, hb, -, rfl, -⟩ := finish_found ha
        have hcan := (canonicalize_iff_locate (by simp [under, Path.child]) rfl).2 hb
        rw [h.canonicalize_under hplaced] at hcan
        split_ifs at hcan
        rwa [← some.inj hcan]
      · rfl
    rw [removeAny, hmiss]
  · rw [← append_assoc] at hmode
    refine ⟨fs.remove d, ?_, Cut.remove (by simp [d])⟩
    have hcut := @Cut.clear fs d
    have hplain := h.cut hcut fun q hq => below_of_child hq.1
    obtain ⟨mode', hmode'⟩ := fs.tree _ _ _ hmode
    have hdir : (fs.clear d).IsDir (c ++ [n] ++ names) :=
      ⟨mode', (hcut.get_kept _ fun hgone => not_inside_above _ m hgone.1).trans hmode'⟩
    rw [removeAny, hmeta _ hmode]
    exact removeDirAll_child (hplain.locate_of_isDir hplaced hdir) ⟨mode, hmode⟩
  · rw [← append_assoc] at hfile
    refine ⟨fs.remove d, ?_, Cut.remove (by simp [d])⟩
    have hno : ¬ fs.IsDir d := by
      rintro ⟨mode, hmode⟩
      rw [hfile] at hmode
      cases hmode
    rw [removeAny, hmeta _ hfile]
    dsimp only
    rw [removeFile, hfound _ hfile]
    exact if_neg hno

theorem canonicalize_join (names : List OsStr) :
    fs.canonicalize (join (above.child n) names) =
      if (fs.get (c ++ [n] ++ names)).isSome then some (c ++ [n] ++ names) else none := by
  cases names with
  | cons m names => exact h.canonicalize_under hplaced (m :: names)
  | nil =>
    obtain ⟨mode, hmode⟩ := h.isDir
    have hloc := h.leads hplaced
    rw [← under_child_nil] at hloc
    rw [append_nil, hmode]
    exact canonicalize_trail hloc ⟨mode, hmode⟩

theorem clearNames_cut (names l : List OsStr) :
    ∃ fs', clearNames (join (above.child n) names) l fs = (fs', .ok ()) ∧
      Cut fs fs' fun q => ∃ m ∈ l, c ++ [n] ++ names ++ [m] <+: q := by
  induction l generalizing fs with
  | nil => exact ⟨fs, rfl, Cut.refl fun q ⟨m, hm, _⟩ => by cases hm⟩
  | cons m l ih =>
    obtain ⟨fs₁, hrm, hcut⟩ := h.removeAny_cut hplaced names m
    obtain ⟨fs₂, hclear, hcut₂⟩ := ih (h.cut hcut fun q hq => below_of_child hq)
    refine ⟨fs₂, ?_, (hcut.trans hcut₂).mono ?_ ?_⟩
    · have hstep : removeAny fs ((join (above.child n) names).child m) = (fs₁, .ok ()) := hrm
      rw [clearNames, hstep]
      exact hclear
    · rintro q (hq | ⟨k, hk, hq⟩)
      · exact ⟨m, mem_cons_self, hq⟩
      · exact ⟨k, mem_cons_of_mem m hk, hq⟩
    · rintro q ⟨k, hk, hq⟩
      rcases mem_cons.1 hk with rfl | hk
      · exact .inl (.inl hq)
      · exact .inl (.inr ⟨k, hk, hq⟩)

/-- **An opaque marker** empties a directory, and does nothing where there is none. -/
theorem clearDir_cut (horder : ∀ l, (order l).Perm l)
    (hfile : ∀ ino, fs.get (c ++ [n] ++ names) ≠ some (.file ino)) :
    ∃ fs', clearDir fs order (join (above.child n) names) = (fs', .ok ()) ∧
      Cut fs fs' fun q => c ++ [n] ++ names <+: q ∧ c ++ [n] ++ names ≠ q := by
  have hcan := h.canonicalize_join hplaced names
  unfold clearDir exists? readDir
  rcases h.obj_cases names with hnone | hdir | ⟨ino, hget⟩
  · rw [hcan, hnone]
    exact ⟨fs, rfl, Cut.refl fun q hq => get_below_of_none hq.1 hnone⟩
  · obtain ⟨mode, hmode⟩ := hdir
    obtain ⟨fs', hclear, hcut⟩ := h.clearNames_cut hplaced names
      (order (fs.children (c ++ [n] ++ names)))
    rw [hmode] at hcan
    simp only [hcan, isSome_some, if_true, if_pos (show fs.IsDir _ from ⟨mode, hmode⟩)]
    refine ⟨fs', hclear, hcut.mono ?_ ?_⟩
    · rintro q ⟨m, -, hq⟩
      refine ⟨(prefix_append _ _).trans hq, ?_⟩
      rintro rfl
      exact not_inside_above _ m hq
    · rintro q ⟨⟨t, rfl⟩, hne⟩
      cases t with
      | nil => exact absurd (append_nil _).symm hne
      | cons m t =>
        have hpre : c ++ [n] ++ names ++ [m] <+: c ++ [n] ++ names ++ m :: t := by simp
        cases hget : fs.get (c ++ [n] ++ names ++ [m]) with
        | none => exact .inr (get_below_of_none hpre hget)
        | some o => exact .inl ⟨m, (horder _).mem_iff.2 (mem_children hget), hpre⟩
  · exact absurd hget (hfile ino)

end Remove

end Plain

end Amber.Image
