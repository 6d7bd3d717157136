import Amber.Image.Flatten

/-!
# Where an entry goes

`flatten_limited` guards every entry with `within_root`, which resolves the parent of the path
and not the path itself; `create_dir_all` then makes the parents and `remove_any` clears the way.

* `Placed` — what is asked of the destination before anything is in it.
* `createDirAll_made` — below a path that passes the guard, directories are made inside, and the
  new ones are empty: no link can stand in the way of the rest of the path.
* `prepare_ready` — once the parents are made and the way is cleared, the path leads to a place
  inside where nothing stands.
-/

namespace Amber.Image

open Vfs List Fs

/-! ## The guard -/

section Guard

variable {fs : HostFs} {root c : List OsStr} {p : HostPath}

theorem under_concat (dest : HostPath) (names : List OsStr) (m : OsStr) :
    under dest (names ++ [m]) = (under dest names).child m := by
  simp [under, Path.child]

theorem under_child_nil (above : HostPath) (n : OsStr) :
    under (above.child n) [] = above.child n := by
  simp [under, Path.child]

theorem withinRootFrom_child (p : HostPath) (m : OsStr) :
    withinRootFrom fs root (p.child m) =
      match fs.canonicalize (p.child m) with
      | some c => decide (root <+: c)
      | none => withinRootFrom fs root p := by
  have hrev : (p.child m).comps.reverse = .normal m :: p.comps.reverse := by simp [Path.child]
  rw [withinRootFrom, hrev, ascend]
  simp only [reverse_cons, reverse_reverse]
  rfl

theorem withinRoot_child (p : HostPath) (m : OsStr) :
    withinRoot fs root (p.child m) = withinRootFrom fs root p := by
  rw [withinRoot, Path.parent_child]
  rfl

/-- A path that passes the guard and leads somewhere leads inside. -/
theorem inside_of_withinRootFrom (hloc : fs.locate p = .found c)
    (h : withinRootFrom fs root p = true) : root <+: c := by
  obtain ⟨abs, comps, trail⟩ := p
  rcases eq_nil_or_concat comps with rfl | ⟨xs, x, rfl⟩
  · cases abs with
    | false => cases h
    | true =>
      obtain rfl : [] = c := Walk.found.inj hloc
      exact of_decide_eq_true h
  · have hcan : fs.canonicalize ⟨abs, xs.concat x, .bare⟩ = some c :=
      (canonicalize_iff_locate (by simp) rfl).2 hloc
    rw [withinRootFrom, concat_eq_append, reverse_append] at h
    simp only [reverse_cons, reverse_nil, nil_append, singleton_append,
      ascend, reverse_reverse] at h
    rw [concat_eq_append] at hcan
    rw [hcan] at h
    exact of_decide_eq_true h

end Guard

/-! ## The destination -/

/-- The parent of the destination is directory `c`, and the path to it does not lead through the
destination. -/
structure Placed (fs : HostFs) (above : HostPath) (c : List OsStr) (n : OsStr) : Prop where
  located : (fs.remove (c ++ [n])).locate above = .found c
  isDir : fs.IsDir c

section Placed

variable {fs₀ fs : HostFs} {above : HostPath} {c : List OsStr} {n : OsStr}

variable (h : Placed fs₀ above c n)

include h

/-- The way to the destination depends on nothing in it. -/
theorem Placed.locate_of_outside (hsame : ∀ q, ¬ c ++ [n] <+: q → fs.get q = fs₀.get q)
    (hcwd : fs.cwd = fs₀.cwd) :
    fs.locate above = .found c := by
  have hle : ∀ q o, (fs₀.remove (c ++ [n])).get q = some o → fs.get q = some o := by
    intro q o hget
    rw [get_remove] at hget
    split_ifs at hget with hq
    have hout : ¬ c ++ [n] <+: q := by
      rcases hq with rfl | hq
      · simp
      · exact hq
    exact (hsame q hout).trans hget
  exact locate_mono (fun q o hget _ => hle q o hget) hcwd h.located

variable (hconf : Confined (c ++ [n]) fs₀ fs)

include hconf

theorem Placed.locate :
    fs.locate above = .found c :=
  h.locate_of_outside hconf.same hconf.cwd

theorem Placed.dir :
    fs.IsDir c := by
  obtain ⟨m, hm⟩ := h.isDir
  exact ⟨m, (hconf.same c (not_inside_above c n)).trans hm⟩

/-- The guard on the destination itself: it is there, and inside. -/
theorem Placed.within (hwithin : withinRootFrom fs (c ++ [n]) (above.child n) = true) :
    ∃ a, fs.canonicalize (above.child n) = some a ∧ c ++ [n] <+: a := by
  rw [withinRootFrom_child] at hwithin
  cases hcan : fs.canonicalize (above.child n) with
  | some a =>
    rw [hcan] at hwithin
    exact ⟨a, rfl, of_decide_eq_true hwithin⟩
  | none =>
    rw [hcan] at hwithin
    exact absurd (inside_of_withinRootFrom (h.locate hconf) hwithin) (not_inside_above c n)

end Placed

/-! ## Making directories -/

/-- Directory `q` is there after `create_dir_all`, inside, and empty if it is new. -/
structure Made (root : List OsStr) (fs fs' : HostFs) (q : HostPath) (a : List OsStr) : Prop where
  leads : fs'.canonicalize q = some a
  inside : root <+: a
  isDir : fs'.IsDir a
  empty : fs.canonicalize q = none → ∀ m, fs'.get (a ++ [m]) = none

section CreateDirAll

variable {fs₀ fs : HostFs} {root a : List OsStr} {q : HostPath} {m : OsStr}

theorem createDirAll_existing (hconf : Confined root fs₀ fs)
    (hcan : fs.canonicalize (q.child m) = some a) (hin : root <+: a) :
    Confined root fs₀ (fs.createDirAll (q.child m)).1 ∧
      ((fs.createDirAll (q.child m)).2 = .ok () →
        ∃ a, Made root fs (fs.createDirAll (q.child m)).1 (q.child m) a) := by
  rw [createDirAll_of_canonicalize hcan]
  split_ifs with hdir
  · refine ⟨hconf, fun _ => ⟨a, hcan, hin, hdir, fun hnone => ?_⟩⟩
    rw [hcan] at hnone
    cases hnone
  · exact ⟨hconf, nofun⟩

theorem insert_made {fs₁ : HostFs} (hconf : Confined root fs₀ fs) (hin : root <+: a)
    (hloc : fs.locate q = .found a) (hdir : fs.IsDir a) (hnone : fs.get (a ++ [m]) = none)
    (mode : ℕ) :
    Confined root fs₀ (fs.insert a m (.dir mode)) ∧
      Made root fs₁ (fs.insert a m (.dir mode)) (q.child m) (a ++ [m]) := by
  have hin' : root <+: a ++ [m] := hin.trans (prefix_append a [m])
  refine ⟨hconf.insert hin', ?_, hin', ⟨mode, ?_⟩, fun _ => get_below_insert hnone _⟩
  · exact canonicalize_insert hdir hnone hloc nofun
  · rw [get_insert hdir hnone, if_pos rfl]

/-- If a name cannot be found for want of a directory, its directory leads nowhere. -/
theorem canonicalize_of_finish_notFound (hne : q.comps ≠ []) (htrail : q.trail = .bare)
    (hfin : finish fs.get m (fs.locate q) = .error .notFound) : fs.canonicalize q = none := by
  cases hcan : fs.canonicalize q with
  | none => rfl
  | some b =>
    have hloc := (canonicalize_iff_locate hne htrail).1 hcan
    obtain ⟨o, ho⟩ := Option.isSome_iff_exists.1 (get_of_locate hne hloc)
    rw [hloc, finish, ho] at hfin
    cases o with
    | dir mode =>
      split_ifs at hfin
    | file ino => cases hfin
    | symlink t => cases hfin

variable {above : HostPath} {c : List OsStr} {n : OsStr}

/-- **Directories are made inside** below a path that passes the guard. -/
theorem createDirAll_made (hplaced : Placed fs₀ above c n)
    (hconf : Confined (c ++ [n]) fs₀ fs) (names : List OsStr)
    (hwithin : withinRootFrom fs (c ++ [n]) (under (above.child n) names) = true) :
    Confined (c ++ [n]) fs₀ (fs.createDirAll (under (above.child n) names)).1 ∧
      ((fs.createDirAll (under (above.child n) names)).2 = .ok () →
        ∃ a, Made (c ++ [n]) fs (fs.createDirAll (under (above.child n) names)).1
          (under (above.child n) names) a) := by
  induction names using reverseRecOn with
  | nil =>
    rw [under_child_nil] at hwithin ⊢
    obtain ⟨a, hcan, hin⟩ := hplaced.within hconf hwithin
    exact createDirAll_existing hconf hcan hin
  | append_singleton names m ih =>
    rw [under_concat] at hwithin ⊢
    rw [withinRootFrom_child] at hwithin
    set q := under (above.child n) names with hq
    have hne : q.comps ≠ [] := by simp [hq, under, Path.child]
    cases hcan : fs.canonicalize (q.child m) with
    | some a =>
      rw [hcan] at hwithin
      exact createDirAll_existing hconf hcan (of_decide_eq_true hwithin)
    | none =>
      rw [hcan] at hwithin
      have hnodir : fs.isDir? (q.child m) = false := by rw [isDir?, hcan]
      rw [createDirAll_child, mkdir_child]
      cases hfin : finish fs.get m (fs.locate q) with
      | found b =>
        simp only [hnodir]
        exact ⟨hconf, fun h => by cases h⟩
      | missing d k =>
        obtain ⟨hloc, hdir, rfl, hnone⟩ := finish_missing hfin
        have hin := inside_of_withinRootFrom hloc hwithin
        obtain ⟨hconf', hmade⟩ := insert_made hconf hin hloc hdir hnone (fs.newMode 0o777)
        exact ⟨hconf', fun _ => ⟨_, hmade⟩⟩
      | error e =>
        cases e with
        | notDir | tooManyLinks =>
          simp only [WalkError.fault, hnodir]
          exact ⟨hconf, fun h => by cases h⟩
        | notFound =>
          -- the directory above is made first; it is new, so the name is missing from it
          have hnew : fs.canonicalize q = none := canonicalize_of_finish_notFound hne rfl hfin
          obtain ⟨hconf₁, hmade₁⟩ := ih hwithin
          cases hmk : fs.createDirAll q with
          | mk fs₁ res =>
            rw [hmk] at hconf₁ hmade₁
            cases res with
            | error e => exact ⟨hconf₁, fun h => by cases h⟩
            | ok u =>
              obtain ⟨a, hmade⟩ := hmade₁ rfl
              have hloc := (canonicalize_iff_locate hne rfl).1 hmade.leads
              have hnone := hmade.empty hnew m
              have hmiss : fs₁.mkdir (q.child m) =
                  (fs₁.insert a m (.dir (fs₁.newMode 0o777)), .ok ()) := by
                rw [mkdir_child, hloc, finish_of_dir hmade.isDir, hnone]
                rfl
              simp only [Res.andThen, hmiss]
              obtain ⟨hconf', hmade'⟩ :=
                insert_made hconf₁ hmade.inside hloc hmade.isDir hnone (fs₁.newMode 0o777)
              exact ⟨hconf', fun _ => ⟨_, hmade'⟩⟩

end CreateDirAll

/-! ## Clearing the way -/

section Remove

variable {fs₀ fs : HostFs} {root : List OsStr} {p q : HostPath} {m : OsStr}

theorem removeAny_removal (fs : HostFs) (p : HostPath) : Removal fs p (removeAny fs p).1 := by
  unfold removeAny
  split
  · exact removeDirAll_removal fs p
  · exact removeFile_removal fs p
  · exact .nothing

/-- If the path of `q` leads inside, what is deleted in it is inside. -/
theorem removeAny_child_confined (hconf : Confined root fs₀ fs)
    (hq : ∀ c, fs.locate q = .found c → root <+: c) (m : OsStr) :
    Confined root fs₀ (removeAny fs (q.child m)).1 := by
  refine hconf.removal (removeAny_removal fs _) fun b hb => ?_
  rw [resolve_child] at hb
  obtain ⟨d, hd, -, rfl, -⟩ := finish_found hb
  exact (hq d hd).trans (prefix_append d [m])

theorem clearNames_confined (names : List OsStr) (hconf : Confined root fs₀ fs)
    (hq : ∀ c, fs.locate q = .found c → root <+: c) :
    Confined root fs₀ (clearNames q names fs).1 := by
  induction names generalizing fs with
  | nil => exact hconf
  | cons m names ih =>
    refine (removeAny_child_confined hconf hq m).andThen fun fs' heq => ?_
    refine ih ?_ fun c hc => hq c ((removeAny_removal fs (q.child m)).locate ?_)
    · have hconf' := removeAny_child_confined hconf hq m
      rwa [heq] at hconf'
    · rwa [heq]

/-- Name `m` of directory `q` is free, and inside. -/
def Ready (root : List OsStr) (fs : HostFs) (q : HostPath) (m : OsStr) : Prop :=
  ∀ c, fs.locate q = .found c → root <+: c ∧ fs.get (c ++ [m]) = none

/-- **Once `remove_any` has succeeded**, there is nothing left under the name. -/
theorem removeAny_ready (hq : ∀ c, fs.locate q = .found c → root <+: c)
    (hok : (removeAny fs (q.child m)).2 = .ok ()) :
    Ready root (removeAny fs (q.child m)).1 q m := by
  intro c hc
  have hloc := (removeAny_removal fs (q.child m)).locate hc
  refine ⟨hq c hloc, ?_⟩
  cases hget : fs.get (c ++ [m]) with
  | none => exact (removeAny_removal fs (q.child m)).get_none hget
  | some o =>
    have hres := resolve_of_get hloc hget
    have hmeta : fs.symlinkMetadata (q.child m) = some o := by
      rw [symlinkMetadata, hres]
      exact hget
    unfold removeAny at hok hc ⊢
    rw [hmeta] at hok hc ⊢
    cases o with
    | dir mode => exact removeDirAll_gone hok hc
    | file ino => simp [removeFile, hres, hget, Fs.IsDir, get_remove]
    | symlink t => simp [removeFile, hres, hget, Fs.IsDir, get_remove]

namespace Ready

variable (h : Ready root fs q m)

include h

theorem resolve (follow : Bool) :
    fs.resolve follow (q.child m) = finish fs.get m (fs.locate q) := by
  cases follow with
  | false => exact resolve_child q m
  | true =>
    refine resolve_child_follow fun c hc t ht => ?_
    rw [(h c hc).2] at ht
    cases ht

theorem not_found (follow : Bool) (c : List OsStr) : fs.resolve follow (q.child m) ≠ .found c := by
  intro hres
  rw [h.resolve] at hres
  obtain ⟨d, hd, -, rfl, hsome⟩ := finish_found hres
  rw [(h d hd).2] at hsome
  cases hsome

theorem missing {follow : Bool} {c : List OsStr} {k : OsStr}
    (hres : fs.resolve follow (q.child m) = .missing c k) :
    fs.locate q = .found c ∧ root <+: c ∧ fs.IsDir c ∧ k = m ∧ fs.get (c ++ [m]) = none := by
  rw [h.resolve] at hres
  obtain ⟨hloc, hdir, hk, hnone⟩ := finish_missing hres
  exact ⟨hloc, (h c hloc).1, hdir, hk, hnone⟩

end Ready

end Remove

/-! ## Preparing an entry -/

section Prepare

variable {fs₀ fs : HostFs} {above : HostPath} {c : List OsStr} {n m : OsStr} {names : List OsStr}

theorem prepare_child (q : HostPath) (m : OsStr) :
    prepare fs (q.child m) = (fs.createDirAll q).andThen fun fs => removeAny fs (q.child m) := by
  rw [prepare, Path.parent_child]
  rfl

/-- **The way is clear**: what is written next goes to a free place inside. -/
theorem prepare_ready (hplaced : Placed fs₀ above c n) (hconf : Confined (c ++ [n]) fs₀ fs)
    (hwithin : withinRootFrom fs (c ++ [n]) (under (above.child n) names) = true) (m : OsStr) :
    Confined (c ++ [n]) fs₀ (prepare fs ((under (above.child n) names).child m)).1 ∧
      ((prepare fs ((under (above.child n) names).child m)).2 = .ok () →
        Ready (c ++ [n]) (prepare fs ((under (above.child n) names).child m)).1
          (under (above.child n) names) m) := by
  obtain ⟨hconf₁, hmade₁⟩ := createDirAll_made hplaced hconf names hwithin
  rw [prepare_child]
  set q := under (above.child n) names with hq
  have hne : q.comps ≠ [] := by simp [hq, under, Path.child]
  cases hmk : fs.createDirAll q with
  | mk fs₁ res =>
    rw [hmk] at hconf₁ hmade₁
    cases res with
    | error e => exact ⟨hconf₁, fun h => by cases h⟩
    | ok u =>
      obtain ⟨a, hmade⟩ := hmade₁ rfl
      have hloc := (canonicalize_iff_locate hne rfl).1 hmade.leads
      have hin : ∀ d, fs₁.locate q = .found d → c ++ [n] <+: d := fun d hd => by
        obtain rfl : a = d := Walk.found.inj (hloc.symm.trans hd)
        exact hmade.inside
      exact ⟨removeAny_child_confined hconf₁ hin m, removeAny_ready hin⟩

end Prepare

end Amber.Image
