import Amber.Lib.Vfs.Tree

/-!
# Path resolution

Resolving a path component by component, following symbolic links.  A link in the last place is
followed or not, as the call asks for; a chain of more than forty links is an error.

The result is the object found, or the directory and the name that is missing from it, or an
error.  Three facts carry everything else:

* `exists_turns`, `Turns.walkSegs_cons` — what one component can lead to, and how the walk goes on
  from there.
* `walk_last` — a walk is the walk to its last component and what that one does there; so resolving
  `p/name` without following `name` is resolving `p` and looking up `name` there (`walk_concat`).
* `walk_mono` — what is found stays found in another tree with the same directories and links.
-/

namespace Vfs

open List

variable {N : Type}

inductive WalkError
  | notFound
  | notDir
  | tooManyLinks
  deriving DecidableEq

inductive Walk (N : Type)
  | found (c : List N)
  /-- The last name is missing from directory `c`. -/
  | missing (c : List N) (name : N)
  | error (e : WalkError)
  deriving DecidableEq

/-- Resolve components from `cur`; `onLink` resolves what is left once a link has been read. -/
def walkSegs (look : List N → Option (Obj N)) (follow : Bool)
    (onLink : List N → List (Comp N) → Walk N) : List N → List (Comp N) → Walk N
  | cur, [] => .found cur
  | cur, x :: rest =>
    match look cur with
    | none => .error .notFound
    | some (.dir _) =>
      match x with
      | .curDir => walkSegs look follow onLink cur rest
      | .parentDir => walkSegs look follow onLink cur.dropLast rest
      | .normal n =>
        match look (cur ++ [n]) with
        | none => if rest = [] then .missing cur n else .error .notFound
        | some (.symlink t) =>
          if rest = [] ∧ follow = false then .found (cur ++ [n])
          else onLink (t.start cur) (t.segs ++ rest)
        | some _ => walkSegs look follow onLink (cur ++ [n]) rest
    | some _ => .error .notDir

/-- What one component leads to from `cur`. -/
inductive Turn (N : Type)
  | stop (e : WalkError)
  | go (c : List N)
  /-- The name is missing from `cur`. -/
  | absent (n : N)
  | link (n : N) (t : Path N)

/-- The turns there are, with what stands in the tree. -/
inductive Turns (look : List N → Option (Obj N)) (cur : List N) : Comp N → Turn N → Prop
  | gone {x : Comp N} (h : look cur = none) : Turns look cur x (.stop .notFound)
  | file {x : Comp N} {ino : ℕ} (h : look cur = some (.file ino)) :
    Turns look cur x (.stop .notDir)
  | symlink {x : Comp N} {t : Path N} (h : look cur = some (.symlink t)) :
    Turns look cur x (.stop .notDir)
  | dot {m : ℕ} (h : look cur = some (.dir m)) : Turns look cur .curDir (.go cur)
  | up {m : ℕ} (h : look cur = some (.dir m)) : Turns look cur .parentDir (.go cur.dropLast)
  | name {m : ℕ} {n : N} {o : Obj N} (h : look cur = some (.dir m))
    (hn : look (cur ++ [n]) = some o) (hne : ∀ t, o ≠ .symlink t) :
    Turns look cur (.normal n) (.go (cur ++ [n]))
  | absent {m : ℕ} {n : N} (h : look cur = some (.dir m)) (hn : look (cur ++ [n]) = none) :
    Turns look cur (.normal n) (.absent n)
  | link {m : ℕ} {n : N} {t : Path N} (h : look cur = some (.dir m))
    (hn : look (cur ++ [n]) = some (.symlink t)) : Turns look cur (.normal n) (.link n t)

section Turn

variable {look : List N → Option (Obj N)} {follow : Bool} {onLink : List N → List (Comp N) → Walk N}
  {cur : List N} {x : Comp N} {w : Turn N} {rest : List (Comp N)}

theorem exists_turns (look : List N → Option (Obj N)) (cur : List N) (x : Comp N) :
    ∃ w, Turns look cur x w := by
  cases hcur : look cur with
  | none => exact ⟨_, .gone hcur⟩
  | some o =>
    cases o with
    | file ino => exact ⟨_, .file hcur⟩
    | symlink t => exact ⟨_, .symlink hcur⟩
    | dir m =>
      cases x with
      | curDir => exact ⟨_, .dot hcur⟩
      | parentDir => exact ⟨_, .up hcur⟩
      | normal n =>
        cases hn : look (cur ++ [n]) with
        | none => exact ⟨_, .absent hcur hn⟩
        | some o' =>
          cases o' with
          | file _ | dir _ => exact ⟨_, .name hcur hn nofun⟩
          | symlink t => exact ⟨_, .link hcur hn⟩

/-- **A walk is its first turn and the rest.** -/
theorem Turns.walkSegs_cons (h : Turns look cur x w) :
    walkSegs look follow onLink cur (x :: rest) =
      match w with
      | .stop e => .error e
      | .go c => walkSegs look follow onLink c rest
      | .absent n => if rest = [] then .missing cur n else .error .notFound
      | .link n t =>
        if rest = [] ∧ follow = false then .found (cur ++ [n])
        else onLink (t.start cur) (t.segs ++ rest) := by
  cases h with
  | gone h | file h | symlink h | dot h | up h => simp only [walkSegs, h]
  | name h hn hne =>
    rename_i m n o
    cases o with
    | symlink t => exact absurd rfl (hne t)
    | file ino => simp only [walkSegs, h, hn]
    | dir m => simp only [walkSegs, h, hn]
  | absent h hn | link h hn => simp only [walkSegs, h, hn]

end Turn

/-- Resolve components, following at most `k` links. -/
def walk (look : List N → Option (Obj N)) (follow : Bool) :
    ℕ → List N → List (Comp N) → Walk N
  | 0 => walkSegs look follow fun _ _ => .error .tooManyLinks
  | k + 1 => walkSegs look follow (walk look follow k)

/-! ## The last component -/

section Last

variable {look : List N → Option (Obj N)} {follow : Bool} {x : Comp N} {last : Walk N → Walk N}
  {P : Walk N → Prop}

variable (hfound : ∀ onLink c, P (.found c) →
    walkSegs look follow onLink c [x] = last (.found c))
  (hmissing : ∀ c n, last (.missing c n) = .error .notFound)
  (herror : ∀ e, last (.error e) = .error e)

include hfound hmissing herror

theorem walkSegs_last {onLink onLink' : List N → List (Comp N) → Walk N}
    (hlink : ∀ cur segs, P (onLink cur segs) →
      onLink' cur (segs ++ [x]) = last (onLink cur segs)) (segs : List (Comp N)) :
    ∀ cur, P (walkSegs look true onLink cur segs) →
      walkSegs look follow onLink' cur (segs ++ [x]) =
        last (walkSegs look true onLink cur segs) := by
  induction segs with
  | nil => exact fun cur hok => hfound _ cur hok
  | cons y segs ih =>
    intro cur hok
    have hne : segs ++ [x] ≠ [] := by simp
    obtain ⟨w, hturns⟩ := exists_turns look cur y
    rw [hturns.walkSegs_cons] at hok ⊢
    rw [cons_append, hturns.walkSegs_cons]
    cases w with
    | stop e => exact (herror e).symm
    | go c => exact ih c hok
    | absent k =>
      simp only [if_neg hne]
      split_ifs
      · exact (hmissing _ _).symm
      · exact (herror _).symm
    | link k t =>
      simp only [hne, false_and, if_false, Bool.true_eq_false, and_false] at hok ⊢
      rw [← append_assoc]
      exact hlink _ _ hok

/-- **A walk is the walk to its last component**, and what that one does there. -/
theorem walk_last (k : ℕ) (cur : List N) (segs : List (Comp N))
    (hok : P (walk look true k cur segs)) :
    walk look follow k cur (segs ++ [x]) = last (walk look true k cur segs) := by
  induction k generalizing cur segs with
  | zero =>
    exact walkSegs_last hfound hmissing herror (fun _ _ _ => (herror _).symm) segs cur hok
  | succ k ih =>
    exact walkSegs_last hfound hmissing herror (fun cur segs h => ih cur segs h) segs cur hok

end Last

/-- Look up `n` at the end of a walk. -/
def finish (look : List N → Option (Obj N)) (n : N) : Walk N → Walk N
  | .found c =>
    match look c with
    | none => .error .notFound
    | some (.dir _) => if (look (c ++ [n])).isSome then .found (c ++ [n]) else .missing c n
    | some _ => .error .notDir
  | .missing _ _ => .error .notFound
  | .error e => .error e

section Concat

variable {look : List N → Option (Obj N)} {follow : Bool} {n : N}

/-- The name at the end is looked up, not followed. -/
def Still (look : List N → Option (Obj N)) (follow : Bool) (n : N) (w : Walk N) : Prop :=
  ∀ c, w = .found c → follow = false ∨ ∀ t, look (c ++ [n]) ≠ some (.symlink t)

theorem walkSegs_single {onLink : List N → List (Comp N) → Walk N} (cur : List N)
    (hstill : Still look follow n (.found cur)) :
    walkSegs look follow onLink cur [.normal n] = finish look n (.found cur) := by
  obtain ⟨w, hturns⟩ := exists_turns look cur (.normal n)
  rw [hturns.walkSegs_cons, finish]
  cases hturns with
  | gone h | file h | symlink h => rw [h]
  | name h hn _ =>
    rw [h, hn]
    rfl
  | absent h hn =>
    rw [h, hn]
    rfl
  | link h hn =>
    have hno : follow = false := (hstill cur rfl).resolve_right fun hlink => hlink _ hn
    simp [h, hn, hno]

/-- **Resolving a path with one more name** is resolving the path and looking the name up. -/
theorem walk_concat (k : ℕ) (cur : List N) (segs : List (Comp N))
    (hstill : Still look follow n (walk look true k cur segs)) :
    walk look follow k cur (segs ++ [.normal n]) =
      finish look n (walk look true k cur segs) :=
  walk_last (fun _ => walkSegs_single) (fun _ _ => rfl) (fun _ => rfl) k cur segs hstill

end Concat

/-! ## A last component that is not a name -/

variable {look : List N → Option (Obj N)}

/-- Where a dot or the parent leads from `c`. -/
def Comp.move (c : List N) : Comp N → List N
  | .parentDir => c.dropLast
  | _ => c

/-- A dot or the parent at the end of a walk. -/
def close (look : List N → Option (Obj N)) (x : Comp N) : Walk N → Walk N
  | .found c =>
    match look c with
    | none => .error .notFound
    | some (.dir _) => .found (x.move c)
    | some _ => .error .notDir
  | .missing _ _ => .error .notFound
  | .error e => .error e

section Close

variable {follow : Bool} {x : Comp N} {c : List N} {m : ℕ}

/-- **Resolving a path that ends in a dot or in the parent.** -/
theorem walk_close (hx : ∀ n, x ≠ .normal n) (k : ℕ) (cur : List N) (segs : List (Comp N)) :
    walk look follow k cur (segs ++ [x]) = close look x (walk look true k cur segs) := by
  refine walk_last (P := fun _ => True) (fun onLink c _ => ?_) (fun _ _ => rfl) (fun _ => rfl) k
    cur segs trivial
  rcases hc : look c with - | (m | ino | t)
  · exact (Turns.gone hc).walkSegs_cons.trans (by rw [close, hc])
  · cases x with
    | normal n => exact absurd rfl (hx n)
    | curDir => exact (Turns.dot hc).walkSegs_cons.trans (by rw [close, hc]; rfl)
    | parentDir => exact (Turns.up hc).walkSegs_cons.trans (by rw [close, hc]; rfl)
  · exact (Turns.file hc).walkSegs_cons.trans (by rw [close, hc])
  · exact (Turns.symlink hc).walkSegs_cons.trans (by rw [close, hc])

/-- Nothing is left to follow at its end. -/
theorem walk_follow (hx : ∀ n, x ≠ .normal n) (k : ℕ) (cur : List N) (segs : List (Comp N)) :
    walk look follow k cur (segs ++ [x]) = walk look true k cur (segs ++ [x]) :=
  (walk_close hx k cur segs).trans (walk_close hx k cur segs).symm

/-- A dot at the end of a path to a directory. -/
theorem walk_dot (hdir : look c = some (.dir m)) (k : ℕ) (cur : List N) (segs : List (Comp N))
    (h : walk look true k cur segs = .found c) :
    walk look follow k cur (segs ++ [.curDir]) = .found c := by
  rw [walk_close nofun, h, close, hdir]
  rfl

end Close

/-- What is found leads to a directory, and nothing is missing at the end. -/
def ToDir (look : List N → Option (Obj N)) (w : Walk N) : Prop :=
  (∀ c, w = .found c → ∃ m, look c = some (.dir m)) ∧ ∀ c n, w ≠ .missing c n

theorem toDir_error (e : WalkError) : ToDir look (.error e) :=
  ⟨fun _ h => (nomatch h), fun _ _ h => (nomatch h)⟩

theorem toDir_found {c : List N} {m : ℕ}
    (h : look c = some (.dir m)) : ToDir look (.found c) := by
  refine ⟨fun c' heq => ?_, fun _ _ heq => (nomatch heq)⟩
  cases heq
  exact ⟨m, h⟩

section ToDir

variable {look : List N → Option (Obj N)} {follow : Bool} {x : Comp N}

/-- A path that ends in a dot or in the parent leads to a directory if anywhere. -/
theorem walk_toDir (hx : ∀ n, x ≠ .normal n)
    (hup : ∀ q m, look q = some (.dir m) → ∃ m, look q.dropLast = some (.dir m)) (k : ℕ)
    (cur : List N) (segs : List (Comp N)) :
    ToDir look (walk look follow k cur (segs ++ [x])) := by
  rw [walk_close hx]
  rcases walk look true k cur segs with c | ⟨c, n⟩ | e
  · rw [close]
    rcases hc : look c with - | (m | ino | t)
    · exact toDir_error _
    · cases x with
      | normal n => exact absurd rfl (hx n)
      | curDir => exact toDir_found hc
      | parentDir =>
        obtain ⟨m', hm'⟩ := hup c m hc
        exact toDir_found hm'
    · exact toDir_error _
    · exact toDir_error _
  · exact toDir_error _
  · exact toDir_error _

end ToDir

/-! ## Another tree -/

section Mono

variable {look look' : List N → Option (Obj N)} {follow : Bool} {c : List N}

variable (hle : ∀ q o, look q = some o → (q = c ∨ ∀ ino, o ≠ .file ino) → look' q = some o)

include hle

theorem walkSegs_mono {onLink onLink' : List N → List (Comp N) → Walk N}
    (hlink : ∀ cur segs, onLink cur segs = .found c → onLink' cur segs = .found c)
    (segs : List (Comp N)) : ∀ cur, walkSegs look follow onLink cur segs = .found c →
      walkSegs look' follow onLink' cur segs = .found c := by
  have hdir : ∀ {q m}, look q = some (.dir m) → look' q = some (.dir m) :=
    fun h => hle _ _ h (.inr nofun)
  induction segs with
  | nil => exact fun cur h => h
  | cons x segs ih =>
    intro cur h
    obtain ⟨w, hturns⟩ := exists_turns look cur x
    rw [hturns.walkSegs_cons] at h
    cases hturns with
    | gone _ | file _ | symlink _ => cases h
    | dot hcur =>
      rw [(Turns.dot (hdir hcur)).walkSegs_cons]
      exact ih _ h
    | up hcur =>
      rw [(Turns.up (hdir hcur)).walkSegs_cons]
      exact ih _ h
    | name hcur hn hne =>
      rename_i m n o
      -- nothing is found beyond a file, so a file is the end of the walk
      have hend : cur ++ [n] = c ∨ ∀ ino, o ≠ .file ino := by
        cases o with
        | dir m => exact .inr nofun
        | symlink t => exact .inr nofun
        | file ino =>
          cases segs with
          | nil => exact .inl (Walk.found.inj h)
          | cons y segs =>
            dsimp only at h
            rw [(Turns.file hn).walkSegs_cons] at h
            cases h
      rw [(Turns.name (hdir hcur) (hle _ _ hn hend) hne).walkSegs_cons]
      exact ih _ h
    | absent _ _ =>
      split_ifs at h
    | link hcur hn =>
      rw [(Turns.link (hdir hcur) (hle _ _ hn (.inr nofun))).walkSegs_cons]
      dsimp only at h ⊢
      split_ifs at h ⊢
      · exact h
      · exact hlink _ _ h

/-- **What is found stays found** when the directories and links on the way, and what is found,
stay as they are. -/
theorem walk_mono (k : ℕ) (cur : List N) (segs : List (Comp N))
    (h : walk look follow k cur segs = .found c) :
    walk look' follow k cur segs = .found c := by
  induction k generalizing cur segs with
  | zero => exact walkSegs_mono hle (fun _ _ h => h) segs cur h
  | succ k ih => exact walkSegs_mono hle (fun cur segs h => ih cur segs h) segs cur h

end Mono

/-! ## What is found is there -/

section Found

variable {look : List N → Option (Obj N)} {follow : Bool}

theorem walkSegs_found_some (hroot : (look []).isSome)
    (htree : ∀ q n, (look (q ++ [n])).isSome → (look q).isSome)
    {onLink : List N → List (Comp N) → Walk N}
    (hlink : ∀ cur segs c, (look cur).isSome → onLink cur segs = .found c → (look c).isSome)
    (segs : List (Comp N)) : ∀ cur c, (look cur).isSome ∨ segs ≠ [] →
      walkSegs look follow onLink cur segs = .found c → (look c).isSome := by
  have hsome : ∀ {q o}, look q = some o → (look q).isSome := fun h => by
    rw [h]
    rfl
  induction segs with
  | nil =>
    intro cur c hstart h
    cases h
    simpa using hstart
  | cons x segs ih =>
    intro cur c _ h
    obtain ⟨w, hturns⟩ := exists_turns look cur x
    rw [hturns.walkSegs_cons] at h
    cases hturns with
    | gone _ | file _ | symlink _ => cases h
    | dot hcur => exact ih cur c (.inl (hsome hcur)) h
    | up hcur =>
      refine ih _ c (.inl ?_) h
      rcases eq_nil_or_concat cur with rfl | ⟨q, n, rfl⟩
      · exact hroot
      · rw [concat_eq_append] at hcur ⊢
        rw [dropLast_concat]
        exact htree q n (hsome hcur)
    | name _ hn _ => exact ih _ c (.inl (hsome hn)) h
    | absent _ _ =>
      split_ifs at h
    | link hcur hn =>
      dsimp only at h
      split_ifs at h
      · cases h
        exact hsome hn
      · refine hlink _ _ c ?_ h
        unfold Path.start
        split_ifs
        · exact hroot
        · exact hsome hcur

theorem walk_found_some (hroot : (look []).isSome)
    (htree : ∀ q n, (look (q ++ [n])).isSome → (look q).isSome) (k : ℕ) (cur : List N)
    (segs : List (Comp N)) {c : List N} (hstart : (look cur).isSome ∨ segs ≠ [])
    (h : walk look follow k cur segs = .found c) : (look c).isSome := by
  induction k generalizing cur segs c with
  | zero => exact walkSegs_found_some hroot htree (fun _ _ _ _ h => by cases h) segs cur c hstart h
  | succ k ih =>
    exact walkSegs_found_some hroot htree (fun cur segs _ hcur h => ih cur segs (.inl hcur) h)
      segs cur c hstart h

end Found

/-! ## Resolving a path -/

def maxLinks : ℕ := 40

namespace Fs

variable [DecidableEq N] (fs : Fs N)

/-- Resolve a path; the empty path names nothing. -/
def resolve (follow : Bool) (p : Path N) : Walk N :=
  if p.abs = false ∧ p.segs = [] then .error .notFound
  else walk fs.get follow maxLinks (p.start fs.cwd) p.segs

/-- The canonical path of what a path leads to. -/
def canonicalize (p : Path N) : Option (List N) :=
  match fs.resolve true p with
  | .found c => some c
  | _ => none

variable {fs}

variable {c : List N} {p : Path N} {n : N}

theorem canonicalize_eq_some :
    fs.canonicalize p = some c ↔ fs.resolve true p = .found c := by
  unfold canonicalize
  split <;> simp_all

variable (fs) in
/-- Where the components of a path lead, be the path empty or not. -/
def locate (p : Path N) : Walk N := walk fs.get true maxLinks (p.start fs.cwd) p.comps

theorem locate_mono {fs' : Fs N}
    (hle : ∀ q o, fs.get q = some o → (q = c ∨ ∀ ino, o ≠ .file ino) → fs'.get q = some o)
    (hcwd : fs'.cwd = fs.cwd) (h : fs.locate p = .found c) : fs'.locate p = .found c := by
  unfold locate at h ⊢
  rw [hcwd]
  exact walk_mono hle _ _ _ h

theorem resolve_mono {fs' : Fs N} {follow : Bool}
    (hle : ∀ q o, fs.get q = some o → (q = c ∨ ∀ ino, o ≠ .file ino) → fs'.get q = some o)
    (hcwd : fs'.cwd = fs.cwd) (h : fs.resolve follow p = .found c) :
    fs'.resolve follow p = .found c := by
  unfold resolve at h ⊢
  split_ifs at h ⊢
  rw [hcwd]
  exact walk_mono hle _ _ _ h

/-- A path that is not empty leads where its components do. -/
theorem canonicalize_iff_locate (hne : p.comps ≠ []) (htrail : p.trail = .bare)
    : fs.canonicalize p = some c ↔ fs.locate p = .found c := by
  have hsegs : p.segs = p.comps := by simp [Path.segs, htrail]
  rw [canonicalize_eq_some, resolve, hsegs, if_neg fun h => hne h.2, locate]

/-- The same path with a slash at its end. -/
theorem canonicalize_trail (h : fs.locate p = .found c)
    (hdir : fs.IsDir c) : fs.canonicalize ⟨p.abs, p.comps, .slash⟩ = some c := by
  obtain ⟨m, hm⟩ := hdir
  have hne : (⟨p.abs, p.comps, .slash⟩ : Path N).segs ≠ [] := by simp [Path.segs]
  rw [canonicalize_eq_some, resolve, if_neg fun hempty => hne hempty.2]
  exact walk_dot hm maxLinks _ p.comps h

/-- The last name of a path is looked up where the rest of it leads. -/
theorem resolve_child (p : Path N) (n : N) :
    fs.resolve false (p.child n) = finish fs.get n (fs.locate p) := by
  have hne : p.comps ++ [Comp.normal n] ≠ [] := by simp
  rw [resolve, Path.segs_child, if_neg fun h => hne h.2]
  exact walk_concat maxLinks _ _ fun _ _ => .inl rfl

variable (h : ∀ c, fs.locate p = .found c → ∀ t, fs.get (c ++ [n]) ≠ some (.symlink t))

include h

/-- The same when the path is followed, if the name is not a link. -/
theorem resolve_child_follow :
    fs.resolve true (p.child n) = finish fs.get n (fs.locate p) := by
  have hne : p.comps ++ [Comp.normal n] ≠ [] := by simp
  rw [resolve, Path.segs_child, if_neg fun h => hne h.2]
  exact walk_concat maxLinks _ _ fun c hc => .inr (h c hc)

theorem locate_child :
    fs.locate (p.child n) = finish fs.get n (fs.locate p) :=
  walk_concat maxLinks _ _ fun c hc => .inr (h c hc)

omit h

/-- A path that ends in a dot, a slash or the parent is followed to its end in any case. -/
theorem resolve_of_not_name {segs : List (Comp N)} {x : Comp N}
    (hsegs : p.segs = segs ++ [x]) (hx : ∀ n, x ≠ .normal n) (follow : Bool) :
    fs.resolve follow p = fs.resolve true p := by
  unfold resolve
  rw [hsegs, walk_follow hx]

theorem resolve_toDir {segs : List (Comp N)} {x : Comp N}
    (hsegs : p.segs = segs ++ [x]) (hx : ∀ n, x ≠ .normal n) (follow : Bool) :
    ToDir fs.get (fs.resolve follow p) := by
  unfold resolve
  split_ifs
  · exact toDir_error _
  · rw [hsegs]
    refine walk_toDir hx (fun q m hdir => ?_) maxLinks _ segs
    rcases eq_nil_or_concat q with rfl | ⟨d, n, rfl⟩
    · exact fs.root_dir
    · rw [concat_eq_append] at hdir ⊢
      rw [dropLast_concat]
      exact fs.tree d n _ hdir

theorem finish_found {w : Walk N} (h : finish fs.get n w = .found c) :
    ∃ d, w = .found d ∧ fs.IsDir d ∧ c = d ++ [n] ∧ (fs.get c).isSome := by
  unfold finish at h
  split at h
  · rename_i d
    split at h
    · cases h
    · rename_i m hd
      split_ifs at h with hsome
      cases h
      exact ⟨d, rfl, ⟨m, hd⟩, rfl, hsome⟩
    · cases h
  · cases h
  · cases h

theorem finish_missing {k : N} {w : Walk N} (h : finish fs.get n w = .missing c k) :
    w = .found c ∧ fs.IsDir c ∧ k = n ∧ fs.get (c ++ [n]) = none := by
  unfold finish at h
  split at h
  · split at h
    · cases h
    · rename_i m hd
      split_ifs at h with hsome
      cases h
      exact ⟨rfl, ⟨m, hd⟩, rfl, by simpa using hsome⟩
    · cases h
  · cases h
  · cases h

theorem finish_of_dir (h : fs.IsDir c) :
    finish fs.get n (.found c) =
      if (fs.get (c ++ [n])).isSome then .found (c ++ [n]) else .missing c n := by
  obtain ⟨m, hm⟩ := h
  simp only [finish, hm]

theorem finish_of_get {o : Obj N} (h : fs.get (c ++ [n]) = some o) :
    finish fs.get n (.found c) = .found (c ++ [n]) := by
  rw [finish_of_dir (fs.tree c n o h), h]
  rfl

theorem resolve_of_get {o : Obj N} (hloc : fs.locate p = .found c)
    (h : fs.get (c ++ [n]) = some o) : fs.resolve false (p.child n) = .found (c ++ [n]) := by
  rw [resolve_child, hloc, finish_of_get h]

/-- What is found by a path that is not empty is there. -/
theorem get_of_locate (hne : p.comps ≠ [])
    (h : fs.locate p = .found c) : (fs.get c).isSome := by
  refine walk_found_some ?_ (fun q n hsome => ?_) maxLinks _ _ (.inr hne) h
  · obtain ⟨m, hm⟩ := fs.root_dir
    exact Option.isSome_iff_exists.2 ⟨_, hm⟩
  · obtain ⟨o, ho⟩ := Option.isSome_iff_exists.1 hsome
    obtain ⟨m, hm⟩ := fs.tree q n o ho
    exact Option.isSome_iff_exists.2 ⟨_, hm⟩

/-- If a path leads somewhere, its last name stands in the directory the rest leads to. -/
theorem canonicalize_child {a : List N}
    (h : fs.canonicalize (p.child n) = some a) :
    ∃ c, fs.locate p = .found c ∧ fs.IsDir c ∧ (fs.get (c ++ [n])).isSome := by
  by_cases hlink : ∃ c t, fs.locate p = .found c ∧ fs.get (c ++ [n]) = some (.symlink t)
  · obtain ⟨c, t, hloc, hget⟩ := hlink
    exact ⟨c, hloc, fs.tree c n _ hget, by rw [hget]; rfl⟩
  · rw [canonicalize_eq_some, resolve_child_follow fun c hc t ht => hlink ⟨c, t, hc, ht⟩] at h
    obtain ⟨c, hloc, hdir, rfl, hsome⟩ := finish_found h
    exact ⟨c, hloc, hdir, hsome⟩

end Fs

end Vfs
