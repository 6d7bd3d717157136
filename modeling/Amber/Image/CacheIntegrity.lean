import Mathlib.Data.List.TakeWhile
import Amber.Image.BlobCache

/-!
# Integrity of the blob cache

What `fetch_blob` finds in the cache it returns as it is.  A hit is the blob that was asked for
if all digests are names of files, none of them the name of a temporary file, and if saved images
hold under the name of a hash what has this hash, and are copied to the end.

* `Shelf`, `Cache` — the invariant: regular files only, each with one name, and each name that is
  not temporary is the hash of the data.
* `Shelf.fetchBlob` — what a download does to the blobs, sound or not.
* `Cache.fetchBlob`, `Cache.copyMember` — the two producers.
* `cache_integrity` — whole sequences of builds.
* `cache_unsound` — neither condition is checked by the code.
-/

namespace Amber.Image

open Vfs List Fs

/-! ## Names -/

/-- A name of a file. -/
def IsPlain (s : List Char) : Prop := s ≠ [] ∧ s ≠ ['.'] ∧ s ≠ ['.', '.'] ∧ '/' ∉ s

instance (s : List Char) : Decidable (IsPlain s) := inferInstanceAs (Decidable (_ ∧ _ ∧ _ ∧ _))

/-- A name of a file that is not temporary. -/
def GoodName (s : List Char) : Prop := IsPlain s ∧ ¬ tmpSuffix <:+ s

instance (s : List Char) : Decidable (GoodName s) := inferInstanceAs (Decidable (_ ∧ _))

section Names

variable {s : List Char}

/-- Joining a name of a file leads directly into the directory. -/
theorem joinText_plain (h : IsPlain s) (p : HostPath) : joinText p s = p.child (.utf8 s) := by
  obtain ⟨hnil, hdot, hdots, hslash⟩ := h
  have hsplit : s.splitOn '/' = [s] := splitOn_eq_singleton hslash
  have hcomp : textComp s = some (.normal (.utf8 s)) := by simp [textComp, hnil, hdot, hdots]
  have hhead : s.head? ≠ some '/' := fun h => hslash (mem_of_mem_head? h)
  simp [joinText, textTrail, hsplit, hcomp, hhead, hnil, hdot, Path.child]

theorem IsPlain.tmp (h : IsPlain s) : IsPlain (s ++ tmpSuffix) := by
  obtain ⟨-, -, -, hslash⟩ := h
  have hlen : 8 ≤ (s ++ tmpSuffix).length := by simp [tmpSuffix]
  refine ⟨?_, ?_, ?_, ?_⟩
  · intro heq
    rw [heq] at hlen
    simp at hlen
  · intro heq
    rw [heq] at hlen
    simp at hlen
  · intro heq
    rw [heq] at hlen
    simp at hlen
  · rw [mem_append]
    exact fun h => h.elim hslash (by decide)

theorem tmp_ne (h : ¬ tmpSuffix <:+ s) (t : List Char) : s ≠ t ++ tmpSuffix := fun heq =>
  h (heq ▸ suffix_append t tmpSuffix)

theorem slash_not_mem_basename (s : List Char) : '/' ∉ basename s := by
  intro h
  rw [basename, mem_reverse] at h
  simpa using mem_takeWhile_imp h

end Names

/-! ## The invariant -/

/-- A directory `B` of regular files, each with one name, which path `dir` leads to. -/
structure Shelf (dir : HostPath) (B : List OsStr) (fs : HostFs) : Prop where
  located : fs.locate dir = .found B
  isDir : fs.IsDir B
  files : ∀ n o, fs.get (B ++ [n]) = some o → ∃ ino, o = .file ino
  apart : ∀ n ino q, fs.get (B ++ [n]) = some (.file ino) → fs.get q = some (.file ino) →
    q = B ++ [n]

/-- The cache in directory `B`: every name that is not temporary is the hash of the data. -/
structure Cache (H : List UInt8 → List Char) (dir : HostPath) (B : List OsStr) (fs : HostFs) :
    Prop extends Shelf dir B fs where
  verified : ∀ s ino, ¬ tmpSuffix <:+ s → fs.get (B ++ [.utf8 s]) = some (.file ino) →
    H (fs.inodes ino).data = s

/-- An empty directory is a cache. -/
theorem Cache.of_empty {H : List UInt8 → List Char} {dir : HostPath} {B : List OsStr} {fs : HostFs}
    (hloc : fs.locate dir = .found B) (hdir : fs.IsDir B)
    (hempty : ∀ n, fs.get (B ++ [n]) = none) : Cache H dir B fs where
  located := hloc
  isDir := hdir
  files n o h := by
    rw [hempty] at h
    cases h
  apart n ino q h := by
    rw [hempty] at h
    cases h
  verified s ino _ h := by
    rw [hempty] at h
    cases h

/-- The data under a name. -/
def blob (B : List OsStr) (fs : HostFs) (s : List Char) : Option (List UInt8) :=
  match fs.get (B ++ [.utf8 s]) with
  | some (.file ino) => some (fs.inodes ino).data
  | _ => none

/-- `fs'` is `fs` with `data` in file `n` of the directory, in inode `ino`. -/
structure Wrote (B : List OsStr) (n : OsStr) (ino : ℕ) (data : List UInt8) (fs fs' : HostFs) :
    Prop where
  self : fs'.get (B ++ [n]) = some (.file ino)
  other : ∀ q, q ≠ B ++ [n] → fs'.get q = fs.get q
  data_eq : (fs'.inodes ino).data = data
  inodes : ∀ j, j ≠ ino → fs'.inodes j = fs.inodes j
  own : ∀ q, fs.get q = some (.file ino) → q = B ++ [n]
  cwd : fs'.cwd = fs.cwd

section Invariant

variable {H : List UInt8 → List Char} {dir : HostPath} {B : List OsStr} {fs fs' : HostFs}
  {n : OsStr} {ino : ℕ} {data : List UInt8} {s : List Char}

theorem ne_child (B : List OsStr) (n : OsStr) : B ≠ B ++ [n] := by simp

theorem blob_of_get (h : fs.get (B ++ [.utf8 s]) = some (.file ino)) :
    blob B fs s = some (fs.inodes ino).data := by
  rw [blob, h]

theorem get_of_blob (h : blob B fs s = some data) :
    ∃ ino, fs.get (B ++ [.utf8 s]) = some (.file ino) ∧ (fs.inodes ino).data = data := by
  unfold blob at h
  split at h
  · rename_i ino hget
    exact ⟨ino, hget, Option.some.inj h⟩
  · cases h

/-- The cache is sound when every blob has its name. -/
theorem Shelf.cache (h : Shelf dir B fs)
    (hv : ∀ s data, ¬ tmpSuffix <:+ s → blob B fs s = some data → H data = s) :
    Cache H dir B fs := ⟨h, fun s _ hs hget => hv s _ hs (blob_of_get hget)⟩

theorem Cache.blob_verified (h : Cache H dir B fs) (hs : ¬ tmpSuffix <:+ s)
    (hblob : blob B fs s = some data) : H data = s := by
  obtain ⟨ino, hget, rfl⟩ := get_of_blob hblob
  exact h.verified s ino hs hget

theorem Wrote.append (h : Wrote B n ino data fs fs') (bytes : List UInt8) :
    Wrote B n ino (data ++ bytes) fs (fs'.append ino bytes) where
  self := h.self
  other := h.other
  data_eq := by simp [Fs.append, Fs.setInode, h.data_eq]
  inodes j hj := by
    rw [← h.inodes j hj]
    exact Function.update_of_ne hj _ _
  own := h.own
  cwd := h.cwd

theorem Wrote.confined (h : Wrote B n ino data fs fs') : Confined B fs fs' where
  same q hq := h.other q fun heq => hq (heq ▸ prefix_append B [n])
  data q j hq hget := by
    refine h.inodes j fun heq => hq ?_
    rw [h.own q (heq ▸ hget)]
    exact prefix_append B [n]
  cwd := h.cwd

theorem Wrote.blob_self (h : Wrote B (.utf8 s) ino data fs fs') : blob B fs' s = some data := by
  rw [blob_of_get h.self, h.data_eq]

theorem Wrote.blob_other (h : Wrote B n ino data fs fs') (hs : .utf8 s ≠ n) :
    blob B fs' s = blob B fs s := by
  have hne : B ++ [OsStr.utf8 s] ≠ B ++ [n] := by simpa using hs
  unfold blob
  rw [h.other _ hne]
  split
  · rename_i j hget
    rw [h.inodes j]
    rintro rfl
    exact hne (h.own _ hget)
  · rfl

variable (h : Shelf dir B fs) (follow : Bool)

include h

/-- A write in the directory leaves regular files with one name each. -/
theorem Shelf.of_wrote (hw : Wrote B n ino data fs fs') :
    Shelf dir B fs' where
  located := by
    refine locate_mono (fun q o hget hq => ?_) hw.cwd h.located
    rw [hw.other q, hget]
    rintro rfl
    obtain ⟨j, rfl⟩ := h.files n o hget
    rcases hq with hB | hfile
    · exact ne_child B n hB.symm
    · exact hfile j rfl
  isDir := h.isDir.imp fun m hm => (hw.other B (ne_child B n)).trans hm
  files k o hget := by
    by_cases hk : B ++ [k] = B ++ [n]
    · rw [hk, hw.self] at hget
      exact ⟨ino, (Option.some.inj hget).symm⟩
    · rw [hw.other _ hk] at hget
      exact h.files k o hget
  apart k j q hk hq := by
    by_cases hkn : B ++ [k] = B ++ [n]
    · rw [hkn, hw.self] at hk
      cases hk
      by_cases hqn : q = B ++ [n]
      · rw [hqn, hkn]
      · rw [hw.other q hqn] at hq
        exact absurd (hw.own q hq) hqn
    · rw [hw.other _ hkn] at hk
      by_cases hqn : q = B ++ [n]
      · rw [hqn, hw.self] at hq
        cases hq
        exact absurd (hw.own _ hk) hkn
      · rw [hw.other q hqn] at hq
        exact h.apart k j q hk hq

omit h in
/-- A write keeps the cache if the name is temporary or the hash of the data. -/
theorem Cache.of_wrote (h : Cache H dir B fs) (hw : Wrote B n ino data fs fs')
    (hgood : ∀ s, n = .utf8 s → ¬ tmpSuffix <:+ s → H data = s) : Cache H dir B fs' := by
  refine (h.toShelf.of_wrote hw).cache fun s bytes hs hblob => ?_
  by_cases hsn : .utf8 s = n
  · subst hsn
    rw [hw.blob_self] at hblob
    cases hblob
    exact hgood s rfl hs
  · rw [hw.blob_other hsn] at hblob
    exact h.blob_verified hs hblob

theorem Shelf.remove (n : OsStr) : Shelf dir B (fs.remove (B ++ [n])) where
  located := by
    have hle : ∀ q o, fs.get q = some o → (q = B ∨ ∀ ino, o ≠ .file ino) →
        (fs.remove (B ++ [n])).get q = some o := by
      intro q o hget hq
      -- neither a directory nor a link stands at the name or below it
      have hkeep : ¬ B ++ [n] <+: q := by
        intro hpre
        by_cases heq : B ++ [n] = q
        · subst heq
          obtain ⟨j, rfl⟩ := h.files n o hget
          exact hq.elim (fun hB => ne_child B n hB.symm) fun hfile => hfile j rfl
        · obtain ⟨m, hm⟩ := isDir_of_below hpre heq hget
          obtain ⟨j, hj⟩ := h.files n _ hm
          cases hj
      rw [get_remove, if_pos (.inr hkeep), hget]
    exact locate_mono hle rfl h.located
  isDir := by
    obtain ⟨m, hm⟩ := h.isDir
    refine ⟨m, ?_⟩
    rw [get_remove, if_pos (.inr (not_inside_above B n)), hm]
  files k o hget := h.files k o (get_of_get_remove hget)
  apart k j q hk hq := h.apart k j q (get_of_get_remove hk) (get_of_get_remove hq)

omit h in
theorem blob_remove (hs : .utf8 s ≠ n) : blob B (fs.remove (B ++ [n])) s = blob B fs s := by
  have hnot : ¬ B ++ [n] <+: B ++ [OsStr.utf8 s] := by
    simpa [cons_prefix_cons] using hs.symm
  unfold blob
  rw [get_remove, if_pos (.inr hnot)]
  rfl

/-! ## Calls in the cache directory -/

theorem Shelf.resolve (n : OsStr) :
    fs.resolve follow (dir.child n) =
      if (fs.get (B ++ [n])).isSome then .found (B ++ [n]) else .missing B n := by
  rw [← finish_of_dir h.isDir, ← h.located]
  cases follow with
  | false => exact resolve_child dir n
  | true =>
    refine resolve_child_follow fun c hc t ht => ?_
    obtain rfl : B = c := Walk.found.inj (h.located.symm.trans hc)
    obtain ⟨j, hj⟩ := h.files n _ ht
    cases hj

theorem Shelf.resolve_found {o : Obj OsStr} (hget : fs.get (B ++ [n]) = some o) :
    fs.resolve follow (dir.child n) = .found (B ++ [n]) := by
  rw [h.resolve, hget]
  rfl

theorem Shelf.resolve_missing (hget : fs.get (B ++ [n]) = none) :
    fs.resolve follow (dir.child n) = .missing B n := by
  rw [h.resolve, hget]
  rfl

/-- `File::create` on a name in the directory. -/
theorem Shelf.createFile (n : OsStr) :
    ∃ ino fs', fs.createFile (dir.child n) = (fs', .ok ino) ∧ Wrote B n ino [] fs fs' := by
  cases hget : fs.get (B ++ [n]) with
  | some o =>
    obtain ⟨ino, rfl⟩ := h.files n o hget
    have hres := h.resolve_found true hget
    refine ⟨ino, fs.setInode ino { fs.inodes ino with data := [] },
      by simp only [Fs.createFile, hres, hget], ?_⟩
    exact ⟨hget, fun q _ => rfl, by simp [setInode],
      fun j hj => Function.update_of_ne hj _ _, fun q hq => h.apart n ino q hget hq, rfl⟩
  | none =>
    have hres := h.resolve_missing true hget
    refine ⟨fs.fresh, fs.newFile B n (fs.newMode 0o666), by simp only [Fs.createFile, hres], ?_⟩
    set fs₁ := fs.setInode fs.fresh ⟨fs.newMode 0o666, []⟩
    have hdir₁ : fs₁.IsDir B := h.isDir
    have hnone₁ : fs₁.get (B ++ [n]) = none := hget
    refine ⟨?_, fun q hq => ?_, ?_, fun j hj => ?_, ?_, cwd_insert⟩
    · exact (get_insert hdir₁ hnone₁ _).trans (if_pos rfl)
    · exact get_insert_of_ne (Ne.symm hq)
    · simp [newFile, setInode]
    · simp only [newFile, inodes_insert]
      exact Function.update_of_ne hj _ _
    · exact fun q hq => absurd hq (fs.get_ne_fresh q)

/-- A file that is renamed to a free name. -/
theorem Shelf.renameFile {m : OsStr}
    (hget : fs.get (B ++ [n]) = some (.file ino)) (hfree : fs.get (B ++ [m]) = none) :
    ∃ fs', fs.renameFile (dir.child n) (dir.child m) = (fs', .ok ()) ∧
      Wrote B m ino (fs.inodes ino).data (fs.remove (B ++ [n])) fs' := by
  have hres := h.resolve_found false hget
  have hres' := h.resolve_missing false hfree
  refine ⟨(fs.remove (B ++ [n])).insert B m (.file ino),
    by simp only [Fs.renameFile, hres, hget, hres'], ?_⟩
  have hfree' : (fs.remove (B ++ [n])).get (B ++ [m]) = none := by
    rw [get_remove, hfree, ite_self]
  refine ⟨?_, fun q hq => get_insert_of_ne (Ne.symm hq), ?_, fun j _ => ?_, fun q hq => ?_,
    cwd_insert⟩
  · rw [get_insert (h.remove n).isDir hfree', if_pos rfl]
  · rw [inodes_insert]
    rfl
  · rw [inodes_insert]
  · -- the only name of the file is gone
    obtain rfl := h.apart n ino q hget (get_of_get_remove hq)
    rw [get_remove, if_neg (by simp)] at hq
    cases hq

end Invariant

/-! ## Downloads -/

/-- What goes on in temporary files: every blob is as it was. -/
structure Aside (dir : HostPath) (B : List OsStr) (fs fs' : HostFs) : Prop where
  shelf : Shelf dir B fs'
  confined : Confined B fs fs'
  same : ∀ s, ¬ tmpSuffix <:+ s → blob B fs' s = blob B fs s

/-- What `fetch_blob` does for the name `hex`: a blob that was there stays, one that is new has
the hash, and after a success there is one. -/
structure Fetched (H : List UInt8 → List Char) (dir : HostPath) (B : List OsStr) (hex : List Char)
    (fs : HostFs) (r : HostFs × Except FetchError HostPath) : Prop where
  shelf : Shelf dir B r.1
  confined : Confined B fs r.1
  other : ∀ s, ¬ tmpSuffix <:+ s → s ≠ hex → blob B r.1 s = blob B fs s
  stays : ∀ data, blob B fs hex = some data → blob B r.1 hex = some data
  hashed : ∀ data, blob B fs hex = none → blob B r.1 hex = some data → H data = hex
  ok : ∀ path, r.2 = .ok path →
    path = dir.child (.utf8 hex) ∧ ∃ data, blob B r.1 hex = some data

section Fetch

variable {H : List UInt8 → List Char} {dir : HostPath} {B : List OsStr} {fs₀ fs fs' : HostFs}
  {hex : List Char} {ino : ℕ} {hashed : List UInt8}

theorem Aside.refl (h : Shelf dir B fs) : Aside dir B fs fs :=
  ⟨h, Confined.refl B fs, fun _ _ => rfl⟩

theorem Aside.trans (h : Aside dir B fs₀ fs) (h' : Aside dir B fs fs') : Aside dir B fs₀ fs' :=
  ⟨h'.shelf, h.confined.trans h'.confined, fun s hs => (h'.same s hs).trans (h.same s hs)⟩

theorem utf8_ne_tmp {s : List Char} (h : ¬ tmpSuffix <:+ s) (t : List Char) :
    OsStr.utf8 s ≠ .utf8 (t ++ tmpSuffix) := fun heq => tmp_ne h t (OsStr.utf8.inj heq)

/-- A temporary file can hold anything. -/
theorem Aside.of_wrote (h : Shelf dir B fs₀)
    (hw : Wrote B (.utf8 (hex ++ tmpSuffix)) ino hashed fs₀ fs) : Aside dir B fs₀ fs :=
  ⟨h.of_wrote hw, hw.confined, fun _ hs => hw.blob_other (utf8_ne_tmp hs hex)⟩

theorem Aside.remove (h : Shelf dir B fs) (t : List Char) :
    Aside dir B fs (fs.remove (B ++ [.utf8 (t ++ tmpSuffix)])) :=
  ⟨h.remove _, (Confined.refl B fs).remove (prefix_append B _),
    fun _ hs => blob_remove (utf8_ne_tmp hs t)⟩

theorem Aside.removeTmp (h : Shelf dir B fs) (d : Download) (t : List Char) :
    Aside dir B fs (d.removeTmp fs (dir.child (.utf8 (t ++ tmpSuffix)))) := by
  unfold Download.removeTmp
  split_ifs
  · exact .refl h
  · cases hget : fs.get (B ++ [.utf8 (t ++ tmpSuffix)]) with
    | none =>
      simp only [removeFile, h.resolve_missing false hget]
      exact .refl h
    | some o =>
      obtain ⟨ino, rfl⟩ := h.files _ o hget
      have hnot : ¬ fs.IsDir (B ++ [.utf8 (t ++ tmpSuffix)]) := fun ⟨m, hm⟩ => by
        rw [hget] at hm
        cases hm
      simp only [removeFile, h.resolve_found false hget, if_neg hnot]
      exact .remove h t

/-- A call that fails leaves the name as it was. -/
theorem Aside.failed (h : Aside dir B fs₀ fs) (hs : ¬ tmpSuffix <:+ hex) (e : FetchError) :
    Fetched H dir B hex fs₀ (fs, .error e) where
  shelf := h.shelf
  confined := h.confined
  other s hs' _ := h.same s hs'
  stays data hdata := (h.same hex hs).trans hdata
  hashed data hnone hdata := by
    rw [h.same hex hs, hnone] at hdata
    cases hdata
  ok _ h := by cases h

/-- The copy loop writes to the temporary file only, and at the end it holds what was hashed. -/
theorem Shelf.fetchLoop (h : Shelf dir B fs₀) (d : Download) (reads : List Read)
    (hw : Wrote B (.utf8 (hex ++ tmpSuffix)) ino hashed fs₀ fs) :
    let r := Image.fetchLoop d hex (dir.child (.utf8 (hex ++ tmpSuffix))) ino reads fs hashed
    Aside dir B fs₀ r.1 ∧
      ∀ bytes, r.2 = .ok bytes → Wrote B (.utf8 (hex ++ tmpSuffix)) ino bytes fs₀ r.1 := by
  induction reads generalizing fs hashed with
  | nil =>
    refine ⟨.of_wrote h hw, fun bytes heq => ?_⟩
    cases heq
    exact hw
  | cons r reads ih =>
    cases r with
    | error => exact ⟨.of_wrote h hw, fun bytes heq => nomatch heq⟩
    | chunk bytes cut =>
      simp only [Image.fetchLoop]
      split_ifs with hend hbig
      · refine ⟨.of_wrote h hw, fun bytes heq => ?_⟩
        cases heq
        exact hw
      · have haside : Aside dir B fs₀ fs := .of_wrote h hw
        exact ⟨haside.trans (.removeTmp haside.shelf d hex), fun bytes heq => nomatch heq⟩
      · cases cut with
        | some k => exact ⟨.of_wrote h (hw.append (bytes.take k)), fun bytes heq => nomatch heq⟩
        | none => exact ih (hw.append bytes)

/-- What is renamed has the hash that its new name says. -/
theorem Aside.commitBlob (h : Aside dir B fs₀ fs) (hs : ¬ tmpSuffix <:+ hex)
    (hget : fs.get (B ++ [.utf8 (hex ++ tmpSuffix)]) = some (.file ino))
    (hfree : fs.get (B ++ [.utf8 hex]) = none) (d : Download) :
    Fetched H dir B hex fs₀ (Image.commitBlob H d hex (dir.child (.utf8 (hex ++ tmpSuffix)))
      (dir.child (.utf8 hex)) fs (fs.inodes ino).data) := by
  simp only [Image.commitBlob]
  by_cases hhash : H (fs.inodes ino).data = hex
  · rw [if_neg (not_not.2 hhash)]
    split_ifs
    · exact h.failed hs .io
    · obtain ⟨fs', hmv, hw⟩ := h.shelf.renameFile hget hfree
      have hgone : Aside dir B fs₀ (fs.remove (B ++ [.utf8 (hex ++ tmpSuffix)])) :=
        h.trans (.remove h.shelf hex)
      have hnew : blob B fs₀ hex = none := by
        rw [← h.same hex hs, blob, hfree]
      rw [hmv]
      refine ⟨hgone.shelf.of_wrote hw, hgone.confined.trans hw.confined, fun s hs' hne => ?_,
        fun data hdata => ?_, fun data _ hdata => ?_, fun path hpath => ?_⟩
      · rw [← hgone.same s hs']
        exact hw.blob_other fun heq => hne (OsStr.utf8.inj heq)
      · rw [hnew] at hdata
        cases hdata
      · obtain rfl := Option.some.inj (hw.blob_self.symm.trans hdata)
        exact hhash
      · cases hpath
        exact ⟨rfl, _, hw.blob_self⟩
  · rw [if_pos hhash]
    exact (h.trans (.removeTmp h.shelf d hex)).failed hs _

variable (h : Shelf dir B fs)

include h

theorem Shelf.downloadBlob (hs : ¬ tmpSuffix <:+ hex) (hfree : fs.get (B ++ [.utf8 hex]) = none)
    (d : Download) :
    Fetched H dir B hex fs (Image.downloadBlob H d hex (dir.child (.utf8 (hex ++ tmpSuffix)))
      (dir.child (.utf8 hex)) fs) := by
  simp only [Image.downloadBlob]
  obtain ⟨ino, fs₁, hmk, hw₁⟩ := h.createFile (.utf8 (hex ++ tmpSuffix))
  rw [hmk]
  obtain ⟨haside, hdone⟩ := h.fetchLoop d d.reads hw₁
  simp only
  cases hfl : Image.fetchLoop d hex (dir.child (.utf8 (hex ++ tmpSuffix))) ino d.reads fs₁ [] with
  | mk fs₂ res =>
    rw [hfl] at haside hdone
    cases res with
    | error e => exact haside.failed hs e
    | ok bytes =>
      have hw := hdone bytes rfl
      have hne : B ++ [OsStr.utf8 hex] ≠ B ++ [.utf8 (hex ++ tmpSuffix)] := by
        simpa using tmp_ne hs hex
      have hcommit :=
        Aside.commitBlob (H := H) haside hs hw.self ((hw.other _ hne).trans hfree) d
      rwa [hw.data_eq] at hcommit

/-- A name that exists has a blob. -/
theorem Shelf.blob_of_exists (hex' : fs.exists? (dir.child (.utf8 hex)) = true) :
    ∃ data, blob B fs hex = some data := by
  cases hget : fs.get (B ++ [.utf8 hex]) with
  | none =>
    rw [exists?, canonicalize, h.resolve_missing true hget] at hex'
    cases hex'
  | some o =>
    obtain ⟨ino, rfl⟩ := h.files _ o hget
    exact ⟨_, blob_of_get hget⟩

theorem Shelf.get_of_not_exists {n : OsStr} (hno : fs.exists? (dir.child n) = false) :
    fs.get (B ++ [n]) = none := by
  cases hget : fs.get (B ++ [n]) with
  | none => rfl
  | some o =>
    rw [exists?, canonicalize_eq_some.2 (h.resolve_found true hget)] at hno
    cases hno

/-- **What a download does**, whatever the registry and the disk do. -/
theorem Shelf.fetchBlob {digest : List Char} (hgood : GoodName (hexOf digest)) (d : Download) :
    Fetched H dir B (hexOf digest) fs (Image.fetchBlob H fs dir digest d) := by
  obtain ⟨hplain, hs⟩ := hgood
  simp only [Image.fetchBlob, joinText_plain hplain, joinText_plain hplain.tmp]
  split_ifs with hhit
  · -- a hit: the file system is as it was
    refine ⟨h, Confined.refl B fs, fun _ _ _ => rfl, fun _ hd => hd, fun data hnone hd => ?_,
      fun path hpath => ?_⟩
    · rw [hnone] at hd
      cases hd
    · cases hpath
      exact ⟨rfl, h.blob_of_exists hhit⟩
  · exact (Aside.refl h).failed hs .http
  · exact (Aside.refl h).failed hs .io
  · exact h.downloadBlob hs (h.get_of_not_exists (by simpa using hhit)) d

omit h

/-- **A download keeps the cache**, and touches nothing outside it. -/
theorem Cache.fetchBlob (h : Cache H dir B fs) {digest : List Char}
    (hgood : GoodName (hexOf digest)) (d : Download) :
    Cache H dir B (Image.fetchBlob H fs dir digest d).1 ∧
      Confined B fs (Image.fetchBlob H fs dir digest d).1 := by
  have hf : Fetched H dir B (hexOf digest) fs (Image.fetchBlob H fs dir digest d) :=
    h.toShelf.fetchBlob hgood d
  refine ⟨hf.shelf.cache fun s data hs hdata => ?_, hf.confined⟩
  by_cases hne : s = hexOf digest
  · subst hne
    cases hold : blob B fs (hexOf digest) with
    | none => exact hf.hashed data hold hdata
    | some data' =>
      rw [hf.stays data' hold] at hdata
      cases hdata
      exact h.blob_verified hs hold
  · rw [hf.other s hs hne] at hdata
    exact h.blob_verified hs hdata

theorem Cache.fetchLayers (h : Cache H dir B fs) (layers : List (List Char × Download))
    (hgood : ∀ l ∈ layers, GoodName (hexOf l.1)) :
    Cache H dir B (Image.fetchLayers H dir layers fs) := by
  induction layers generalizing fs with
  | nil => exact h
  | cons l layers ih =>
    obtain ⟨digest, d⟩ := l
    rw [forall_mem_cons] at hgood
    have hcache := (h.fetchBlob hgood.1 d).1
    simp only [Image.fetchLayers]
    split
    · rename_i fs' e heq
      rwa [heq] at hcache
    · rename_i fs' path heq
      rw [heq] at hcache
      exact ih hcache hgood.2

end Fetch

/-! ## Saved images -/

section Saved

variable {H : List UInt8 → List Char} {dir : HostPath} {B : List OsStr} {fs : HostFs}

/-- What a member must be: under the name of a hash, all of what has this hash. -/
def Member.Good (H : List UInt8 → List Char) (m : Member) : Prop :=
  GoodName (basename m.path) → H m.body = basename m.path ∧ m.cut = none

/-- What is not a name leads to a directory, and no file is created there. -/
theorem createFile_not_plain {s : List Char} (hslash : '/' ∉ s) (h : ¬ IsPlain s) :
    ∃ e, fs.createFile (joinText dir s) = (fs, .error e) := by
  have hcases : s = [] ∨ s = ['.'] ∨ s = ['.', '.'] := by
    by_contra hnone
    rw [not_or, not_or] at hnone
    exact h ⟨hnone.1, hnone.2.1, hnone.2.2, hslash⟩
  have hend : ∃ segs x, (joinText dir s).segs = segs ++ [x] ∧ ∀ n, x ≠ .normal n := by
    rcases hcases with rfl | rfl | rfl
    · exact ⟨dir.comps ++ [], .curDir, rfl, nofun⟩
    · exact ⟨dir.comps ++ [], .curDir, rfl, nofun⟩
    · exact ⟨dir.comps, .parentDir, append_nil _, nofun⟩
  obtain ⟨segs, x, hsegs, hx⟩ := hend
  have htoDir : ToDir fs.get (fs.resolve true (joinText dir s)) := resolve_toDir hsegs hx true
  unfold createFile
  cases hres : fs.resolve true (joinText dir s) with
  | missing c n => exact absurd hres (htoDir.2 c n)
  | error e => exact ⟨e.fault, rfl⟩
  | found c =>
    obtain ⟨m, hm⟩ := htoDir.1 c hres
    exact ⟨.other, by simp only [hm]⟩

theorem Cache.copyMember (h : Cache H dir B fs) {m : Member} (hgood : m.Good H) :
    Cache H dir B (Image.copyMember fs dir m).1 := by
  simp only [Image.copyMember]
  split_ifs
  · exact h
  · by_cases hplain : IsPlain (basename m.path)
    · rw [joinText_plain hplain]
      obtain ⟨ino, fs', hmk, hw⟩ := h.toShelf.createFile (.utf8 (basename m.path))
      rw [hmk]
      cases hcut : m.cut with
      | some k =>
        refine h.of_wrote (hw.append (m.body.take k)) fun s hs hsuffix => ?_
        obtain rfl : basename m.path = s := by injection hs
        rw [(hgood ⟨hplain, hsuffix⟩).2] at hcut
        cases hcut
      | none =>
        refine h.of_wrote (hw.append m.body) fun s hs hsuffix => ?_
        obtain rfl : basename m.path = s := by injection hs
        exact (hgood ⟨hplain, hsuffix⟩).1
    · obtain ⟨e, he⟩ := createFile_not_plain (slash_not_mem_basename m.path) hplain
      rw [he]
      exact h

theorem Cache.extractMembers (h : Cache H dir B fs) (want : List (List Char)) (torn : Bool)
    (members : List Member) (out : List (List Char × HostPath))
    (hgood : ∀ m ∈ members, m.path ∈ want → m.Good H) :
    Cache H dir B (Image.extractMembers dir want torn members fs out).1 := by
  induction members generalizing fs out with
  | nil => exact h
  | cons m members ih =>
    rw [forall_mem_cons] at hgood
    simp only [Image.extractMembers]
    split_ifs with hwant
    · have hcache := h.copyMember (hgood.1 hwant)
      split
      · rename_i fs' e heq
        rwa [heq] at hcache
      · rename_i fs' path heq
        rw [heq] at hcache
        exact ih hcache _ hgood.2
    · exact ih h _ hgood.2

end Saved

/-! ## Sequences of builds -/

/-- What a build must bring: digests that are names of files and not of temporary ones, and
members that are what their names say. -/
def Build.Good (H : List UInt8 → List Char) : Build → Prop
  | .registry layers => ∀ l ∈ layers, GoodName (hexOf l.1)
  | .saved config layers members _ => ∀ m ∈ members, m.path ∈ config :: layers → m.Good H

/-- A cache hit is a file in the directory, and it has the hash that was asked for. -/
def HitsVerified (H : List UInt8 → List Char) (dir : HostPath) (B : List OsStr) (fs : HostFs) :
    Prop :=
  ∀ digest, GoodName (hexOf digest) → fs.exists? (joinText dir (hexOf digest)) = true →
    ∃ ino, fs.canonicalize (joinText dir (hexOf digest)) = some (B ++ [.utf8 (hexOf digest)]) ∧
      fs.get (B ++ [.utf8 (hexOf digest)]) = some (.file ino) ∧
      H (fs.inodes ino).data = hexOf digest

/-- `fetch_blob` uses two paths, both directly inside the directory, and changes nothing outside
it. -/
def FetchInside (H : List UInt8 → List Char) (dir : HostPath) (B : List OsStr) (fs : HostFs) :
    Prop :=
  ∀ digest d, GoodName (hexOf digest) →
    joinText dir (hexOf digest) = dir.child (.utf8 (hexOf digest)) ∧
    joinText dir (hexOf digest ++ tmpSuffix) = dir.child (.utf8 (hexOf digest ++ tmpSuffix)) ∧
    Confined B fs (fetchBlob H fs dir digest d).1

section Runs

variable {H : List UInt8 → List Char} {dir : HostPath} {B : List OsStr} {fs : HostFs}

variable (h : Cache H dir B fs)

include h

theorem Cache.build {b : Build} (hgood : b.Good H) :
    Cache H dir B (Image.build H dir fs b) := by
  cases b with
  | registry layers => exact h.fetchLayers layers hgood
  | saved config layers members torn => exact h.extractMembers _ torn members [] hgood

theorem Cache.hitsVerified : HitsVerified H dir B fs := by
  intro digest hgood hhit
  rw [joinText_plain hgood.1] at hhit ⊢
  cases hget : fs.get (B ++ [.utf8 (hexOf digest)]) with
  | none =>
    rw [exists?, canonicalize, h.resolve_missing true hget] at hhit
    cases hhit
  | some o =>
    obtain ⟨ino, rfl⟩ := h.files _ o hget
    exact ⟨ino, canonicalize_eq_some.2 (h.resolve_found true hget), rfl,
      h.verified _ ino hgood.2 hget⟩

theorem Cache.fetchInside : FetchInside H dir B fs :=
  fun _ d hgood => ⟨joinText_plain hgood.1 dir, joinText_plain hgood.1.tmp dir,
    (h.fetchBlob hgood d).2⟩

end Runs

/-- **The cache is sound** after every sequence of good builds, whatever fails in them. -/
theorem cache_integrity (H : List UInt8 → List Char) (dir : HostPath) (B : List OsStr)
    (fs : HostFs) (hcache : Cache H dir B fs) (builds : List Build)
    (hgood : ∀ b ∈ builds, b.Good H) :
    HitsVerified H dir B (Runs.run (build H dir) fs builds) ∧
      FetchInside H dir B (Runs.run (build H dir) fs builds) := by
  have hend : Cache H dir B (Runs.run (build H dir) fs builds) :=
    Runs.invariant (fun _ _ h hb => h.build hb) hcache (Runs.each_of_forall hgood)
  exact ⟨hend.hitsVerified, hend.fetchInside⟩

section Example

def cacheDir : HostPath := ⟨true, [.normal (.utf8 ['c'])], .bare⟩

/-- An empty cache. -/
def cacheFs : HostFs := (Fs.init 0o755 [] 0o022).insert [] (.utf8 ['c']) (.dir 0o755)

variable (H : List UInt8 → List Char)

theorem cacheFs_cache :
    Cache H cacheDir [.utf8 ['c']] cacheFs := by
  refine Cache.of_empty (by decide) (by decide) fun n => ?_
  exact get_below_insert (by decide) _ n

def oneByteHash (bytes : List UInt8) : List Char := if bytes = [1] then ['a'] else []

/-- A download that ends early, one that does not, and a saved image with the same layer. -/
def oneByteBuilds : List Build :=
  [.registry [(digestPrefix ++ ['a'], ⟨true, false, [.error], false, false⟩)],
    .registry [(digestPrefix ++ ['a'], ⟨true, false, [.chunk [1] none], false, false⟩)],
    .saved ['x'] [['b', '/', 'a']] [⟨['b', '/', 'a'], [1], false, none⟩] false]

theorem cache_integrity_oneByte :
    let fs := Runs.run (build oneByteHash cacheDir) cacheFs oneByteBuilds
    fs.exists? (joinText cacheDir ['a']) = true ∧
    HitsVerified oneByteHash cacheDir [.utf8 ['c']] fs ∧
    FetchInside oneByteHash cacheDir [.utf8 ['c']] fs := by
  refine ⟨by decide, cache_integrity oneByteHash cacheDir [.utf8 ['c']] cacheFs
    (cacheFs_cache oneByteHash) oneByteBuilds ?_⟩
  have hlayer : GoodName (hexOf (digestPrefix ++ ['a'])) := by decide
  have hfetch : ∀ d, Build.Good oneByteHash (.registry [(digestPrefix ++ ['a'], d)]) :=
    fun d => forall_mem_singleton.2 hlayer
  refine forall_mem_cons.2 ⟨hfetch _, forall_mem_cons.2 ⟨hfetch _, ?_⟩⟩
  refine forall_mem_singleton.2 (forall_mem_singleton.2 fun _ _ => ?_)
  exact ⟨by decide, rfl⟩

/-- A name that is not the hash of nothing. -/
theorem exists_wrong_name (t : List Char) :
    ∃ s, (s = ['a'] ∨ s = ['b']) ∧ H [] ≠ s ++ t := by
  by_cases ha : H [] = ['a'] ++ t
  · refine ⟨['b'], .inr rfl, fun hb => ?_⟩
    rw [ha] at hb
    exact absurd (cons.inj hb).1 (by decide)
  · exact ⟨['a'], .inl rfl, ha⟩

/-- Whatever the hash is, a saved image can put data under a wrong name; a temporary file is
returned for a digest that names it; and a digest with `..` in it leads out of the cache. -/
theorem cache_unsound :
    (∀ H, Cache H cacheDir [.utf8 ['c']] cacheFs) ∧
    (∀ H, ∃ b, ¬ HitsVerified H cacheDir [.utf8 ['c']] (build H cacheDir cacheFs b)) ∧
    (∀ H, ∃ digest d s ino, (build H cacheDir cacheFs (.registry [(digest, d)])).get
        [.utf8 ['c'], .utf8 s] = some (.file ino) ∧
      H ((build H cacheDir cacheFs (.registry [(digest, d)])).inodes ino).data ≠ s ∧
      ∀ d', (fetchBlob H (build H cacheDir cacheFs (.registry [(digest, d)])) cacheDir s d').2 =
        .ok (cacheDir.child (.utf8 s))) ∧
    ∀ H, ∃ digest d,
      ¬ Confined [.utf8 ['c']] cacheFs (fetchBlob H cacheFs cacheDir digest d).1 := by
  refine ⟨cacheFs_cache, fun H => ?_, fun H => ?_, fun H => ?_⟩
  · obtain ⟨s, hs, hwrong⟩ := exists_wrong_name H []
    refine ⟨.saved ['x'] [s] [⟨s, [], false, none⟩] false, fun h => ?_⟩
    rcases hs with rfl | rfl
    · obtain ⟨ino, -, hget, hhash⟩ := h ['a'] (by decide) rfl
      cases hget
      exact hwrong hhash
    · obtain ⟨ino, -, hget, hhash⟩ := h ['b'] (by decide) rfl
      cases hget
      exact hwrong hhash
  · obtain ⟨s, hs, hwrong⟩ := exists_wrong_name H tmpSuffix
    refine ⟨s, ⟨true, false, [.error], false, false⟩, s ++ tmpSuffix, 1, ?_⟩
    rcases hs with rfl | rfl
    · exact ⟨rfl, hwrong, fun _ => rfl⟩
    · exact ⟨rfl, hwrong, fun _ => rfl⟩
  · refine ⟨['.', '.', '/', 'x'], ⟨true, false, [.error], false, false⟩, fun h => ?_⟩
    have hsame := h.same [.utf8 (['x'] ++ tmpSuffix)] (by decide)
    cases hsame

end Example

end Amber.Image
