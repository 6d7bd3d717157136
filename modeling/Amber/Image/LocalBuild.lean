import Amber.Image.Authentic

/-!
# Building from a saved image

`build_local` of `amber-image/src/lib.rs`: the manifest of a `docker save` archive lists the config
and the layers as members of the archive; `extract_members` copies them into the directory of
blobs, and the config and the layers are then read from there.  The manifest names a member by its
whole path, the file it is copied to has the last component of that path.

Members of the same base name go to the same file, and what is read at the end is what came last.

* `extractMembers_spec` — after the extraction each file holds the last member of its name.
* `membersKept_iff` — config and layers are what the manifest lists exactly if listed members of the
  same base name have the same content.
* `layers_confused` — in the layout `id/layer.tar` they do not.
-/

namespace Amber.Image

open Vfs List Option

/-! ## The manifest of a saved image -/

/-- An archive; if `torn`, it cannot be read past these members. -/
structure SaveTar where
  members : List Member
  torn : Bool
  /-- The manifest cannot be read to its end. -/
  manifestCut : Bool

/-- `v.get(0)`. -/
def Json.first? : Json → Option Json
  | .arr items => items.head?
  | _ => none

section Build

variable (json : List UInt8 → Option Json)

def parseSaveManifest (body : List UInt8) : Except ImageError (List Char × List (List Char)) :=
  match json body with
  | none => .error .json
  | some v =>
    match v.first? with
    | none => .error (.fetch (.registry "empty manifest.json"))
    | some m =>
      match (m.index "Config").asStr with
      | none => .error (.fetch (.registry "manifest.json: no Config"))
      | some config =>
        let layers := strList (m.index "Layers")
        if layers = [] then .error (.fetch (.registry "manifest.json: no Layers"))
        else .ok (config, layers)

def readSaveManifest (tar : SaveTar) : Except ImageError (List Char × List (List Char)) :=
  match tar.members.find? fun m => m.path = "manifest.json".toList with
  | some m => if tar.manifestCut then .error (.fetch .io) else parseSaveManifest json m.body
  | none =>
    if tar.torn then .error (.fetch .io)
    else .error (.fetch (.registry "no manifest.json in image tar"))

/-! ## The build -/

/-- What is handed on to be flattened. -/
structure Assembled where
  /-- Where the members went. -/
  extracted : List (List Char × HostPath)
  /-- The config, as it was read. -/
  configBody : List UInt8
  config : ImageConfig
  /-- The files of the layers. -/
  layers : List HostPath

inductive LocalOutcome
  /-- From an earlier build. -/
  | cached
  | assembled (a : Assembled)

/-- The closure `member`. -/
def findMember (extracted : List (List Char × HostPath)) (m : List Char) :
    Except ImageError HostPath :=
  match extracted.lookup m with
  | some path => .ok path
  | none => .error (.fetch (.registry ("image tar missing blob " ++ String.ofList m)))

/-- The config and the files of the layers, once the members are extracted. -/
def assemble (fs : HostFs) (config : List Char) (layers : List (List Char))
    (extracted : List (List Char × HostPath)) : Except ImageError Assembled := do
  let configPath ← findMember extracted config
  match fileData fs configPath with
  | none => .error (.fetch .io)
  | some body =>
    match json body with
    | none => .error .json
    | some v =>
      let paths ← layers.mapM (findMember extracted)
      return ⟨extracted, body, parseConfig v, paths⟩

/-- `build_local`; the blobs are in `dir`. -/
def buildLocal (tar : SaveTar) (host : Host) (dir : HostPath) (fs : HostFs) :
    HostFs × Except ImageError LocalOutcome :=
  if host.dirsMade = false then (fs, .error (.fetch .io))
  else
    match readSaveManifest json tar with
    | .error e => (fs, .error e)
    | .ok (config, layers) =>
      if host.built (basename config) then (fs, .ok .cached)
      else
        match extractMembers dir (config :: layers) tar.torn tar.members fs [] with
        | (fs, .error e) => (fs, .error (.fetch e))
        | (fs, .ok extracted) =>
          match assemble json fs config layers extracted with
          | .error e => (fs, .error e)
          | .ok a => if host.finished then (fs, .ok (.assembled a)) else (fs, .error .pack)

end Build

/-! ## The last of several members -/

/-- The content of the last member whose path is one of these. -/
def lastBody (keep : List Char → Bool) : List Member → Option (List UInt8)
  | [] => none
  | m :: members =>
    (lastBody keep members).or (if keep m.path then some m.body else none)

/-- The content of a member; of several with one path, the last one counts. -/
def contentOf (tar : SaveTar) (path : List Char) : Option (List UInt8) :=
  lastBody (fun p => decide (p = path)) tar.members

section

local instance lawfulBEqText : LawfulBEq (List Char) := inferInstance

/-- What the extraction writes last to a file. -/
def lastWritten (want : List (List Char)) (members : List Member) (name : List Char) :
    Option (List UInt8) :=
  lastBody (fun p => decide (p ∈ want ∧ basename p = name)) members

end

variable {keep : List Char → Bool} {members : List Member}

theorem lastBody_eq_none_iff :
    lastBody keep members = none ↔ ∀ m ∈ members, keep m.path = false := by
  induction members with
  | nil => simp [lastBody]
  | cons m members ih =>
    rw [lastBody, or_eq_none_iff, ih, forall_mem_cons, and_comm]
    cases keep m.path <;> simp

/-- The last of several paths is the last of its own. -/
theorem lastBody_eq_some {body : List UInt8}
    (h : lastBody keep members = some body) :
    ∃ path, keep path = true ∧ lastBody (fun p => decide (p = path)) members = some body := by
  induction members with
  | nil => cases h
  | cons m members ih =>
    rw [lastBody] at h
    cases hrest : lastBody keep members with
    | some body' =>
      rw [hrest, some_or] at h
      cases h
      obtain ⟨path, hkeep, hlast⟩ := ih hrest
      exact ⟨path, hkeep, by rw [lastBody, hlast, some_or]⟩
    | none =>
      rw [hrest, none_or] at h
      split_ifs at h with hkeep
      cases h
      have hgone : lastBody (fun p => decide (p = m.path)) members = none := by
        refine lastBody_eq_none_iff.2 fun m' hm' => decide_eq_false fun heq => ?_
        have hnot := lastBody_eq_none_iff.1 hrest m' hm'
        rw [heq, hkeep] at hnot
        cases hnot
      exact ⟨m.path, hkeep, by rw [lastBody, hgone, none_or, if_pos (decide_eq_true rfl)]⟩

theorem lastBody_isSome_mono {more : List Char → Bool}
    (hmore : ∀ p, keep p = true → more p = true) (h : (lastBody keep members).isSome) :
    (lastBody more members).isSome := by
  rw [isSome_iff_ne_none, ne_eq, lastBody_eq_none_iff] at h ⊢
  intro hall
  refine h fun m hm => ?_
  rw [← Bool.not_eq_true]
  exact fun hkeep => Bool.false_ne_true ((hall m hm).symm.trans (hmore _ hkeep))

/-- A member that is asked for is written, and its file ends up with a member that is. -/
theorem lastWritten_of_content {want : List (List Char)} {tar : SaveTar} {m : List Char}
    (hwant : m ∈ want) (h : (contentOf tar m).isSome) :
    ∃ m' ∈ want, basename m' = basename m ∧
      lastWritten want tar.members (basename m) = contentOf tar m' ∧ (contentOf tar m').isSome := by
  have hsome : (lastWritten want tar.members (basename m)).isSome :=
    lastBody_isSome_mono (fun p hp => by
      obtain rfl := of_decide_eq_true hp
      exact decide_eq_true ⟨hwant, rfl⟩) h
  obtain ⟨body, hbody⟩ := isSome_iff_exists.1 hsome
  obtain ⟨m', hkeep, hlast⟩ := lastBody_eq_some hbody
  obtain ⟨hwant', hname⟩ := of_decide_eq_true hkeep
  have hcontent : contentOf tar m' = some body := hlast
  exact ⟨m', hwant', hname, hbody.trans hcontent.symm, by rw [hcontent]; rfl⟩

/-! ## The extraction -/

section Extract

variable {dir : HostPath} {B : List OsStr} {fs fs' : HostFs} {want : List (List Char)}
  {torn : Bool}

theorem Shelf.copyMember_ok (h : Shelf dir B fs) {m : Member} {path : HostPath}
    (hcopy : copyMember fs dir m = (fs', .ok path)) :
    path = dir.child (.utf8 (basename m.path)) ∧
      ∃ ino, Wrote B (.utf8 (basename m.path)) ino m.body fs fs' := by
  unfold copyMember at hcopy
  dsimp only at hcopy
  split_ifs at hcopy
  · cases hcopy
  by_cases hplain : IsPlain (basename m.path)
  · obtain ⟨ino, fs₁, hmk, hw⟩ := h.createFile (.utf8 (basename m.path))
    rw [joinText_plain hplain, hmk] at hcopy
    cases hcut : m.cut with
    | some k =>
      rw [hcut] at hcopy
      cases hcopy
    | none =>
      rw [hcut] at hcopy
      cases hcopy
      exact ⟨rfl, ino, hw.append m.body⟩
  · obtain ⟨e, he⟩ := createFile_not_plain (slash_not_mem_basename m.path) hplain
    rw [he] at hcopy
    cases hcopy

/-- **After the extraction each file holds the last member of its name**, and the files that are
returned are those of members of the archive. -/
theorem Shelf.extractMembers_spec (h : Shelf dir B fs) {members : List Member}
    {out out' : List (List Char × HostPath)}
    (hextract : extractMembers dir want torn members fs out = (fs', .ok out')) :
    Shelf dir B fs' ∧
      (∀ name, blob B fs' name = (lastWritten want members name).or (blob B fs name)) ∧
      ∀ r ∈ out', r ∈ out ∨ r.1 ∈ want ∧ r.2 = dir.child (.utf8 (basename r.1)) ∧
        (lastBody (fun p => decide (p = r.1)) members).isSome := by
  induction members generalizing fs out with
  | nil =>
    cases torn <;> cases hextract
    exact ⟨h, fun name => rfl, fun r hr => .inl hr⟩
  | cons m members ih =>
    have hmore : ∀ path, (lastBody (fun p => decide (p = path)) members).isSome →
        (lastBody (fun p => decide (p = path)) (m :: members)).isSome := fun path hpath => by
      rw [lastBody, isSome_or, hpath, Bool.true_or]
    rw [extractMembers] at hextract
    split_ifs at hextract with hwant
    · split at hextract
      · cases hextract
      · rename_i fs₁ path hcopy
        obtain ⟨rfl, ino, hw⟩ := h.copyMember_ok hcopy
        obtain ⟨hshelf, hblob, hout⟩ := ih (h.of_wrote hw) hextract
        refine ⟨hshelf, fun name => ?_, fun r hr => ?_⟩
        · rw [hblob name, lastWritten, lastWritten, lastBody, Option.or_assoc]
          congr 1
          by_cases hname : basename m.path = name
          · subst hname
            rw [hw.blob_self, if_pos (decide_eq_true ⟨hwant, rfl⟩), some_or]
          · rw [hw.blob_other fun heq => hname (OsStr.utf8.inj heq).symm,
              if_neg (by simp [hname]), none_or]
        · rcases hout r hr with hr | ⟨hw', hpath, hsome⟩
          · rcases mem_cons.1 hr with rfl | hr
            · refine .inr ⟨hwant, rfl, ?_⟩
              rw [lastBody, isSome_or, if_pos (decide_eq_true rfl)]
              simp
            · exact .inl hr
          · exact .inr ⟨hw', hpath, hmore _ hsome⟩
    · obtain ⟨hshelf, hblob, hout⟩ := ih h hextract
      refine ⟨hshelf, fun name => ?_, fun r hr => ?_⟩
      · rw [hblob name, lastWritten, lastWritten, lastBody, if_neg (by simp [hwant]), or_none]
      · refine (hout r hr).imp_right ?_
        rintro ⟨hw', hpath, hsome⟩
        exact ⟨hw', hpath, hmore _ hsome⟩

end Extract

/-! ## Whole builds -/

section Whole

variable {json : List UInt8 → Option Json} {tar : SaveTar} {host : Host} {dir : HostPath}
  {B : List OsStr} {fs fs' : HostFs} {config : List Char} {layers : List (List Char)}
  {extracted : List (List Char × HostPath)} {a : Assembled}

variable {m : List Char} {path : HostPath} {paths : List HostPath}

theorem findMember_eq_ok (h : findMember extracted m = .ok path) :
    extracted.lookup m = some path := by
  unfold findMember at h
  split at h
  · rename_i path' hlookup
    cases h
    exact hlookup
  · cases h

theorem mapM_findMember (h : layers.mapM (findMember extracted) = .ok paths) :
    List.Forall₂ (fun m path => extracted.lookup m = some path) layers paths := by
  induction layers generalizing paths with
  | nil =>
    cases h
    exact .nil
  | cons m layers ih =>
    rw [mapM_cons] at h
    obtain ⟨path, hpath, h⟩ := Failing.bind_eq_ok h
    obtain ⟨paths', hpaths, h⟩ := Failing.bind_eq_ok h
    cases h
    exact .cons (findMember_eq_ok hpath) (ih hpaths)

theorem lookup_of_forall₂
    (h : List.Forall₂ (fun m path => extracted.lookup m = some path) layers paths) :
    ∀ m ∈ layers, ∃ path, extracted.lookup m = some path := by
  induction h with
  | nil => simp
  | cons hhead _ ih => exact forall_mem_cons.2 ⟨⟨_, hhead⟩, ih⟩

theorem assemble_eq_ok (h : assemble json fs config layers extracted = .ok a) :
    a.extracted = extracted ∧
      (∃ path, extracted.lookup config = some path ∧ fileData fs path = some a.configBody) ∧
      List.Forall₂ (fun m path => extracted.lookup m = some path) layers a.layers := by
  obtain ⟨path, hpath, h⟩ := Failing.bind_eq_ok h
  split at h
  · cases h
  · rename_i body hbody
    split at h
    · cases h
    · obtain ⟨paths, hpaths, h⟩ := Failing.bind_eq_ok h
      cases h
      exact ⟨rfl, ⟨path, findMember_eq_ok hpath, hbody⟩, mapM_findMember hpaths⟩

theorem buildLocal_eq_assembled (hmanifest : readSaveManifest json tar = .ok (config, layers))
    (h : buildLocal json tar host dir fs = (fs', .ok (.assembled a))) :
    extractMembers dir (config :: layers) tar.torn tar.members fs [] = (fs', .ok a.extracted) ∧
      assemble json fs' config layers a.extracted = .ok a := by
  unfold buildLocal at h
  rw [hmanifest] at h
  dsimp only at h
  split at h
  · cases h
  split at h
  · cases h
  split at h
  · cases h
  rename_i fs₁ extracted hextract
  split at h
  · cases h
  rename_i a' hassemble
  split at h
  · cases h
    obtain ⟨rfl, -⟩ := assemble_eq_ok hassemble
    exact ⟨hextract, hassemble⟩
  · cases h

theorem mem_of_lookup (h : extracted.lookup m = some path) : (m, path) ∈ extracted := by
  obtain ⟨before, after, hsplit, -⟩ := lookup_eq_some_iff.1 h
  rw [hsplit]
  exact mem_append_right _ mem_cons_self

/-- The config that is parsed is the content of the config member, each layer is the content of the
member the manifest lists in its place, and a file that two members share is right for both. -/
structure MembersKept (tar : SaveTar) (config : List Char) (layers : List (List Char))
    (fs : HostFs) (a : Assembled) : Prop where
  config : contentOf tar config = some a.configBody
  layers : a.layers.map (fileData fs) = layers.map (contentOf tar)
  shared : ∀ m m' path, a.extracted.lookup m = some path → a.extracted.lookup m' = some path →
    contentOf tar m = contentOf tar m'

/-- What is read from the file of a member is the content of a listed member of its name. -/
theorem Shelf.extracted_read (hshelf : Shelf dir B fs)
    (hextract : extractMembers dir (config :: layers) tar.torn tar.members fs [] =
      (fs', .ok extracted))
    (hlookup : extracted.lookup m = some path) :
    m ∈ config :: layers ∧ path = dir.child (.utf8 (basename m)) ∧
      ∃ m' ∈ config :: layers, basename m' = basename m ∧
        fileData fs' path = contentOf tar m' := by
  obtain ⟨hshelf', hblob, hout⟩ := hshelf.extractMembers_spec hextract
  obtain hnil | ⟨hwant, hpath, hsome⟩ := hout _ (mem_of_lookup hlookup)
  · cases hnil
  obtain ⟨m', hwant', hname, hwritten, hsome'⟩ := lastWritten_of_content hwant hsome
  obtain rfl : path = dir.child (.utf8 (basename m)) := hpath
  refine ⟨hwant, rfl, m', hwant', hname, ?_⟩
  obtain ⟨body, hbody⟩ := isSome_iff_exists.1 hsome'
  rw [hshelf'.fileData_eq, hblob, hwritten, hbody, some_or]

/-- **Config and layers are the members the manifest lists exactly if listed members with the same
base name have the same content.** -/
theorem membersKept_iff (hshelf : Shelf dir B fs)
    (hmanifest : readSaveManifest json tar = .ok (config, layers))
    (hbuilt : buildLocal json tar host dir fs = (fs', .ok (.assembled a))) :
    MembersKept tar config layers fs' a ↔
      ∀ m ∈ config :: layers, ∀ m' ∈ config :: layers, basename m = basename m' →
        contentOf tar m = contentOf tar m' := by
  obtain ⟨hextract, hassemble⟩ := buildLocal_eq_assembled hmanifest hbuilt
  obtain ⟨-, ⟨configPath, hconfig, hbody⟩, hlayers⟩ := assemble_eq_ok hassemble
  have hread : ∀ m path, a.extracted.lookup m = some path → _ := fun m path h =>
    hshelf.extracted_read hextract h
  constructor
  · intro hkept m hm m' hm' hname
    have hfound : ∀ m ∈ config :: layers, ∃ path, a.extracted.lookup m = some path :=
      forall_mem_cons.2 ⟨⟨configPath, hconfig⟩, lookup_of_forall₂ hlayers⟩
    obtain ⟨path, hpath⟩ := hfound m hm
    obtain ⟨path', hpath'⟩ := hfound m' hm'
    obtain ⟨-, rfl, -⟩ := hread m path hpath
    obtain ⟨-, rfl, -⟩ := hread m' path' hpath'
    rw [← hname] at hpath'
    exact hkept.shared m m' _ hpath hpath'
  · intro hsame
    have hright : ∀ m path, a.extracted.lookup m = some path →
        fileData fs' path = contentOf tar m := by
      intro m path hpath
      obtain ⟨hm, -, m', hm', hname, hdata⟩ := hread m path hpath
      rw [hdata, hsame m' hm' m hm hname]
    refine ⟨?_, ?_, fun m m' path hpath hpath' => ?_⟩
    · rw [← hright config configPath hconfig, hbody]
    · have hall : List.Forall₂ (fun m path => contentOf tar m = fileData fs' path) layers
          a.layers := hlayers.imp fun m path hpath => (hright m path hpath).symm
      have heq := forall₂_map_left_iff.2 (forall₂_map_right_iff.2 hall)
      rw [forall₂_eq_eq_eq] at heq
      exact heq.symm
    · rw [← hright m path hpath, ← hright m' path hpath']

end Whole

section Example

/-- The manifest of a saved image. -/
def saveDoc (config : List Char) (layers : List (List Char)) : Json :=
  .arr [.obj [("Config".toList, .str config), ("Layers".toList, .arr (layers.map .str))]]

/-- A saved image with a config and two layers, each of one byte. -/
def twoLayers (first second : List Char) : SaveTar where
  members := [⟨"manifest.json".toList, [1], false, none⟩, ⟨['c'], [2], false, none⟩,
    ⟨first, [3], false, none⟩, ⟨second, [4], false, none⟩]
  torn := false
  manifestCut := false

def twoLayersJson (first second : List Char) (body : List UInt8) : Option Json :=
  if body = [1] then some (saveDoc ['c'] [first, second]) else some (.obj [])

/-- What becomes of the three members, if they can be extracted. -/
theorem twoLayers_build {first second : List Char} {fs' : HostFs}
    {extracted : List (List Char × HostPath)} {path₁ path₂ : HostPath}
    (hextract : extractMembers cacheDir [['c'], first, second] (twoLayers first second).torn
      (twoLayers first second).members cacheFs [] = (fs', .ok extracted))
    (hwritten : lastWritten [['c'], first, second] (twoLayers first second).members ['c'] =
      some [2])
    (hconfig : extracted.lookup ['c'] = some (cacheDir.child (.utf8 ['c'])))
    (hfirst : extracted.lookup first = some path₁)
    (hsecond : extracted.lookup second = some path₂) :
    buildLocal (twoLayersJson first second) (twoLayers first second) freshHost cacheDir cacheFs =
      (fs', .ok (.assembled ⟨extracted, [2], parseConfig (.obj []), [path₁, path₂]⟩)) := by
  obtain ⟨hshelf, hblob, -⟩ := (cacheFs_cache tinyHash).toShelf.extractMembers_spec hextract
  have hbody : fileData fs' (cacheDir.child (.utf8 ['c'])) = some [2] := by
    rw [hshelf.fileData_eq, hblob, hwritten, some_or]
  have hassemble : assemble (twoLayersJson first second) fs' ['c'] [first, second] extracted =
      .ok ⟨extracted, [2], parseConfig (.obj []), [path₁, path₂]⟩ := by
    have hjson : twoLayersJson first second [2] = some (.obj []) := rfl
    simp [assemble, findMember, hconfig, hfirst, hsecond, hbody, hjson, bind, Except.bind, pure,
      Except.pure]
  have hmanifest : readSaveManifest (twoLayersJson first second) (twoLayers first second) =
      .ok (['c'], [first, second]) := rfl
  have hname : freshHost.built (basename ['c']) = false := rfl
  simp only [buildLocal, hmanifest, hname, hextract, hassemble]
  rfl

/-- Layers under different names. -/
theorem membersKept_blobs : ∃ fs' a,
    buildLocal (twoLayersJson ['s', '/', 'd'] ['s', '/', 'e'])
      (twoLayers ['s', '/', 'd'] ['s', '/', 'e']) freshHost cacheDir cacheFs =
        (fs', .ok (.assembled a)) ∧
    MembersKept (twoLayers ['s', '/', 'd'] ['s', '/', 'e']) ['c']
      [['s', '/', 'd'], ['s', '/', 'e']] fs' a := by
  have hbuild := @twoLayers_build ['s', '/', 'd'] ['s', '/', 'e'] _ _ _ _ rfl rfl rfl rfl rfl
  refine ⟨_, _, hbuild, ?_⟩
  exact (membersKept_iff (cacheFs_cache tinyHash).toShelf rfl hbuild).2 (by decide)

/-- `layer.tar`. -/
def layerTar : List Char := ['l', 'a', 'y', 'e', 'r', '.', 't', 'a', 'r']

def idTar (id : Char) : List Char := id :: '/' :: layerTar

/-- **In the layout `id/layer.tar` the second layer is flattened twice**, and the first one not at
all. -/
theorem layers_confused : ∃ fs' a,
    buildLocal (twoLayersJson (idTar 'a') (idTar 'b')) (twoLayers (idTar 'a') (idTar 'b')) freshHost
      cacheDir cacheFs = (fs', .ok (.assembled a)) ∧
    a.layers.map (fileData fs') = [some [4], some [4]] ∧
    [idTar 'a', idTar 'b'].map (contentOf (twoLayers (idTar 'a') (idTar 'b'))) =
      [some [3], some [4]] := by
  obtain ⟨fs', hextract⟩ : ∃ fs', extractMembers cacheDir [['c'], idTar 'a', idTar 'b'] false
      (twoLayers (idTar 'a') (idTar 'b')).members cacheFs [] =
        (fs', .ok [(idTar 'b', cacheDir.child (.utf8 layerTar)),
          (idTar 'a', cacheDir.child (.utf8 layerTar)),
          (['c'], cacheDir.child (.utf8 ['c']))]) := ⟨_, rfl⟩
  obtain ⟨hshelf, hblob, -⟩ := (cacheFs_cache tinyHash).toShelf.extractMembers_spec hextract
  have hdata : fileData fs' (cacheDir.child (.utf8 layerTar)) = some [4] := by
    have hlast : lastWritten [['c'], idTar 'a', idTar 'b']
        (twoLayers (idTar 'a') (idTar 'b')).members layerTar = some [4] := by decide
    rw [hshelf.fileData_eq, hblob, hlast, some_or]
  refine ⟨fs', _, twoLayers_build hextract (by decide) rfl rfl rfl, ?_, by decide⟩
  rw [map_cons, map_cons, map_nil, hdata]

end Example

end Amber.Image
