import Amber.Image.CacheIntegrity
import Amber.Image.Registry
import Amber.Lib.Failing
import Mathlib.Data.List.Forall2

/-!
# Is a pinned image what its digest says?

A reference `repo@sha256:d` names an image by the hash of its manifest, or of an index that lists
the manifest by its hash; the manifest names the config and the layers by theirs.  The config and
the layers that are downloaded are hashed and compared.  The manifest and the index are not: the
digest in the reference goes into the request, and the answer is taken as it comes.

* `parse_pinned` — a pinned reference asks the registry for its digest.
* `fetchManifest_spec`, `pullLayers_paths`, `Shelf.pullLayers` — what was served, and what the cache
  holds afterwards.
* `authentic_iff` — a pulled image is authentic exactly if the registry chose to answer with
  documents of the right hashes, the layers are named by names of files, and what the cache
  already had under these names was sound.
* `unchecked_manifest` — any manifest will do, and any body for the manifest an index lists.
-/

namespace Amber.Image

open Vfs Failing List Option

/-! ## Pinned references -/

/-- `repo@sha256:d`. -/
def pinned (repo d : List Char) : List Char := repo ++ '@' :: (digestPrefix ++ d)

section Split

variable {c : Char} {a b : List Char}

theorem splitOnce_self (h : c ∉ a) (b : List Char) : splitOnce c (a ++ c :: b) = some (a, b) := by
  induction a with
  | nil => simp [splitOnce]
  | cons x a ih =>
    rw [mem_cons, not_or] at h
    rw [cons_append, splitOnce, if_neg (Ne.symm h.1), ih h.2]
    rfl

theorem splitOnce_none (h : c ∉ a) : splitOnce c a = none := by
  induction a with
  | nil => rfl
  | cons x a ih =>
    rw [mem_cons, not_or] at h
    rw [splitOnce, if_neg (Ne.symm h.1), ih h.2]
    rfl

/-- What cannot be split can only be split off. -/
theorem splitOnce_append (h : c ∉ b) (a : List Char) :
    splitOnce c (a ++ b) = (splitOnce c a).map fun r => (r.1, r.2 ++ b) := by
  induction a with
  | nil =>
    rw [nil_append, splitOnce_none h]
    rfl
  | cons x a ih =>
    rw [cons_append, splitOnce, splitOnce, ih]
    split_ifs
    · rfl
    · cases splitOnce c a <;> rfl

theorem mem_of_splitOnce {r : List Char × List Char} (h : splitOnce c a = some r) :
    ∀ x ∈ r.2, x ∈ a := by
  induction a generalizing r with
  | nil => cases h
  | cons y a ih =>
    rw [splitOnce] at h
    intro x hx
    split_ifs at h
    · cases h
      exact mem_cons_of_mem y hx
    · obtain ⟨r', hr', rfl⟩ := map_eq_some_iff.1 h
      exact mem_cons_of_mem y (ih hr' x hx)

end Split

theorem splitRegistry_pinned {repo d : List Char} (hrepo : '@' ∉ repo) (hd : '/' ∉ d) :
    ∃ repo', '@' ∉ repo' ∧ (splitRegistry (pinned repo d)).2 = pinned repo' d := by
  have hrest : '/' ∉ '@' :: (digestPrefix ++ d) := by
    simp [digestPrefix, hd]
  unfold splitRegistry
  rw [pinned, splitOnce_append hrest]
  cases hsplit : splitOnce '/' repo with
  | none => exact ⟨repo, hrepo, rfl⟩
  | some r =>
    have htail : '@' ∉ r.2 := fun h => hrepo (mem_of_splitOnce hsplit _ h)
    dsimp only [map_some]
    by_cases hhost : isHost r.1 = true
    · rw [if_pos hhost]
      exact ⟨r.2, htail, rfl⟩
    · rw [if_neg hhost]
      exact ⟨repo, hrepo, rfl⟩

/-- A pinned reference asks for its digest, whatever else it says. -/
theorem parse_pinned {repo d : List Char} (hrepo : '@' ∉ repo) (hd : '/' ∉ d) {parsed : Reference}
    (h : Reference.parse (pinned repo d) = .ok parsed) : parsed.reference = digestPrefix ++ d := by
  obtain ⟨repo', hrepo', hrest⟩ := splitRegistry_pinned hrepo hd
  have href : splitReference (splitRegistry (pinned repo d)).2 = (repo', digestPrefix ++ d) := by
    rw [hrest, splitReference, pinned, splitOnce_self hrepo']
  unfold Reference.parse at h
  dsimp only at h
  rw [href] at h
  split_ifs at h
  · cases h
    rfl
  · cases h
    rfl

/-! ## What was served -/

section Served

variable (H : List UInt8 → List Char) (json : List UInt8 → Option Json) (r : Registry) (c : Client)

/-- The bodies that were served on the way to a manifest: what the reference leads to and, if that
is an index, what the digest in it leads to. -/
def served : List (List UInt8) :=
  match r.get 0 (c.manifestUrl c.reference) with
  | none => []
  | some body =>
    match json body with
    | none => [body]
    | some v =>
      match pickArm64 v with
      | .ok digest => body :: (r.get 1 (c.manifestUrl digest)).toList
      | .error _ => [body]

/-- A manifest, and what it says. -/
def IsManifest (body : List UInt8) (m : Manifest) : Prop :=
  ∃ v, json body = some v ∧ v.isIndex = false ∧ parseManifest v = .ok m

/-- An index that lists the manifest of this digest for arm64. -/
def Lists (body : List UInt8) (digest : List Char) : Prop :=
  ∃ v, json body = some v ∧ pickArm64 v = .ok digest

/-- Among the bodies is the manifest, and its hash is `d` or listed in an index whose hash is. -/
def Vouched (bodies : List (List UInt8)) (d : List Char) (m : Manifest) : Prop :=
  ∃ body ∈ bodies, IsManifest json body m ∧
    (H body = d ∨ ∃ index ∈ bodies, ∃ digest, H index = d ∧ Lists json index digest ∧
      H body = hexOf digest)

/-- The registry has answered with a manifest of hash `d`; or with any index and then with a
manifest of hash `d`; or with an index of hash `d` and then with the manifest it lists. -/
def Chained (d : List Char) : Prop :=
  ∃ body v, r.get 0 (c.manifestUrl c.reference) = some body ∧ json body = some v ∧
    ((v.isIndex = false ∧ H body = d) ∨
      (v.isIndex = true ∧ ∃ digest body' v', pickArm64 v = .ok digest ∧
        r.get 1 (c.manifestUrl digest) = some body' ∧ json body' = some v' ∧
        v'.isIndex = false ∧ (H body' = d ∨ (H body = d ∧ H body' = hexOf digest))))

variable {H json r c} {m : Manifest}

variable {v : Json} {body : List UInt8}

theorem getJson_eq_ok {n : ℕ} {url : List Char} (h : getJson json r n url = .ok v) :
    ∃ body, r.get n url = some body ∧ json body = some v := by
  unfold getJson at h
  split at h
  · cases h
  · rename_i body hbody
    split at h
    · cases h
    · rename_i v' hv
      cases h
      exact ⟨body, hbody, hv⟩

/-- What a manifest that was fetched has come from. -/
theorem fetchManifest_spec (h : fetchManifest json r c = .ok m) :
    ∃ body v, r.get 0 (c.manifestUrl c.reference) = some body ∧ json body = some v ∧
      ((v.isIndex = false ∧ parseManifest v = .ok m) ∨
        (v.isIndex = true ∧ ∃ digest body' v', pickArm64 v = .ok digest ∧
          r.get 1 (c.manifestUrl digest) = some body' ∧ json body' = some v' ∧
          parseManifest v' = .ok m)) := by
  obtain ⟨v, hv, h⟩ := bind_eq_ok h
  obtain ⟨body, hbody, hjson⟩ := getJson_eq_ok hv
  refine ⟨body, v, hbody, hjson, ?_⟩
  cases hidx : v.isIndex with
  | false =>
    rw [hidx] at h
    exact .inl ⟨rfl, h⟩
  | true =>
    rw [hidx] at h
    obtain ⟨digest, hpick, h⟩ := bind_eq_ok h
    obtain ⟨v', hv', h⟩ := bind_eq_ok h
    obtain ⟨body', hbody', hjson'⟩ := getJson_eq_ok hv'
    exact .inr ⟨rfl, digest, body', v', hpick, hbody', hjson', h⟩

/-- What has nothing under `manifests` lists nothing. -/
theorem isIndex_of_pick {digest : List Char} (h : pickArm64 v = .ok digest) :
    v.isIndex = true := by
  unfold pickArm64 Json.index at h
  unfold Json.isIndex
  cases hget : v.get? "manifests".toList with
  | none =>
    rw [hget] at h
    cases h
  | some w => rfl

theorem pick_eq_error (h : v.isIndex = false) : ∃ e, pickArm64 v = .error e := by
  cases hpick : pickArm64 v with
  | error e => exact ⟨e, rfl⟩
  | ok digest =>
    rw [isIndex_of_pick hpick] at h
    cases h

theorem not_lists (hv : json body = some v)
    (h : v.isIndex = false) (digest : List Char) : ¬ Lists json body digest := by
  rintro ⟨w, hw, hpick⟩
  obtain rfl := some.inj (hv.symm.trans hw)
  rw [isIndex_of_pick hpick] at h
  cases h

theorem lists_iff {digest digest' : List Char}
    (hv : json body = some v) (hpick : pickArm64 v = .ok digest) :
    Lists json body digest' ↔ digest' = digest := by
  constructor
  · rintro ⟨w, hw, hpick'⟩
    obtain rfl := some.inj (hv.symm.trans hw)
    exact Except.ok.inj (hpick'.symm.trans hpick)
  · rintro rfl
    exact ⟨v, hv, hpick⟩

theorem isManifest_iff (hv : json body = some v) :
    IsManifest json body m ↔ v.isIndex = false ∧ parseManifest v = .ok m := by
  constructor
  · rintro ⟨w, hw, hrest⟩
    obtain rfl := some.inj (hv.symm.trans hw)
    exact hrest
  · exact fun h => ⟨v, hv, h⟩

/-- The manifest that was used is vouched for exactly if the answers are chained. -/
theorem vouched_iff (h : fetchManifest json r c = .ok m) (d : List Char) :
    Vouched H json (served json r c) d m ↔ Chained H json r c d := by
  obtain ⟨body, v, hbody, hv, hcase⟩ := fetchManifest_spec h
  have hchained : Chained H json r c d ↔ ((v.isIndex = false ∧ H body = d) ∨
      (v.isIndex = true ∧ ∃ digest body' v', pickArm64 v = .ok digest ∧
        r.get 1 (c.manifestUrl digest) = some body' ∧ json body' = some v' ∧
        v'.isIndex = false ∧ (H body' = d ∨ (H body = d ∧ H body' = hexOf digest)))) := by
    constructor
    · rintro ⟨body₂, v₂, hbody₂, hv₂, hrest⟩
      obtain rfl := some.inj (hbody.symm.trans hbody₂)
      obtain rfl := some.inj (hv.symm.trans hv₂)
      exact hrest
    · exact fun hrest => ⟨body, v, hbody, hv, hrest⟩
  rw [hchained]
  rcases hcase with ⟨hidx, hparse⟩ | ⟨hidx, digest, body', v', hpick, hbody', hv', hparse⟩
  · -- one document, which is no index
    obtain ⟨e, he⟩ := pick_eq_error hidx
    have hserved : served json r c = [body] := by simp only [served, hbody, hv, he]
    rw [hserved]
    constructor
    · rintro ⟨b, hb, -, hd⟩
      obtain rfl := mem_singleton.1 hb
      rcases hd with hd | ⟨index, hindex, digest, -, hlists, -⟩
      · exact .inl ⟨hidx, hd⟩
      · rw [mem_singleton.1 hindex] at hlists
        exact absurd hlists (not_lists hv hidx digest)
    · rintro (⟨-, hd⟩ | ⟨htrue, -⟩)
      · exact ⟨body, mem_singleton_self _, (isManifest_iff hv).2 ⟨hidx, hparse⟩, .inl hd⟩
      · rw [hidx] at htrue
        cases htrue
  · -- an index, and the document its digest led to
    have hserved : served json r c = [body, body'] := by
      simp [served, hbody, hv, hpick, hbody']
    rw [hserved]
    constructor
    · rintro ⟨b, hb, hman, hd⟩
      have hb' : b = body' := by
        rcases mem_pair.1 hb with rfl | rfl
        · rw [isManifest_iff hv, hidx] at hman
          cases hman.1
        · rfl
      subst hb'
      have hno := ((isManifest_iff hv').1 hman).1
      refine .inr ⟨hidx, digest, b, v', hpick, hbody', hv', hno, hd.imp_right ?_⟩
      rintro ⟨index, hindex, digest', hroot, hlists, hhash⟩
      rcases mem_pair.1 hindex with rfl | rfl
      · rw [(lists_iff hv hpick).1 hlists] at hhash
        exact ⟨hroot, hhash⟩
      · exact absurd hlists (not_lists hv' hno digest')
    · rintro (⟨hfalse, -⟩ | ⟨-, digest₂, body₂, v₂, hpick₂, hbody₂, hv₂, hno, hd⟩)
      · rw [hidx] at hfalse
        cases hfalse
      · obtain rfl := Except.ok.inj (hpick.symm.trans hpick₂)
        obtain rfl := some.inj (hbody'.symm.trans hbody₂)
        obtain rfl := some.inj (hv'.symm.trans hv₂)
        refine ⟨body', by simp, (isManifest_iff hv').2 ⟨hno, hparse⟩, hd.imp_right ?_⟩
        rintro ⟨hindex, hhash⟩
        exact ⟨body, by simp, digest, hindex, (lists_iff hv hpick).2 rfl, hhash⟩

end Served

/-! ## The layers -/

/-- What is read from the file that a path leads to. -/
def fileData (fs : HostFs) (path : HostPath) : Option (List UInt8) :=
  match fs.resolve true path with
  | .found q =>
    match fs.get q with
    | some (.file ino) => some (fs.inodes ino).data
    | _ => none
  | _ => none

section Layers

variable {H : List UInt8 → List Char} {dir : HostPath} {B : List OsStr} {fs fs' : HostFs}

theorem Shelf.fileData_eq (h : Shelf dir B fs) (s : List Char) :
    fileData fs (dir.child (.utf8 s)) = blob B fs s := by
  cases hget : fs.get (B ++ [.utf8 s]) with
  | none => simp only [fileData, h.resolve_missing true hget, blob, hget]
  | some o =>
    cases o with
    | dir _ | file _ | symlink _ => simp only [fileData, h.resolve_found true hget, blob, hget]

/-- Whatever the digest is, the path that is returned is made of it. -/
theorem fetchBlob_path {digest : List Char} {d : Download} {path : HostPath}
    (h : fetchBlob H fs dir digest d = (fs', .ok path)) : path = joinText dir (hexOf digest) := by
  unfold fetchBlob at h
  dsimp only at h
  split_ifs at h with hhit hdown hrefused
  · cases h
    rfl
  · cases h
  · cases h
  · unfold downloadBlob at h
    split at h
    · cases h
    · split at h
      · cases h
      · unfold commitBlob at h
        dsimp only at h
        split_ifs at h
        · cases h
        · cases h
        · split at h
          · cases h
          · cases h
            rfl

variable {layers : List (List Char × Download)} {paths : List HostPath}

/-- A loop that has come to its end has fetched every layer. -/
theorem pullLayers_cons {digest : List Char} {d : Download}
    (h : pullLayers H dir ((digest, d) :: layers) fs = (fs', .ok paths)) :
    ∃ fs₁ path rest, fetchBlob H fs dir digest d = (fs₁, .ok path) ∧
      pullLayers H dir layers fs₁ = (fs', .ok rest) ∧ paths = path :: rest := by
  rw [pullLayers] at h
  split at h
  · cases h
  · rename_i fs₁ path hfetch
    split at h
    · cases h
    · rename_i fs₂ rest hrest
      cases h
      exact ⟨fs₁, path, rest, hfetch, hrest, rfl⟩

theorem pullLayers_paths (h : pullLayers H dir layers fs = (fs', .ok paths)) :
    paths = layers.map fun l => joinText dir (hexOf l.1) := by
  induction layers generalizing fs paths with
  | nil =>
    cases h
    rfl
  | cons l layers ih =>
    obtain ⟨fs₁, path, rest, hfetch, hrest, rfl⟩ := pullLayers_cons h
    rw [map_cons, ih hrest, fetchBlob_path hfetch]

/-- **What the cache holds after a pull**: what it held, and under each name that is new the data of
that hash. -/
theorem Shelf.pullLayers (h : Shelf dir B fs)
    (hgood : ∀ l ∈ layers, GoodName (hexOf l.1))
    (hpull : Image.pullLayers H dir layers fs = (fs', .ok paths)) :
    Shelf dir B fs' ∧
      (∀ s data, ¬ tmpSuffix <:+ s → blob B fs s = some data → blob B fs' s = some data) ∧
      (∀ s data, ¬ tmpSuffix <:+ s → blob B fs s = none → blob B fs' s = some data → H data = s) ∧
      ∀ l ∈ layers, ∃ data, blob B fs' (hexOf l.1) = some data := by
  induction layers generalizing fs paths with
  | nil =>
    cases hpull
    refine ⟨h, fun _ _ _ hd => hd, fun s data _ hnone hd => ?_, nofun⟩
    rw [hnone] at hd
    cases hd
  | cons l layers ih =>
    obtain ⟨fs₁, path, rest, hfetch, hrest, rfl⟩ := pullLayers_cons hpull
    rw [forall_mem_cons] at hgood
    have hone : Fetched H dir B (hexOf l.1) fs (fs₁, .ok path) := by
      rw [← hfetch]
      exact h.fetchBlob hgood.1 l.2
    obtain ⟨hshelf, hstays, hnew, hall⟩ := ih hone.shelf hgood.2 hrest
    have hkeep : ∀ s data, ¬ tmpSuffix <:+ s → blob B fs s = some data →
        blob B fs₁ s = some data := by
      intro s data hs hd
      by_cases hne : s = hexOf l.1
      · subst hne
        exact hone.stays data hd
      · exact (hone.other s hs hne).trans hd
    refine ⟨hshelf, fun s data hs hd => hstays s data hs (hkeep s data hs hd),
      fun s data hs hnone hd => ?_, forall_mem_cons.2 ⟨?_, hall⟩⟩
    · -- new in this fetch, or in a later one
      cases hmid : blob B fs₁ s with
      | none => exact hnew s data hs hmid hd
      | some data' =>
        obtain rfl := some.inj ((hstays s data' hs hmid).symm.trans hd)
        by_cases hne : s = hexOf l.1
        · subst hne
          exact hone.hashed data' hnone hmid
        · rw [hone.other s hs hne, hnone] at hmid
          cases hmid
    · obtain ⟨data, hd⟩ := (hone.ok path rfl).2
      exact ⟨data, hstays _ data hgood.1.2 hd⟩

/-- The layers are named by names of files, and the cache is right about those it has. -/
def LayersSound (H : List UInt8 → List Char) (B : List OsStr) (fs : HostFs)
    (layers : List (List Char)) : Prop :=
  ∀ digest ∈ layers, GoodName (hexOf digest) ∧
    ∀ data, blob B fs (hexOf digest) = some data → H data = hexOf digest

/-- The files of a pull whose layers have good names. -/
theorem Shelf.pulled_data (h : Shelf dir B fs)
    (hgood : ∀ l ∈ layers, GoodName (hexOf l.1))
    (hpull : Image.pullLayers H dir layers fs = (fs', .ok paths)) :
    ∀ l ∈ layers, ∃ data, fileData fs' (joinText dir (hexOf l.1)) = some data ∧
      (∀ data', blob B fs (hexOf l.1) = some data' → data' = data) ∧
      (blob B fs (hexOf l.1) = none → H data = hexOf l.1) := by
  intro l hl
  obtain ⟨hshelf', hstays, hnew, hall⟩ := h.pullLayers hgood hpull
  obtain ⟨hplain, hs⟩ := hgood l hl
  obtain ⟨data, hdata⟩ := hall l hl
  refine ⟨data, ?_, fun data' hold => ?_, fun hnone => hnew _ data hs hnone hdata⟩
  · rw [joinText_plain hplain, hshelf'.fileData_eq]
    exact hdata
  · exact some.inj ((hstays _ data' hs hold).symm.trans hdata)

/-- The layers of a pull have the hashes in their digests exactly if they have good names and the
cache was sound about them. -/
theorem Shelf.layers_iff (h : Shelf dir B fs) (hH : ∀ data, GoodName (H data))
        (hpull : Image.pullLayers H dir layers fs = (fs', .ok paths)) :
    (∀ l ∈ layers, ∃ data, fileData fs' (joinText dir (hexOf l.1)) = some data ∧
      H data = hexOf l.1) ↔ LayersSound H B fs (layers.map Prod.fst) := by
  rw [LayersSound, List.forall_mem_map]
  constructor
  · intro hright l hl
    have hgood : ∀ l ∈ layers, GoodName (hexOf l.1) := by
      intro l hl
      obtain ⟨data, -, hhash⟩ := hright l hl
      rw [← hhash]
      exact hH data
    refine ⟨hgood l hl, fun data' hold => ?_⟩
    obtain ⟨data, hdata, hsame, -⟩ := h.pulled_data hgood hpull l hl
    obtain ⟨data₂, hdata₂, hhash⟩ := hright l hl
    obtain rfl := some.inj (hdata.symm.trans hdata₂)
    rw [hsame data' hold]
    exact hhash
  · intro hsound l hl
    obtain ⟨data, hdata, hsame, hnew⟩ :=
      h.pulled_data (fun l hl => (hsound l hl).1) hpull l hl
    refine ⟨data, hdata, ?_⟩
    cases hold : blob B fs (hexOf l.1) with
    | none => exact hnew hold
    | some data' =>
      rw [← hsame data' hold]
      exact (hsound l hl).2 data' hold

end Layers

/-! ## The image -/

section Pinned

variable {H : List UInt8 → List Char} {json : List UInt8 → Option Json} {r : Registry}
  {host : Host} {dir : HostPath} {B : List OsStr} {fs fs' : HostFs} {parsed : Reference}
  {reference repo d : List Char} {p : Pulled}

theorem fetchConfig_eq_ok {c : Client} {digest : List Char} {body : List UInt8}
    {config : ImageConfig} (h : fetchConfig H json r c digest = .ok (body, config)) :
    H body = hexOf digest := by
  unfold fetchConfig at h
  split at h
  · cases h
  · split_ifs at h with hhash
    split at h
    · cases h
    · cases h
      exact not_not.1 hhash

theorem buildManifest_eq_pulled {c : Client} {m : Manifest}
    (h : buildManifest H json r c host dir fs m = (fs', .ok (.pulled p))) :
    p.manifest = m ∧ H p.configBody = hexOf p.manifest.configDigest ∧
      pullLayers H dir (requests r c p.manifest) fs = (fs', .ok p.layers) := by
  unfold buildManifest at h
  by_cases hbuilt : host.built (hexOf m.configDigest) = true
  · rw [if_pos hbuilt] at h
    cases h
  · rw [if_neg hbuilt] at h
    split at h
    · cases h
    · rename_i body config hconfig
      split at h
      · cases h
      · rename_i fs₁ layers hpull
        by_cases hfinished : host.finished = true
        · rw [if_pos hfinished] at h
          cases h
          exact ⟨rfl, fetchConfig_eq_ok hconfig, hpull⟩
        · rw [if_neg hfinished] at h
          cases h

/-- What a build that has pulled its image has done. -/
theorem pulled_spec (hparse : Reference.parse reference = .ok parsed)
    (h : buildRefresh H json r host dir fs reference = (fs', .ok (.pulled p))) :
    fetchManifest json r (.new parsed) = .ok p.manifest ∧
      H p.configBody = hexOf p.manifest.configDigest ∧
      pullLayers H dir (requests r (.new parsed) p.manifest) fs = (fs', .ok p.layers) := by
  unfold buildRefresh at h
  rw [hparse] at h
  dsimp only at h
  split_ifs at h
  · cases h
  · cases h
  · split at h
    · cases h
    · rename_i m hm
      obtain ⟨rfl, hconfig, hpull⟩ := buildManifest_eq_pulled h
      exact ⟨hm, hconfig, hpull⟩

theorem requests_fst (r : Registry) (c : Client) (m : Manifest) :
    (requests r c m).map Prod.fst = m.layers := by
  refine ext_getElem? fun i => ?_
  rw [requests, getElem?_map, getElem?_mapIdx]
  cases m.layers[i]? <;> rfl

/-- The image that was pulled is the one of hash `d`: its manifest is vouched for, and the config
and every layer have the hashes that the manifest gives. -/
def Authentic (H : List UInt8 → List Char) (json : List UInt8 → Option Json) (r : Registry)
    (c : Client) (d : List Char) (fs' : HostFs) (p : Pulled) : Prop :=
  Vouched H json (served json r c) d p.manifest ∧
    H p.configBody = hexOf p.manifest.configDigest ∧
    List.Forall₂ (fun digest path => ∃ data, fileData fs' path = some data ∧ H data = hexOf digest)
      p.manifest.layers p.layers

/-- **When a pinned image is authentic.**  The reference asks the registry for the digest `d`.  What
has been pulled is the image of this digest exactly if the registry's answers are chained to `d`,
the layers of the manifest are named by names of files, and the cache was right about those of them
it had. -/
theorem authentic_iff (hH : ∀ data, GoodName (H data)) (hshelf : Shelf dir B fs)
    (hrepo : '@' ∉ repo) (hd : '/' ∉ d) (hparse : Reference.parse (pinned repo d) = .ok parsed)
    (hbuild : buildRefresh H json r host dir fs (pinned repo d) = (fs', .ok (.pulled p))) :
    (Client.new parsed).reference = digestPrefix ++ d ∧
      (Authentic H json r (.new parsed) d fs' p ↔
        Chained H json r (.new parsed) d ∧
          ∀ m, fetchManifest json r (.new parsed) = .ok m → LayersSound H B fs m.layers) := by
  refine ⟨parse_pinned hrepo hd hparse, ?_⟩
  obtain ⟨hman, hconfig, hpull⟩ := pulled_spec hparse hbuild
  have hlayers := hshelf.layers_iff hH hpull
  rw [requests_fst] at hlayers
  have hfiles : List.Forall₂ (fun digest path => ∃ data, fileData fs' path = some data ∧
      H data = hexOf digest) p.manifest.layers p.layers ↔
      LayersSound H B fs p.manifest.layers := by
    rw [← hlayers, pullLayers_paths hpull]
    nth_rewrite 1 [← requests_fst r (.new parsed) p.manifest]
    rw [forall₂_map_left_iff, forall₂_map_right_iff, forall₂_same]
  have hall : (∀ m, fetchManifest json r (.new parsed) = .ok m → LayersSound H B fs m.layers) ↔
      LayersSound H B fs p.manifest.layers := by
    constructor
    · exact fun h => h _ hman
    · intro h m hm
      obtain rfl := Except.ok.inj (hman.symm.trans hm)
      exact h
  rw [Authentic, hfiles, vouched_iff hman, hall]
  exact and_congr_right fun _ => and_iff_right hconfig

end Pinned

section Example

/-- A manifest. -/
def manifestDoc (config : List Char) (layers : List (List Char)) : Json :=
  .obj [("config".toList, .obj [("digest".toList, .str config)]),
    ("layers".toList, .arr (layers.map fun l => .obj [("digest".toList, .str l)]))]

/-- An index with one entry. -/
def indexDoc (digest : List Char) : Json :=
  .obj [("manifests".toList, .arr [.obj [("platform".toList, .obj
    [("architecture".toList, .str "arm64".toList), ("os".toList, .str "linux".toList)]),
      ("digest".toList, .str digest)]])]

/-- Nothing is built yet, and everything can be. -/
def freshHost : Host := ⟨false, true, fun _ => false, true⟩

/-- The answers to the three requests for documents; a layer is one byte. -/
def answers (first second config : List UInt8) : Registry where
  get n _ := match n with
    | 0 => some first
    | 1 => some second
    | _ => some config
  blob _ _ := ⟨true, false, [.chunk [3] none], false, false⟩

def tinyHash (data : List UInt8) : List Char :=
  if data = [1] then ['a'] else if data = [2] then ['b'] else ['d']

def tinyJson (body : List UInt8) : Option Json :=
  if body = [1] then some (manifestDoc (digestPrefix ++ ['b']) [digestPrefix ++ ['d']])
  else some (.obj [])

/-- A manifest with one layer, served by a registry that has it. -/
theorem authentic_tiny : ∃ parsed fs' p, Reference.parse (pinned ['r'] ['a']) = .ok parsed ∧
    buildRefresh tinyHash tinyJson (answers [1] [] [2]) freshHost cacheDir cacheFs
      (pinned ['r'] ['a']) = (fs', .ok (.pulled p)) ∧
    Authentic tinyHash tinyJson (answers [1] [] [2]) (.new parsed) ['a'] fs' p := by
  obtain ⟨parsed, hparse⟩ : ∃ parsed, Reference.parse (pinned ['r'] ['a']) = .ok parsed := ⟨_, rfl⟩
  obtain ⟨fs', p, hbuild⟩ : ∃ fs' p, buildRefresh tinyHash tinyJson (answers [1] [] [2]) freshHost
      cacheDir cacheFs (pinned ['r'] ['a']) = (fs', .ok (.pulled p)) := ⟨_, _, rfl⟩
  have hH : ∀ data, GoodName (tinyHash data) := by
    intro data
    unfold tinyHash
    split_ifs <;> decide
  have hiff := authentic_iff hH (cacheFs_cache tinyHash).toShelf (by decide) (by decide) hparse
    hbuild
  refine ⟨parsed, fs', p, hparse, hbuild, hiff.2.2 ⟨?_, fun m hm digest hdigest => ?_⟩⟩
  · exact ⟨[1], _, rfl, rfl, .inl ⟨rfl, rfl⟩⟩
  · cases hm
    obtain rfl := mem_singleton.1 hdigest
    exact ⟨by decide, nofun⟩

theorem hexOf_prefixed (s : List Char) : hexOf (digestPrefix ++ s) = s := by
  rw [hexOf, if_pos (prefix_append _ _), drop_left]

theorem parse_nonempty {s : List Char} (h : s ≠ []) : ∃ parsed, Reference.parse s = .ok parsed := by
  unfold Reference.parse
  dsimp only
  rw [if_neg h]
  split_ifs
  · exact ⟨_, rfl⟩
  · exact ⟨_, rfl⟩

/-- An image without layers is pulled once its manifest is served and its config has its hash. -/
theorem pulls_of_bare {H : List UInt8 → List Char} {json : List UInt8 → Option Json}
    {r : Registry} {fs : HostFs} {reference : List Char} {parsed : Reference} {config : List UInt8}
    {v : Json} (hparse : Reference.parse reference = .ok parsed)
    (hman : fetchManifest json r (.new parsed) = .ok ⟨digestPrefix ++ H config, []⟩)
    (hget : ∀ url, r.get 2 url = some config) (hjson : json config = some v) :
    buildRefresh H json r freshHost cacheDir fs reference =
      (fs, .ok (.pulled ⟨⟨digestPrefix ++ H config, []⟩, config, parseConfig v, []⟩)) := by
  have hconfig : fetchConfig H json r (.new parsed) (digestPrefix ++ H config) =
      .ok (config, parseConfig v) := by
    simp [fetchConfig, hget, hexOf_prefixed, hjson]
  simp [buildRefresh, freshHost, hparse, hman, buildManifest, hconfig, requests, pullLayers]

/-- Whatever the hash is, the manifest that is served need not have the digest in the reference; and
below an index that has it, the manifest need not have the digest in the index. -/
theorem unchecked_manifest :
    (∀ H : List UInt8 → List Char, ∃ json r d parsed fs' p,
      Reference.parse (pinned ['r'] d) = .ok parsed ∧
      buildRefresh H json r freshHost cacheDir cacheFs (pinned ['r'] d) = (fs', .ok (.pulled p)) ∧
      ¬ Authentic H json r (.new parsed) d fs' p) ∧
    ∀ H : List UInt8 → List Char, H [] ≠ H [1] → ∃ json r parsed fs' p,
      Reference.parse (pinned ['r'] (H [1])) = .ok parsed ∧
      buildRefresh H json r freshHost cacheDir cacheFs (pinned ['r'] (H [1])) =
        (fs', .ok (.pulled p)) ∧
      ¬ Authentic H json r (.new parsed) (H [1]) fs' p := by
  constructor
  · intro H
    obtain ⟨d, -, hwrong⟩ := exists_wrong_name H []
    rw [append_nil] at hwrong
    let json : List UInt8 → Option Json := fun body =>
      if body = [] then some (manifestDoc (digestPrefix ++ H [2]) []) else some (.obj [])
    obtain ⟨parsed, hparse⟩ := parse_nonempty (s := pinned ['r'] d) (by simp [pinned])
    have hman : fetchManifest json (answers [] [] [2]) (.new parsed) =
        .ok ⟨digestPrefix ++ H [2], []⟩ := rfl
    refine ⟨json, answers [] [] [2], d, parsed, _, _, hparse,
      pulls_of_bare hparse hman (fun _ => rfl) rfl, fun hauth => ?_⟩
    obtain ⟨body, v, hbody, hv, hcase⟩ := (vouched_iff hman d).1 hauth.1
    cases hbody
    cases hv
    rcases hcase with ⟨-, hhash⟩ | ⟨hidx, -⟩
    · exact hwrong hhash
    · cases hidx
  · intro H hne
    obtain ⟨s, -, hwrong⟩ := exists_wrong_name H []
    rw [append_nil] at hwrong
    let json : List UInt8 → Option Json := fun body =>
      if body = [1] then some (indexDoc (digestPrefix ++ s))
      else if body = [] then some (manifestDoc (digestPrefix ++ H [2]) []) else some (.obj [])
    obtain ⟨parsed, hparse⟩ := parse_nonempty (s := pinned ['r'] (H [1])) (by simp [pinned])
    have hman : fetchManifest json (answers [1] [] [2]) (.new parsed) =
        .ok ⟨digestPrefix ++ H [2], []⟩ := rfl
    refine ⟨json, answers [1] [] [2], parsed, _, _, hparse,
      pulls_of_bare hparse hman (fun _ => rfl) rfl, fun hauth => ?_⟩
    obtain ⟨body, v, hbody, hv, hcase⟩ := (vouched_iff hman (H [1])).1 hauth.1
    cases hbody
    cases hv
    rcases hcase with ⟨hidx, -⟩ | ⟨-, digest, body', v', hpick, hbody', -, -, hhash⟩
    · cases hidx
    · cases hbody'
      obtain rfl : digestPrefix ++ s = digest := Except.ok.inj hpick
      exact hhash.elim hne fun h => hwrong h.2

end Example

end Amber.Image
