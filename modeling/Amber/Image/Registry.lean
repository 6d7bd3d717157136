import Amber.Image.BlobCache

/-!
# Pulling an image from a registry

`Reference::parse` and the client of `amber-image/src/registry.rs`, and `build` of
`amber-image/src/lib.rs` as far as the registry is concerned: the manifest, through an index if
there is one, the config and the layers.

The registry answers every request as it likes, and differently each time.  What the rest of
`build` does (the flattening, the packing, the renames) counts only by whether it succeeds.
Decoding JSON and the hash are arbitrary functions.
-/

namespace Amber.Image

open Vfs

/-! ## References -/

/-- `s.split_once(c)`. -/
def splitOnce (c : Char) : List Char → Option (List Char × List Char)
  | [] => none
  | x :: s => if x = c then some ([], s) else (splitOnce c s).map fun r => (x :: r.1, r.2)

/-- `s.rsplit_once(c)`. -/
def rsplitOnce (c : Char) (s : List Char) : Option (List Char × List Char) :=
  (splitOnce c s.reverse).map fun r => (r.2.reverse, r.1.reverse)

def defaultRegistry : List Char := "registry-1.docker.io".toList

/-- A registry host, a repository, and a tag or a digest. -/
structure Reference where
  registry : List Char
  repository : List Char
  reference : List Char
  deriving DecidableEq

inductive ImageError
  | reference (msg : String)
  | json
  | fetch (e : FetchError)
  | pack

/-- Does the first component look like a host? -/
def isHost (head : List Char) : Bool :=
  decide ('.' ∈ head) || decide (':' ∈ head) || decide (head = "localhost".toList)

/-- The registry, and what is left. -/
def splitRegistry (s : List Char) : List Char × List Char :=
  let (registry, rest) :=
    match splitOnce '/' s with
    | some (head, tail) => if isHost head then (head, tail) else (defaultRegistry, s)
    | none => (defaultRegistry, s)
  (if registry = "docker.io".toList then defaultRegistry else registry, rest)

/-- The repository, and the tag or digest at the end. -/
def splitReference (rest : List Char) : List Char × List Char :=
  match splitOnce '@' rest with
  | some (repo, digest) => (repo, digest)
  | none =>
    match rsplitOnce ':' rest with
    -- a port, not a tag
    | some (repo, tag) => if '/' ∈ tag then (rest, "latest".toList) else (repo, tag)
    | none => (rest, "latest".toList)

def Reference.parse (s : List Char) : Except ImageError Reference :=
  if s = [] then .error (.reference "empty")
  else
    let (registry, rest) := splitRegistry s
    let (repository, reference) := splitReference rest
    -- official images live under "library/"
    if registry = defaultRegistry ∧ '/' ∉ repository then
      .ok ⟨registry, "library/".toList ++ repository, reference⟩
    else .ok ⟨registry, repository, reference⟩

/-! ## Documents -/

inductive Json
  | null
  | bool (b : Bool)
  | num (n : Int)
  | str (s : List Char)
  | arr (items : List Json)
  | obj (fields : List (List Char × Json))

namespace Json

/-- `v.get(key)`. -/
def get? : Json → List Char → Option Json
  | .obj fields, key => fields.lookup key
  | _, _ => none

/-- `v[key]`, null if there is nothing. -/
def index (v : Json) (key : String) : Json := (v.get? key.toList).getD .null

def asStr : Json → Option (List Char)
  | .str s => some s
  | _ => none

def asArray : Json → Option (List Json)
  | .arr items => some items
  | _ => none

/-- A multi-arch index is what has a field `manifests`. -/
def isIndex (v : Json) : Bool := (v.get? "manifests".toList).isSome

end Json

structure Manifest where
  configDigest : List Char
  layers : List (List Char)
  deriving DecidableEq

def parseManifest (v : Json) : Except ImageError Manifest :=
  match ((v.index "config").index "digest").asStr with
  | none => .error (.fetch (.registry "manifest has no config digest"))
  | some configDigest =>
    match (v.index "layers").asArray with
    | none => .error (.fetch (.registry "manifest has no layers"))
    | some layers => .ok ⟨configDigest, layers.filterMap fun l => (l.index "digest").asStr⟩

/-- The entry is for arm64 and linux. -/
def isArm64 (m : Json) : Bool :=
  let platform := m.index "platform"
  decide ((platform.index "architecture").asStr = some "arm64".toList) &&
    decide ((platform.index "os").asStr = some "linux".toList)

def pickArm64 (v : Json) : Except ImageError (List Char) :=
  match (v.index "manifests").asArray with
  | none => .error (.fetch (.registry "index has no manifests"))
  | some manifests =>
    match manifests.findSome? fun m => if isArm64 m then (m.index "digest").asStr else none with
    | some digest => .ok digest
    | none => .error (.fetch (.registry "no arm64/linux image in index"))

structure ImageConfig where
  entrypoint : List (List Char)
  cmd : List (List Char)
  env : List (List Char)
  workingDir : Option (List Char)
  deriving DecidableEq

/-- `str_list`. -/
def strList (v : Json) : List (List Char) :=
  match v.asArray with
  | some items => items.filterMap Json.asStr
  | none => []

def parseConfig (v : Json) : ImageConfig :=
  let c := v.index "config"
  { entrypoint := strList (c.index "Entrypoint")
    cmd := strList (c.index "Cmd")
    env := strList (c.index "Env")
    workingDir := (c.index "WorkingDir").asStr.filter fun s => decide (s ≠ []) }

/-! ## The client -/

structure Client where
  base : List Char
  reference : List Char

def Client.new (r : Reference) : Client :=
  ⟨"https://".toList ++ r.registry ++ "/v2/".toList ++ r.repository, r.reference⟩

def Client.manifestUrl (c : Client) (reference : List Char) : List Char :=
  c.base ++ "/manifests/".toList ++ reference

def Client.blobUrl (c : Client) (digest : List Char) : List Char :=
  c.base ++ "/blobs/".toList ++ digest

/-- The answers of a registry to the requests of a build: to the `n`-th for a document, and to the
one for the `i`-th layer.  A request that fails, with or without a token, has none. -/
structure Registry where
  get : ℕ → List Char → Option (List UInt8)
  blob : ℕ → List Char → Download

section Pull

variable (H : List UInt8 → List Char) (json : List UInt8 → Option Json) (r : Registry) (c : Client)

/-- A document that is asked for. -/
def getJson (n : ℕ) (url : List Char) : Except ImageError Json :=
  match r.get n url with
  | none => .error (.fetch .http)
  | some body =>
    match json body with
    | none => .error .json
    | some v => .ok v

/-- `fetch_manifest`. -/
def fetchManifest : Except ImageError Manifest := do
  let v ← getJson json r 0 (c.manifestUrl c.reference)
  if v.isIndex then
    let digest ← pickArm64 v
    let v ← getJson json r 1 (c.manifestUrl digest)
    parseManifest v
  else parseManifest v

/-- `fetch_config`: the body and what it says. -/
def fetchConfig (digest : List Char) : Except ImageError (List UInt8 × ImageConfig) :=
  match r.get 2 (c.blobUrl digest) with
  | none => .error (.fetch .http)
  | some body =>
    if H body ≠ hexOf digest then .error (.fetch (.digest (hexOf digest) (H body)))
    else
      match json body with
      | none => .error .json
      | some v => .ok (body, parseConfig v)

/-- The loop of `build` over the layers of the manifest. -/
def pullLayers (dir : HostPath) : List (List Char × Download) → HostFs →
    HostFs × Except FetchError (List HostPath)
  | [], fs => (fs, .ok [])
  | (digest, d) :: layers, fs =>
    match fetchBlob H fs dir digest d with
    | (fs, .error e) => (fs, .error e)
    | (fs, .ok path) =>
      match pullLayers dir layers fs with
      | (fs, .error e) => (fs, .error e)
      | (fs, .ok paths) => (fs, .ok (path :: paths))

/-- The state of the host that `build` looks at beside the blobs. -/
structure Host where
  /-- The reference names a file on disk. -/
  isFile : Bool
  /-- `bases` and `blobs` can be created. -/
  dirsMade : Bool
  /-- `load_built` finds a base of this id. -/
  built : List Char → Bool
  /-- Flattening, packing and all that follows succeeds. -/
  finished : Bool

/-- What a build has pulled. -/
structure Pulled where
  manifest : Manifest
  /-- The config, as it came. -/
  configBody : List UInt8
  config : ImageConfig
  /-- The files of the layers. -/
  layers : List HostPath

inductive Outcome
  /-- From a saved image on disk. -/
  | saved
  /-- From an earlier build. -/
  | cached
  | pulled (p : Pulled)

/-- The layers with the answers they get. -/
def requests (m : Manifest) : List (List Char × Download) :=
  m.layers.mapIdx fun i digest => (digest, r.blob i (c.blobUrl digest))

/-- `build` once the manifest is known. -/
def buildManifest (host : Host) (dir : HostPath) (fs : HostFs) (m : Manifest) :
    HostFs × Except ImageError Outcome :=
  if host.built (hexOf m.configDigest) then (fs, .ok .cached)
  else
    match fetchConfig H json r c m.configDigest with
    | .error e => (fs, .error e)
    | .ok (body, config) =>
      match pullLayers H dir (requests r c m) fs with
      | (fs, .error e) => (fs, .error (.fetch e))
      | (fs, .ok layers) =>
        if host.finished then (fs, .ok (.pulled ⟨m, body, config, layers⟩))
        else (fs, .error .pack)

end Pull

/-- `build` with `refresh`; the blobs are in `dir`. -/
def buildRefresh (H : List UInt8 → List Char) (json : List UInt8 → Option Json) (r : Registry)
    (host : Host) (dir : HostPath) (fs : HostFs) (reference : List Char) :
    HostFs × Except ImageError Outcome :=
  if host.isFile then (fs, .ok .saved)
  else
    match Reference.parse reference with
    | .error e => (fs, .error e)
    | .ok parsed =>
      if host.dirsMade = false then (fs, .error (.fetch .io))
      else
        match fetchManifest json r (.new parsed) with
        | .error e => (fs, .error e)
        | .ok m => buildManifest H json r (.new parsed) host dir fs m

end Amber.Image
