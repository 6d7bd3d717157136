import Amber.Image.Flatten

/-!
# The blob cache

Layers are kept in one directory, each under the hash in its digest.  Two producers fill it:
`fetch_blob` of `amber-image/src/registry.rs` downloads to a temporary name, checks the hash and
renames; `extract_members` of `amber-image/src/lib.rs` writes the members of a saved image to
their final names.

The hash is an arbitrary function `H` from data to its text.  What the registry, the archive and
the disk do is part of each download and of each member: every call may fail, and a write may
stop half way.  An interrupted build leaves what a failed one leaves.
-/

namespace Amber.Image

open Vfs

/-- Per-layer size ceiling. -/
def maxBlob : ℕ := 4 <<< 30

/-! ## Paths from text -/

/-- A component of a path as text; empty ones and dots do not count. -/
def textComp (w : List Char) : Option (Comp OsStr) :=
  if w = [] ∨ w = ['.'] then none
  else if w = ['.', '.'] then some .parentDir
  else some (.normal (.utf8 w))

/-- What the text has behind its last component. -/
def textTrail (s : List Char) : Trail :=
  match (s.splitOn '/').getLast? with
  | some w => if w = ['.'] then .dot else if w = [] then .slash else .bare
  | none => .slash

/-- `p.join(s)`; an absolute path replaces `p`. -/
def joinText (p : HostPath) (s : List Char) : HostPath :=
  let comps := (s.splitOn '/').filterMap textComp
  if s.head? = some '/' then ⟨true, comps, textTrail s⟩
  else ⟨p.abs, p.comps ++ comps, textTrail s⟩

/-- `s.rsplit('/').next()`: what follows the last slash. -/
def basename (s : List Char) : List Char := (s.reverse.takeWhile (· != '/')).reverse

/-! ## Downloads -/

def digestPrefix : List Char := ['s', 'h', 'a', '2', '5', '6', ':']

/-- The digest without its `sha256:`. -/
def hexOf (digest : List Char) : List Char :=
  if digestPrefix <+: digest then digest.drop digestPrefix.length else digest

/-- The ending of a temporary file. -/
def tmpSuffix : List Char := ['.', 'p', 'a', 'r', 't', 'i', 'a', 'l']

/-- One call of `read`, and of the `write_all` that follows it. -/
inductive Read
  /-- The bytes read; `cut = some k` if writing them fails after `k`. -/
  | chunk (bytes : List UInt8) (cut : Option ℕ)
  | error

/-- What happens to a request for a blob. -/
structure Download where
  connected : Bool
  createRefused : Bool
  /-- The stream ends after these. -/
  reads : List Read
  removeRefused : Bool
  renameRefused : Bool

inductive FetchError
  | http
  | io
  | registry (msg : String)
  | digest (want got : List Char)

/-- `remove_file`, its result ignored. -/
def Download.removeTmp (d : Download) (fs : HostFs) (tmp : HostPath) : HostFs :=
  if d.removeRefused then fs else (fs.removeFile tmp).1

/-- The copy loop of `fetch_blob`: what has been hashed and written at the end of the stream. -/
def fetchLoop (d : Download) (hex : List Char) (tmp : HostPath) (ino : ℕ) :
    List Read → HostFs → List UInt8 → HostFs × Except FetchError (List UInt8)
  | [], fs, hashed => (fs, .ok hashed)
  | .error :: _, fs, _ => (fs, .error .io)
  | .chunk bytes cut :: reads, fs, hashed =>
    if bytes = [] then (fs, .ok hashed)
    else if hashed.length + bytes.length > maxBlob then
      (d.removeTmp fs tmp,
        .error (.registry ("blob " ++ String.ofList hex ++ " exceeds 4294967296 bytes")))
    else
      match cut with
      | some k => (fs.append ino (bytes.take k), .error .io)
      | none => fetchLoop d hex tmp ino reads (fs.append ino bytes) (hashed ++ bytes)

/-- The end of `fetch_blob`: check the hash of what was written and give it its name. -/
def commitBlob (H : List UInt8 → List Char) (d : Download) (hex : List Char) (tmp path : HostPath)
    (fs : HostFs) (bytes : List UInt8) : HostFs × Except FetchError HostPath :=
  let got := H bytes
  if got ≠ hex then (d.removeTmp fs tmp, .error (.digest hex got))
  else if d.renameRefused then (fs, .error .io)
  else
    match fs.renameFile tmp path with
    | (fs, .error _) => (fs, .error .io)
    | (fs, .ok _) => (fs, .ok path)

/-- `fetch_blob` once the registry has answered. -/
def downloadBlob (H : List UInt8 → List Char) (d : Download) (hex : List Char)
    (tmp path : HostPath) (fs : HostFs) : HostFs × Except FetchError HostPath :=
  match fs.createFile tmp with
  | (fs, .error _) => (fs, .error .io)
  | (fs, .ok ino) =>
    match fetchLoop d hex tmp ino d.reads fs [] with
    | (fs, .error e) => (fs, .error e)
    | (fs, .ok bytes) => commitBlob H d hex tmp path fs bytes

/-- `fetch_blob`. -/
def fetchBlob (H : List UInt8 → List Char) (fs : HostFs) (cacheDir : HostPath)
    (digest : List Char) (d : Download) : HostFs × Except FetchError HostPath :=
  let hex := hexOf digest
  let path := joinText cacheDir hex
  if fs.exists? path then (fs, .ok path)
  else if d.connected = false then (fs, .error .http)
  else
    let tmp := joinText cacheDir (hex ++ tmpSuffix)
    if d.createRefused then (fs, .error .io) else downloadBlob H d hex tmp path fs

/-! ## Saved images -/

/-- A member of the archive; `cut = some k` if copying it fails after `k` bytes. -/
structure Member where
  path : List Char
  body : List UInt8
  createRefused : Bool
  cut : Option ℕ

/-- One member to its final name. -/
def copyMember (fs : HostFs) (dest : HostPath) (m : Member) : HostFs × Except FetchError HostPath :=
  let path := joinText dest (basename m.path)
  if m.createRefused then (fs, .error .io)
  else
    match fs.createFile path with
    | (fs, .error _) => (fs, .error .io)
    | (fs, .ok ino) =>
      match m.cut with
      | some k => (fs.append ino (m.body.take k), .error .io)
      | none => (fs.append ino m.body, .ok path)

/-- `extract_members`: where each member went.  If `torn`, the archive cannot be read on. -/
def extractMembers (dest : HostPath) (want : List (List Char)) (torn : Bool) :
    List Member → HostFs → List (List Char × HostPath) →
      HostFs × Except FetchError (List (List Char × HostPath))
  | [], fs, out => (fs, if torn then .error .io else .ok out)
  | m :: members, fs, out =>
    if m.path ∈ want then
      match copyMember fs dest m with
      | (fs, .error e) => (fs, .error e)
      | (fs, .ok path) => extractMembers dest want torn members fs ((m.path, path) :: out)
    else extractMembers dest want torn members fs out

/-! ## Builds -/

/-- What a build does to the cache. -/
inductive Build
  /-- The layers of a registry manifest, each with the download it gets. -/
  | registry (layers : List (List Char × Download))
  /-- The config and the layers that the manifest of a saved image names, and its members. -/
  | saved (config : List Char) (layers : List (List Char)) (members : List Member) (torn : Bool)

/-- The layers of a manifest in order, up to the first that fails. -/
def fetchLayers (H : List UInt8 → List Char) (cacheDir : HostPath) :
    List (List Char × Download) → HostFs → HostFs
  | [], fs => fs
  | (digest, d) :: layers, fs =>
    match fetchBlob H fs cacheDir digest d with
    | (fs, .error _) => fs
    | (fs, .ok _) => fetchLayers H cacheDir layers fs

def build (H : List UInt8 → List Char) (cacheDir : HostPath) (fs : HostFs) : Build → HostFs
  | .registry layers => fetchLayers H cacheDir layers fs
  | .saved config layers members torn =>
    (extractMembers cacheDir (config :: layers) torn members fs []).1

end Amber.Image
