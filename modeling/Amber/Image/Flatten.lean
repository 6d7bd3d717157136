import Amber.Lib.Runs
import Amber.Lib.Vfs.Ops

/-!
# Flattening image layers

`flatten_limited` of `amber-image/src/flatten.rs`: the entries of a list of tar archives are
applied in order to a directory of the host.  A file named `.wh.<name>` deletes `<name>`, and
`.wh..wh..opq` empties its directory.

The loop over layers and entries is a run of `step`: once a call fails the state does not change
any more.  What the archive reader, the link call and the directory listing do is part of each
entry: an archive may be cut short anywhere, a hard link may be refused, and a directory is
listed in any order.
-/

namespace Amber.Image

open Vfs

/-- A file name: text, or bytes that are no text. -/
inductive OsStr
  | utf8 (s : List Char)
  | raw (bytes : List UInt8)
  deriving DecidableEq

abbrev HostPath := Path OsStr
abbrev HostFs := Fs OsStr

def whPrefix : List Char := ['.', 'w', 'h', '.']

def whOpaque : List Char := ['.', 'w', 'h', '.', '.', 'w', 'h', '.', '.', 'o', 'p', 'q']

/-- Ceiling on the bytes written across all layers. -/
def maxTotalBytes : ℕ := 8 <<< 30

/-! ## Entries -/

inductive EntryType
  | directory
  | regular
  | continuous
  | symlink
  | link
  | other
  deriving DecidableEq

/-- One entry of an archive, and what the host does while it is extracted. -/
structure Entry where
  path : HostPath
  kind : EntryType
  /-- The mode of the header, if it can be read. -/
  mode : Option ℕ
  /-- The link name of the header; `none` if it cannot be read. -/
  linkName : Option (Option HostPath)
  body : List UInt8
  /-- Reading on after `body` fails. -/
  torn : Bool
  /-- The hard link is refused. -/
  linkRefused : Bool
  /-- The order in which a directory is listed. -/
  order : List OsStr → List OsStr
  order_perm : ∀ l, (order l).Perm l

inductive FlattenError
  | io
  | sizeLimit
  deriving DecidableEq

/-! ## Paths -/

/-- The names of a path made of nothing else. -/
def plainNames : List (Comp OsStr) → Option (List OsStr)
  | [] => some []
  | .normal n :: rest => (plainNames rest).map (n :: ·)
  | .curDir :: rest => plainNames rest
  | .parentDir :: _ => none

/-- Reject absolute paths and any `..`; strip `.`.  The result is not empty. -/
def sanitize (p : HostPath) : Option (List OsStr) :=
  if p.abs then none
  else
    match plainNames p.comps with
    | none => none
    | some [] => none
    | some (n :: names) => some (n :: names)

/-- The path of `names` below `dest`. -/
def under (dest : HostPath) (names : List OsStr) : HostPath :=
  ⟨dest.abs, dest.comps ++ names.map .normal, .bare⟩

/-- `dest.join(rel)`; joining the empty path leaves a trailing slash. -/
def join (dest : HostPath) (names : List OsStr) : HostPath :=
  { under dest names with trail := if names.isEmpty then dest.trail.slashed else .bare }

/-- `p.join(target)` for the text of one component, or less than one. -/
def joinStr (p : HostPath) (target : List Char) : HostPath :=
  if target = [] then { p with trail := p.trail.slashed }
  else if target = ['.'] then { p with trail := .dot }
  else if target = ['.', '.'] then ⟨p.abs, p.comps ++ [.parentDir], .bare⟩
  else p.child (.utf8 target)

/-- The loop of `within_root`, over the components in reverse. -/
def ascend (fs : HostFs) (root : List OsStr) (abs : Bool) : List (Comp OsStr) → Bool
  | [] =>
    match fs.canonicalize ⟨abs, [], .bare⟩ with
    | some c => decide (root <+: c)
    | none => false
  | x :: xs =>
    match fs.canonicalize ⟨abs, (x :: xs).reverse, .bare⟩ with
    | some c => decide (root <+: c)
    | none => ascend fs root abs xs

/-- The deepest part of `p` that exists lies under `root`. -/
def withinRootFrom (fs : HostFs) (root : List OsStr) (p : HostPath) : Bool :=
  ascend fs root p.abs p.comps.reverse

/-- `within_root`. -/
def withinRoot (fs : HostFs) (root : List OsStr) (out : HostPath) : Bool :=
  match out.parent with
  | none => false
  | some dir => withinRootFrom fs root dir

/-- `out` with its last `k` components taken off. -/
def ancestor : ℕ → HostPath → Option HostPath
  | 0, p => some p
  | k + 1, p => p.parent.bind (ancestor k)

/-- `rootfs_root`. -/
def rootfsRoot (out entryRel : HostPath) : Option HostPath :=
  (sanitize entryRel).bind fun rel => ancestor rel.length out

/-! ## Extraction -/

/-- `remove_any`. -/
def removeAny (fs : HostFs) (p : HostPath) : Res OsStr :=
  match fs.symlinkMetadata p with
  | some (.dir _) => fs.removeDirAll p
  | some _ => fs.removeFile p
  | none => (fs, .ok ())

/-- The loop of `clear_dir` over the names listed. -/
def clearNames (dir : HostPath) : List OsStr → HostFs → Res OsStr
  | [], fs => (fs, .ok ())
  | n :: names, fs => (removeAny fs (dir.child n)).andThen (clearNames dir names)

/-- `clear_dir`. -/
def clearDir (fs : HostFs) (order : List OsStr → List OsStr) (dir : HostPath) : Res OsStr :=
  if fs.exists? dir then
    match fs.readDir dir with
    | some names => clearNames dir (order names) fs
    | none => (fs, .error .other)
  else (fs, .ok ())

/-- Make the parents of `out` and clear the way for it. -/
def prepare (fs : HostFs) (out : HostPath) : Res OsStr :=
  Res.andThen
    (match out.parent with
      | some dir => fs.createDirAll dir
      | none => (fs, .ok ()))
    fun fs => removeAny fs out

/-- `budget.saturating_add(1)` on 64 bits. -/
def copyLimit (budget : ℕ) : ℕ := min (budget + 1) 0xffffffffffffffff

/-- The mode an entry asks for. -/
def Entry.modeOr (e : Entry) : ℕ := e.mode.getD 0o644

/-- A call that may fail, and then nothing more to do. -/
def orIo (r : Res OsStr) (next : HostFs → HostFs × Except FlattenError ℕ) :
    HostFs × Except FlattenError ℕ :=
  match r.2 with
  | .ok _ => next r.1
  | .error _ => (r.1, .error .io)

def extractDir (fs : HostFs) (e : Entry) (out : HostPath) : HostFs × Except FlattenError ℕ :=
  orIo (fs.createDirAll out) fun fs => ((fs.setPermissions out e.modeOr).1, .ok 0)

/-- The bytes of a regular file, at most one more than the budget. -/
def copyBody (fs : HostFs) (e : Entry) (out : HostPath) (ino budget : ℕ) :
    HostFs × Except FlattenError ℕ :=
  let bytes := e.body.take (copyLimit budget)
  let fs := fs.append ino bytes
  if e.torn ∧ e.body.length < copyLimit budget then (fs, .error .io)
  else if bytes.length > budget then (fs, .error .sizeLimit)
  else ((fs.setPermissions out e.modeOr).1, .ok bytes.length)

def extractFile (fs : HostFs) (e : Entry) (out : HostPath) (budget : ℕ) :
    HostFs × Except FlattenError ℕ :=
  orIo (prepare fs out) fun fs =>
    match fs.createFile out with
    | (fs, .error _) => (fs, .error .io)
    | (fs, .ok ino) => copyBody fs e out ino budget

def extractSymlink (fs : HostFs) (e : Entry) (out : HostPath) : HostFs × Except FlattenError ℕ :=
  match e.linkName with
  | none => (fs, .error .io)
  | some none => (fs, .ok 0)
  | some (some target) =>
    orIo (prepare fs out) fun fs => orIo (fs.symlink target out) fun fs => (fs, .ok 0)

/-- A hard link, or a copy if the link cannot be made. -/
def linkOrCopy (fs : HostFs) (refused : Bool) (src out : HostPath) : HostFs :=
  let linked : Res OsStr := if refused then (fs, .error .other) else fs.hardLink src out
  match linked.2 with
  | .ok _ => linked.1
  | .error _ => (linked.1.copy src out).1

def extractLink (fs : HostFs) (e : Entry) (out : HostPath) (root : List OsStr) :
    HostFs × Except FlattenError ℕ :=
  match e.linkName with
  | none => (fs, .error .io)
  | some none => (fs, .ok 0)
  | some (some target) =>
    match rootfsRoot out e.path with
    | none => (fs, .ok 0)
    | some linkRoot =>
      let src := join linkRoot ((sanitize target).getD [])
      if withinRoot fs root src then
        orIo (prepare fs out) fun fs => (linkOrCopy fs e.linkRefused src out, .ok 0)
      else (fs, .ok 0)

/-- `extract`: the bytes written, or the error. -/
def extract (fs : HostFs) (e : Entry) (out : HostPath) (root : List OsStr) (budget : ℕ) :
    HostFs × Except FlattenError ℕ :=
  match e.kind with
  | .directory => extractDir fs e out
  | .regular | .continuous => extractFile fs e out budget
  | .symlink => extractSymlink fs e out
  | .link => extractLink fs e out root
  | .other => (fs, .ok 0)

/-! ## The loop -/

/-- What a file name asks for when it marks a deletion. -/
inductive Whiteout
  /-- Empty the directory. -/
  | dir
  | name (target : List Char)

def whiteout (rel : List OsStr) : Option Whiteout :=
  match rel.getLast? with
  | some (.utf8 name) =>
    if name = whOpaque then some .dir
    else if whPrefix <+: name then some (.name (name.drop whPrefix.length))
    else none
  | _ => none

/-- The path a whiteout deletes. -/
def victim (dest : HostPath) (rel : List OsStr) (target : List Char) : HostPath :=
  joinStr (join dest rel.dropLast) target

/-- The state of `flatten_limited`: once an error is set it has returned. -/
structure State where
  fs : HostFs
  root : List OsStr
  written : ℕ
  failed : Option FlattenError

def State.after (s : State) (r : Res OsStr) : State :=
  { s with fs := r.1, failed := match r.2 with | .ok _ => none | .error _ => some .io }

/-- One entry. -/
def entryStep (dest : HostPath) (maxTotal : ℕ) (s : State) (e : Entry) : State :=
  match sanitize e.path with
  | none => s
  | some rel =>
    match whiteout rel with
    | some .dir =>
      let dir := join dest rel.dropLast
      if withinRoot s.fs s.root (dir.child (.utf8 ['_'])) then s.after (clearDir s.fs e.order dir)
      else s
    | some (.name target) =>
      if withinRoot s.fs s.root (victim dest rel target) then
        s.after (removeAny s.fs (victim dest rel target))
      else s
    | none =>
      let out := under dest rel
      if withinRoot s.fs s.root out then
        match extract s.fs e out s.root (maxTotal - s.written) with
        | (fs, .ok n) => { s with fs, written := s.written + n }
        | (fs, .error err) => { s with fs, failed := some err }
      else s

/-- What the loops over layers and entries come to. -/
inductive Event
  /-- The next layer is opened, or cannot be. -/
  | layer (opens : Bool)
  | entry (e : Entry)
  /-- The archive cannot be read on. -/
  | torn

def step (dest : HostPath) (maxTotal : ℕ) (s : State) (ev : Event) : State :=
  if s.failed.isSome then s
  else
    match ev with
    | .layer true => s
    | .layer false => { s with failed := some .io }
    | .entry e => entryStep dest maxTotal s e
    | .torn => { s with failed := some .io }

structure Layer where
  opens : Bool
  entries : List Entry
  torn : Bool

def Layer.events (l : Layer) : List Event :=
  .layer l.opens :: l.entries.map .entry ++ if l.torn then [.torn] else []

/-- Before the loop: `dest` is made anew. -/
def begin (fs : HostFs) (dest : HostPath) : State :=
  let cleared : Res OsStr := if fs.exists? dest then fs.removeDirAll dest else (fs, .ok ())
  match cleared.andThen fun fs => fs.createDirAll dest with
  | (fs, .error _) => ⟨fs, [], 0, some .io⟩
  | (fs, .ok _) =>
    match fs.canonicalize dest with
    | some root => ⟨fs, root, 0, none⟩
    | none => ⟨fs, [], 0, some .io⟩

/-- `flatten_limited`. -/
def flattenLimited (fs : HostFs) (layers : List Layer) (dest : HostPath) (maxTotal : ℕ) : State :=
  Runs.run (step dest maxTotal) (begin fs dest) (layers.flatMap Layer.events)

/-- `flatten`. -/
def flatten (fs : HostFs) (layers : List Layer) (dest : HostPath) : State :=
  flattenLimited fs layers dest maxTotalBytes

end Amber.Image
