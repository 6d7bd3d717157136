import Amber.Image.Authentic

/-!
# What an image reference means

`Reference::parse` of `amber-image/src/registry.rs` against the grammar of references:
`[host/]segment/…/segment[:tag][@digest]`.  A reference is kept in its parts (`Spelled`), with the
conditions that make its text read one way only; `text` writes it down and `meaning` says what it
stands for.  Colons and slashes are overloaded: a colon can belong to the port of the host, to the
tag or to the digest.

The parser takes the registry from the front and then one thing from the end: what follows the
first `@`, or else what follows the last colon.

* `splitRegistry_text`, `splitReference_rest` — what each half of the parser returns.
* `parse_text` — the result in all cases: a tag in front of a digest stays in the repository.
* `parse_means_iff` — the parser returns the meaning exactly when tag and digest are not both there.
-/

namespace Amber.Image

open List

/-! ## References in parts -/

/-- A first component that is a registry: it has a dot or a port, or is `localhost`. -/
def HostLike (head : List Char) : Prop :=
  '.' ∈ head ∨ ':' ∈ head ∨ head = "localhost".toList

theorem isHost_iff (head : List Char) : isHost head = true ↔ HostLike head := by
  simp only [isHost, HostLike, Bool.or_eq_true, decide_eq_true_eq, or_assoc]

/-- A well-formed reference. -/
structure Spelled where
  host : Option (List Char)
  /-- The first segment of the repository, and the others. -/
  first : List Char
  others : List (List Char)
  tag : Option (List Char)
  digest : Option (List Char)
  host_like : ∀ h ∈ host, HostLike h ∧ '/' ∉ h
  segment : ∀ s ∈ first :: others, s ≠ [] ∧ '/' ∉ s ∧ ':' ∉ s ∧ '@' ∉ s
  /-- Without a host, the first of several segments must not look like one. -/
  not_host_like : host = none → others ≠ [] → ¬ HostLike first
  tag_plain : ∀ t ∈ tag, '/' ∉ t ∧ ':' ∉ t ∧ '@' ∉ t
  digest_plain : ∀ d ∈ digest, '/' ∉ d

namespace Spelled

variable (r : Spelled)

/-- The segments with slashes between them. -/
def path : List Char := r.first ++ r.others.flatMap fun s => '/' :: s

def tagText : List Char := (r.tag.map fun t => ':' :: t).getD []

def digestText : List Char := (r.digest.map fun d => '@' :: d).getD []

/-- All but the host. -/
def rest : List Char := r.path ++ r.tagText ++ r.digestText

/-- The reference as it is written. -/
def text : List Char :=
  match r.host with
  | some h => h ++ '/' :: r.rest
  | none => r.rest

/-- The registry host, with Docker Hub as the default. -/
def registry : List Char :=
  match r.host with
  | some h => if h = "docker.io".toList then defaultRegistry else h
  | none => defaultRegistry

/-- Docker Hub keeps the images with names of one segment under `library/`. -/
def official : List Char :=
  if r.registry = defaultRegistry ∧ r.others = [] then "library/".toList else []

/-- The digest if there is one, else the tag, else `latest`. -/
def wanted : List Char := (r.digest <|> r.tag).getD "latest".toList

/-- What the reference stands for. -/
def meaning : Reference := ⟨r.registry, r.official ++ r.path, r.wanted⟩

/-! ## The characters of the parts -/

variable {r}

theorem notMem_path {c : Char} (hc : c ≠ '/') (h : ∀ s ∈ r.first :: r.others, c ∉ s) :
    c ∉ r.path := by
  rw [path, mem_append, mem_flatMap]
  rintro (hfirst | ⟨s, hs, hmem⟩)
  · exact h r.first mem_cons_self hfirst
  · rcases mem_cons.1 hmem with hslash | hmem
    · exact hc hslash
    · exact h s (mem_cons_of_mem _ hs) hmem

theorem at_notMem_path : '@' ∉ r.path :=
  notMem_path (by decide) fun s hs => (r.segment s hs).2.2.2

theorem colon_notMem_path : ':' ∉ r.path :=
  notMem_path (by decide) fun s hs => (r.segment s hs).2.2.1

theorem slash_mem_path_iff : '/' ∈ r.path ↔ r.others ≠ [] := by
  constructor
  · rintro h hothers
    rw [path, hothers, flatMap_nil, append_nil] at h
    exact (r.segment _ mem_cons_self).2.1 h
  · intro h
    obtain ⟨s, others, hothers⟩ := exists_cons_of_ne_nil h
    simp [path, hothers]

theorem path_ne_nil : r.path ≠ [] := by
  have hfirst := (r.segment r.first mem_cons_self).1
  simp [path, hfirst]

theorem notMem_tagText {c : Char} (hc : c ≠ ':') (h : ∀ t ∈ r.tag, c ∉ t) : c ∉ r.tagText := by
  rw [tagText]
  cases htag : r.tag with
  | none => exact not_mem_nil
  | some t => exact not_mem_cons_of_ne_of_not_mem hc (h t htag)

theorem slash_notMem_tagText : '/' ∉ r.tagText :=
  notMem_tagText (by decide) fun t ht => (r.tag_plain t ht).1

theorem at_notMem_tagText : '@' ∉ r.tagText :=
  notMem_tagText (by decide) fun t ht => (r.tag_plain t ht).2.2

theorem slash_notMem_digestText : '/' ∉ r.digestText := by
  rw [digestText]
  cases hdigest : r.digest with
  | none => exact not_mem_nil
  | some d => exact not_mem_cons_of_ne_of_not_mem (by decide) (r.digest_plain d hdigest)

/-! ## The registry -/

theorem default_ne_docker : defaultRegistry ≠ "docker.io".toList := by decide

/-- Without a host, nothing in front of a slash is taken for one. -/
theorem splitRegistry_rest (hhost : r.host = none) :
    splitRegistry r.rest = (defaultRegistry, r.rest) := by
  rw [splitRegistry]
  cases hothers : r.others with
  | nil =>
    have hslash : '/' ∉ r.rest := by
      simp only [rest, mem_append, not_or]
      exact ⟨⟨fun h => slash_mem_path_iff.1 h hothers, slash_notMem_tagText⟩,
        slash_notMem_digestText⟩
    rw [splitOnce_none hslash]
    dsimp only
    rw [if_neg default_ne_docker]
  | cons s others =>
    have hrest : r.rest = r.first ++ '/' ::
        (s ++ (others.flatMap fun s => '/' :: s) ++ r.tagText ++ r.digestText) := by
      simp [rest, path, hothers]
    have hfirst : isHost r.first = false := by
      rw [← Bool.not_eq_true, isHost_iff]
      exact r.not_host_like hhost (hothers ▸ cons_ne_nil _ _)
    rw [hrest, splitOnce_self (r.segment _ mem_cons_self).2.1]
    dsimp only
    rw [hfirst, if_neg Bool.false_ne_true]
    rw [if_neg default_ne_docker]

theorem splitRegistry_text : splitRegistry r.text = (r.registry, r.rest) := by
  rw [text, registry]
  cases hhost : r.host with
  | none => exact splitRegistry_rest hhost
  | some h =>
    obtain ⟨hlike, hslash⟩ := r.host_like h hhost
    rw [splitRegistry, splitOnce_self hslash]
    dsimp only
    rw [if_pos ((isHost_iff h).2 hlike)]

/-! ## The tag and the digest -/

end Spelled

theorem rsplitOnce_self {c : Char} {b : List Char} (h : c ∉ b) (a : List Char) :
    rsplitOnce c (a ++ c :: b) = some (a, b) := by
  have hrev : (a ++ c :: b).reverse = b.reverse ++ c :: a.reverse := by simp
  rw [rsplitOnce, hrev, splitOnce_self (by simpa using h)]
  simp

theorem rsplitOnce_none {c : Char} {a : List Char} (h : c ∉ a) : rsplitOnce c a = none := by
  rw [rsplitOnce, splitOnce_none (by simpa using h)]
  rfl

namespace Spelled

variable {r : Spelled}

/-- What the parser leaves in the repository beside the path: with a digest, the tag. -/
def leftover (r : Spelled) : List Char := if r.digest.isSome then r.tagText else []

theorem splitReference_rest : splitReference r.rest = (r.path ++ r.leftover, r.wanted) := by
  rw [splitReference, rest, leftover, wanted, digestText]
  cases hdigest : r.digest with
  | some d =>
    have hat : '@' ∉ r.path ++ r.tagText := by
      rw [mem_append, not_or]
      exact ⟨at_notMem_path, at_notMem_tagText⟩
    dsimp only [Option.map_some, Option.getD_some]
    rw [splitOnce_self hat]
    rfl
  | none =>
    have hat : '@' ∉ r.path ++ r.tagText ++ [] := by
      rw [append_nil, mem_append, not_or]
      exact ⟨at_notMem_path, at_notMem_tagText⟩
    dsimp only [Option.map_none, Option.getD_none]
    rw [splitOnce_none hat, tagText]
    cases htag : r.tag with
    | none =>
      dsimp only [Option.map_none, Option.getD_none]
      rw [append_nil, append_nil, rsplitOnce_none colon_notMem_path]
      simp
    | some t =>
      obtain ⟨hslash, hcolon, -⟩ := r.tag_plain t htag
      dsimp only [Option.map_some, Option.getD_some]
      rw [append_nil, rsplitOnce_self hcolon]
      dsimp only
      rw [if_neg hslash]
      simp

theorem text_ne_nil : r.text ≠ [] := by
  rw [text]
  cases r.host with
  | some h => simp
  | none =>
    simp only [rest, ne_eq, append_eq_nil_iff, not_and]
    exact fun h => absurd h.1 path_ne_nil

theorem slash_mem_repository_iff : '/' ∈ r.path ++ r.leftover ↔ r.others ≠ [] := by
  have hleft : '/' ∉ r.leftover := by
    rw [leftover]
    split_ifs
    · exact slash_notMem_tagText
    · exact not_mem_nil
  rw [mem_append, slash_mem_path_iff]
  exact or_iff_left hleft

/-- What the parser returns, in all cases. -/
theorem parse_text : Reference.parse r.text =
    .ok ⟨r.registry, r.official ++ (r.path ++ r.leftover), r.wanted⟩ := by
  rw [Reference.parse, if_neg text_ne_nil, splitRegistry_text]
  dsimp only
  rw [splitReference_rest]
  simp only [slash_mem_repository_iff, not_not, official]
  split_ifs
  · rfl
  · rfl

/-! ## The meaning -/

/-- **A reference is parsed to what it means exactly when it does not give both a tag and a
digest.** -/
theorem parse_means_iff (r : Spelled) :
    Reference.parse r.text = .ok r.meaning ↔ ¬ (r.tag.isSome ∧ r.digest.isSome) := by
  have hleft : Reference.parse r.text = .ok r.meaning ↔ r.leftover = [] := by
    rw [parse_text, meaning]
    simp [← append_assoc]
  rw [hleft, leftover, tagText]
  cases r.digest <;> cases r.tag <;> simp

end Spelled

/-- `alpine:3.20@sha256:abc`. -/
def alpinePinned : Spelled where
  host := none
  first := "alpine".toList
  others := []
  tag := some "3.20".toList
  digest := some "sha256:abc".toList
  host_like := by simp
  segment := by decide
  not_host_like := by simp
  tag_plain := by decide
  digest_plain := by decide

/-- **The tag of a pinned image goes into its repository**, and the registry is asked for a
repository that does not exist. -/
theorem pinned_tag_in_repository :
    alpinePinned.text = "alpine:3.20@sha256:abc".toList ∧
      Reference.parse alpinePinned.text =
        .ok ⟨defaultRegistry, "library/alpine:3.20".toList, "sha256:abc".toList⟩ ∧
      alpinePinned.meaning = ⟨defaultRegistry, "library/alpine".toList, "sha256:abc".toList⟩ :=
  ⟨rfl, rfl, rfl⟩

end Amber.Image
