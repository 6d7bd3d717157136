import Amber.Image.Registry
import Amber.Lib.Shell

/-!
# The init script of an image

`build_bootstrap` of `amber/src/main.rs` writes the script with which a VM starts.  The environment,
the working directory and the command come from the image and from the caller, and go into the
script as text: each quoted by `sh_quote`, the command a second time as an argument of the shell
that runs in the new root.

* `feed_shQuote` — a quoted text is read as one word, which is that text.
* `feed_imageLines`, `parse_inner` — what the two shells read.
* `image_strings_contained` — whatever the strings are, the first shell runs one `export` per entry
  and one `chroot`, the second one `cd` and one `exec`, with these strings as arguments.
-/

namespace Amber.Image

open Shell List

/-! ## The script -/

/-- `sh_quote`. -/
def shQuote (s : List Char) : List Char :=
  apostrophe :: (s.flatMap fun c =>
    if c = apostrophe then [apostrophe, backslash, apostrophe, apostrophe] else [c]) ++ [apostrophe]

/-- `guest::AGENT_PATH`. -/
def agentPath : List Char := "/sbin/amber-agent".toList

def exportLine (e : List Char) : List Char := "export ".toList ++ shQuote e ++ "\n".toList

/-- The image's working directory, or the root. -/
def workingDir (config : ImageConfig) : List Char := config.workingDir.getD "/".toList

/-- What the shell in the new root is given to run. -/
def innerCommand (config : ImageConfig) (argv : List (List Char)) : List Char :=
  "cd ".toList ++ shQuote (workingDir config) ++ "; exec ".toList ++
    List.intercalate " ".toList (argv.map shQuote)

/-- The agent is copied to the new root. -/
def agentLines : List Char :=
  "mkdir -p /newroot/sbin\n".toList ++ "cp /sbin/amber-agent /newroot/sbin/amber-agent\n".toList

/-- The lines of the script that are made of the image's strings. -/
def imageLines (config : ImageConfig) (argv : List (List Char)) : List Char :=
  config.env.flatMap exportLine ++ (if argv.head? = some agentPath then agentLines else []) ++
    ("chroot /newroot /bin/sh -c ".toList ++ shQuote (innerCommand config argv) ++ "\n".toList)

/-! ## Quoted texts -/

section Quote

variable (words : List Word) (text s : List Char)

/-- In single quotes, an apostrophe closes them, stands for itself behind a backslash, and opens
them again. -/
theorem feed_escapedChar (c : Char) :
    feed ⟨words, some ⟨text, true⟩, .single⟩
        (if c = apostrophe then [apostrophe, backslash, apostrophe, apostrophe] else [c]) =
      .ok (⟨words, some ⟨text ++ [c], true⟩, .single⟩, []) := by
  split_ifs with hc
  · subst hc
    rfl
  · rw [feed_cons (step_single hc words text)]
    rfl

theorem feed_escaped :
    feed ⟨words, some ⟨text, true⟩, .single⟩ (s.flatMap fun c =>
        if c = apostrophe then [apostrophe, backslash, apostrophe, apostrophe] else [c]) =
      .ok (⟨words, some ⟨text ++ s, true⟩, .single⟩, []) := by
  induction s generalizing text with
  | nil => rw [append_nil]; rfl
  | cons c s ih =>
    rw [flatMap_cons, append_cons]
    exact feed_trans (feed_escapedChar words text c) (ih (text ++ [c]))

/-- A quoted text is read as one word, which is that text. -/
theorem feed_shQuote :
    feed ⟨words, none, .plain⟩ (shQuote s) = .ok (⟨words, some ⟨s, true⟩, .plain⟩, []) := by
  have hopen : Shell.step ⟨words, none, .plain⟩ apostrophe =
      .ok (⟨words, some ⟨[], true⟩, .single⟩, []) := rfl
  have hclose : feed ⟨words, some ⟨s, true⟩, .single⟩ [apostrophe] =
      .ok (⟨words, some ⟨s, true⟩, .plain⟩, []) := rfl
  rw [shQuote, cons_append, feed_cons hopen, feed_trans (feed_escaped words [] s) hclose]
  rfl

end Quote

/-! ## The first shell -/

theorem feed_exportLine (e : List Char) :
    feed .start (exportLine e) = .ok (.start, [["export".toList, e]]) := by
  have hname : feed .start "export ".toList =
      .ok (⟨[⟨"export".toList, false⟩], none, .plain⟩, []) := rfl
  have hend : feed ⟨[⟨"export".toList, false⟩], some ⟨e, true⟩, .plain⟩ "\n".toList =
      .ok (.start, [["export".toList, e]]) := rfl
  exact feed_trans (feed_trans hname (feed_shQuote _ e)) hend

theorem feed_exportLines (env : List (List Char)) :
    feed .start (env.flatMap exportLine) =
      .ok (.start, env.map fun e => ["export".toList, e]) := by
  induction env with
  | nil => rfl
  | cons e env ih => exact feed_trans (feed_exportLine e) ih

/-- The commands that copy the agent. -/
def agentCommands : List Command :=
  [["mkdir".toList, "-p".toList, "/newroot/sbin".toList],
    ["cp".toList, "/sbin/amber-agent".toList, "/newroot/sbin/amber-agent".toList]]

theorem feed_agentLines : feed .start agentLines = .ok (.start, agentCommands) := by
  have hmkdir : feed .start "mkdir -p /newroot/sbin\n".toList =
      .ok (.start, [["mkdir".toList, "-p".toList, "/newroot/sbin".toList]]) := rfl
  have hcp : feed .start "cp /sbin/amber-agent /newroot/sbin/amber-agent\n".toList =
      .ok (.start, [["cp".toList, "/sbin/amber-agent".toList,
        "/newroot/sbin/amber-agent".toList]]) := rfl
  exact feed_trans hmkdir hcp

theorem feed_chrootLine (inner : List Char) :
    feed .start ("chroot /newroot /bin/sh -c ".toList ++ shQuote inner ++ "\n".toList) =
      .ok (.start,
        [["chroot".toList, "/newroot".toList, "/bin/sh".toList, "-c".toList, inner]]) := by
  have hname : feed .start "chroot /newroot /bin/sh -c ".toList =
      .ok (⟨[⟨"chroot".toList, false⟩, ⟨"/newroot".toList, false⟩, ⟨"/bin/sh".toList, false⟩,
        ⟨"-c".toList, false⟩], none, .plain⟩, []) := rfl
  exact feed_trans (feed_trans hname (feed_shQuote _ inner)) rfl

/-- What the first shell is to run. -/
def outerCommands (config : ImageConfig) (argv : List (List Char)) : List Command :=
  (config.env.map fun e => ["export".toList, e]) ++
    (if argv.head? = some agentPath then agentCommands else []) ++
    [["chroot".toList, "/newroot".toList, "/bin/sh".toList, "-c".toList, innerCommand config argv]]

variable (config : ImageConfig) (argv : List (List Char))

theorem feed_imageLines :
    feed .start (imageLines config argv) = .ok (.start, outerCommands config argv) := by
  have hagent : feed .start (if argv.head? = some agentPath then agentLines else []) =
      .ok (.start, if argv.head? = some agentPath then agentCommands else []) := by
    split_ifs
    · exact feed_agentLines
    · rfl
  exact feed_trans (feed_trans (feed_exportLines config.env) hagent) (feed_chrootLine _)

/-! ## The second shell -/

/-- Quoted arguments with blanks between them; the last one is still being read. -/
theorem feed_arguments (words : List Word) (argv : List (List Char)) :
    ∃ st : Shell.State,
      feed ⟨words, none, .plain⟩ (List.intercalate " ".toList (argv.map shQuote)) = .ok (st, []) ∧
        st.mode = .plain ∧ st.endWord.words = words ++ argv.map fun a => ⟨a, true⟩ := by
  induction argv generalizing words with
  | nil => exact ⟨⟨words, none, .plain⟩, rfl, rfl, rfl⟩
  | cons a argv ih =>
    have hword := feed_shQuote words a
    cases argv with
    | nil =>
      refine ⟨⟨words, some ⟨a, true⟩, .plain⟩, ?_, rfl, rfl⟩
      rwa [map_singleton, intercalate_singleton]
    | cons b argv =>
      have hblank : feed ⟨words, some ⟨a, true⟩, .plain⟩ " ".toList =
          .ok (⟨words ++ [⟨a, true⟩], none, .plain⟩, []) := rfl
      obtain ⟨st, hfeed, hmode, hwords⟩ := ih (words ++ [⟨a, true⟩])
      refine ⟨st, ?_, hmode, ?_⟩
      · rw [map_cons, map_cons, intercalate_cons_cons]
        exact feed_trans (feed_trans hword hblank) hfeed
      · rw [hwords, append_assoc]
        rfl

theorem parse_inner :
    parse (innerCommand config argv) =
      .ok [["cd".toList, workingDir config], "exec".toList :: argv] := by
  have hcd : feed .start "cd ".toList = .ok (⟨[⟨"cd".toList, false⟩], none, .plain⟩, []) := rfl
  have hexec : feed ⟨[⟨"cd".toList, false⟩], some ⟨workingDir config, true⟩, .plain⟩
      "; exec ".toList =
        .ok (⟨[⟨"exec".toList, false⟩], none, .plain⟩, [["cd".toList, workingDir config]]) := rfl
  obtain ⟨st, hargv, hmode, hwords⟩ := feed_arguments [⟨"exec".toList, false⟩] argv
  have hcommand : command (⟨"exec".toList, false⟩ :: argv.map fun a => ⟨a, true⟩) =
      .ok ["exec".toList :: (argv.map fun a => ⟨a, true⟩).map Word.text] := rfl
  have hend : finish st = .ok ["exec".toList :: argv] := by
    rw [finish, if_pos (.inl hmode), endCommand, hwords, singleton_append, hcommand, map_map]
    simp [Except.map, Function.comp_def]
  exact parse_of_feed
    (feed_trans (feed_trans (feed_trans hcd (feed_shQuote _ _)) hexec) hargv) hend

/-- **The image's strings cannot escape the script.**  The first shell reads one `export` with each
entry as its only argument and one `chroot`, and then reads what follows as if nothing had been
before; the second shell reads the last argument of `chroot` as one `cd` and one `exec`. -/
theorem image_strings_contained (config : ImageConfig) (argv : List (List Char)) :
    feed .start (imageLines config argv) = .ok (.start, outerCommands config argv) ∧
      (∀ rest, feed .start (imageLines config argv ++ rest) =
        (feed .start rest).map fun r => (r.1, outerCommands config argv ++ r.2)) ∧
      parse (innerCommand config argv) =
        .ok [["cd".toList, workingDir config], "exec".toList :: argv] :=
  ⟨feed_imageLines config argv, feed_append (feed_imageLines config argv),
    parse_inner config argv⟩

end Amber.Image
