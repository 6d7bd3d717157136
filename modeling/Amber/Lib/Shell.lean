import Amber.Lib.Failing
import Mathlib.Data.Nat.Notation

/-!
# Reading a shell script

How a POSIX shell reads a script of simple commands: characters make words, with backslashes and
two kinds of quotes; blanks separate words, newlines and semicolons separate commands; a `#` at the
beginning of a word starts a comment.  The reader takes one character at a time and says which
commands are complete.

It reads scripts in which every word stands for itself.  It stops where a shell would do more: at
a `$`, a backquote, a pattern or a tilde that is not quoted (a word would be expanded, and perhaps
split), at an operator (a pipe, a redirection, a subshell), at a reserved word and at an assignment
in the place of a command.  So a script that is read to its end has the commands that were read,
each with these arguments, and no others.

* `feed_append` — a text is read in parts.
* `step_single` — inside single quotes every character but the quote stands for itself.
-/

namespace Shell

open Failing

/-! ## Characters -/

/-- The single quote. -/
def apostrophe : Char := Char.ofNat 39

/-- The double quote. -/
def quotation : Char := Char.ofNat 34

def backslash : Char := Char.ofNat 92

def backquote : Char := Char.ofNat 96

/-! ## The state of the reader -/

/-- The arguments of a simple command, its name first. -/
abbrev Command := List (List Char)

structure Word where
  text : List Char
  /-- Some of it was quoted, if only nothing. -/
  quoted : Bool
  deriving DecidableEq

inductive Mode
  | plain
  /-- Behind a backslash. -/
  | escape
  /-- In single quotes. -/
  | single
  /-- In double quotes. -/
  | double
  /-- Behind a backslash in double quotes. -/
  | doubleEscape
  | comment
  deriving DecidableEq

structure State where
  /-- The words of the command so far. -/
  words : List Word
  /-- The word that is being read. -/
  word : Option Word
  mode : Mode
  deriving DecidableEq

/-- Why a script is not read on. -/
inductive Trouble
  /-- A word would be expanded. -/
  | expansion
  | operator
  | reserved
  | assignment
  /-- A semicolon without a command. -/
  | misplaced
  /-- The script ends inside a quotation or behind a backslash. -/
  | unfinished
  deriving DecidableEq

/-- The words that are reserved where a command is expected. -/
def reservedWords : List String :=
  ["!", "\x7b", "\x7d", "case", "do", "done", "elif", "else", "esac", "fi", "for", "if", "in",
    "then", "until", "while", "[[", "]]", "function", "select"]

/-! ## Words and commands -/

namespace State

/-- At the beginning of a command. -/
def start : State := ⟨[], none, .plain⟩

/-- One more character of the word. -/
def push (st : State) (c : Char) (quoted : Bool) : State :=
  let w := st.word.getD ⟨[], false⟩
  { st with word := some ⟨w.text ++ [c], w.quoted || quoted⟩ }

/-- A quotation begins. -/
def openQuote (st : State) (mode : Mode) : State :=
  let w := st.word.getD ⟨[], false⟩
  { st with word := some { w with quoted := true }, mode }

/-- The word is complete. -/
def endWord (st : State) : State := { st with words := st.words ++ st.word.toList, word := none }

end State

/-- The command that these words make. -/
def command (words : List Word) : Except Trouble (List Command) :=
  match words with
  | [] => .ok []
  | name :: _ =>
    if name.quoted = false ∧ String.ofList name.text ∈ reservedWords then .error .reserved
    else if '=' ∈ name.text then .error .assignment
    else .ok [words.map Word.text]

/-- The command is complete, if there is one. -/
def endCommand (st : State) : Except Trouble (State × List Command) :=
  (command st.endWord.words).map fun commands => (.start, commands)

/-! ## One character -/

/-- A character outside of quotes. -/
def stepPlain (st : State) (c : Char) : Except Trouble (State × List Command) :=
  if c = ' ' ∨ c = '\t' then .ok (st.endWord, [])
  else if c = '\n' then endCommand st
  else if c = ';' then if st.endWord.words = [] then .error .misplaced else endCommand st
  else if c ∈ ['&', '|', '<', '>', '(', ')'] then .error .operator
  else if c ∈ ['$', backquote, '*', '?', '[', '~'] then .error .expansion
  else if c = backslash then .ok ({ st with mode := .escape }, [])
  else if c = apostrophe then .ok (st.openQuote .single, [])
  else if c = quotation then .ok (st.openQuote .double, [])
  else if c = '#' ∧ st.word = none then .ok ({ st with mode := .comment }, [])
  else .ok (st.push c false, [])

/-- The reader at the next character, and the command that it completes. -/
def step (st : State) (c : Char) : Except Trouble (State × List Command) :=
  match st.mode with
  | .plain => stepPlain st c
  | .escape =>
    -- a newline behind a backslash is not there
    if c = '\n' then .ok ({ st with mode := .plain }, [])
    else .ok ({ st.push c true with mode := .plain }, [])
  | .single =>
    if c = apostrophe then .ok ({ st with mode := .plain }, []) else .ok (st.push c true, [])
  | .double =>
    if c = quotation then .ok ({ st with mode := .plain }, [])
    else if c = backslash then .ok ({ st with mode := .doubleEscape }, [])
    else if c ∈ ['$', backquote] then .error .expansion
    else .ok (st.push c true, [])
  | .doubleEscape =>
    if c = '\n' then .ok ({ st with mode := .double }, [])
    else if c ∈ ['$', backquote, quotation, backslash] then
      .ok ({ st.push c true with mode := .double }, [])
    else .ok ({ (st.push backslash true).push c true with mode := .double }, [])
  | .comment => if c = '\n' then endCommand st else .ok (st, [])

/-! ## Texts -/

/-- The reader at the end of a text, and the commands that were completed. -/
def feed (st : State) : List Char → Except Trouble (State × List Command)
  | [] => .ok (st, [])
  | c :: s => do
    let (st, commands) ← step st c
    let (st, more) ← feed st s
    return (st, commands ++ more)

/-- The end of the script. -/
def finish (st : State) : Except Trouble (List Command) :=
  if st.mode = .plain ∨ st.mode = .comment then (endCommand st).map Prod.snd
  else .error .unfinished

/-- The commands of a script. -/
def parse (script : List Char) : Except Trouble (List Command) := do
  let (st, commands) ← feed .start script
  let last ← finish st
  return commands ++ last

section Rules

variable {st st₁ st₂ : State} {c₁ c₂ : List Command} {a b : List Char}

theorem feed_cons {c : Char} (h : step st c = .ok (st₁, c₁)) :
    feed st (c :: a) = (feed st₁ a).map fun r => (r.1, c₁ ++ r.2) := by
  rw [feed, h]
  change (feed st₁ a >>= fun r => pure (r.1, c₁ ++ r.2)) = _
  cases feed st₁ a <;> rfl

/-- **A text is read in parts.** -/
theorem feed_append (h : feed st a = .ok (st₁, c₁)) (b : List Char) :
    feed st (a ++ b) = (feed st₁ b).map fun r => (r.1, c₁ ++ r.2) := by
  induction a generalizing st c₁ with
  | nil =>
    cases h
    rw [List.nil_append]
    cases feed st₁ b <;> rfl
  | cons c a ih =>
    obtain ⟨⟨st', now⟩, hstep, h⟩ := bind_eq_ok h
    obtain ⟨⟨st'', later⟩, hfeed, h⟩ := bind_eq_ok h
    cases h
    rw [List.cons_append, feed_cons hstep, ih hfeed]
    cases feed st₁ b with
    | error e => rfl
    | ok r => simp [Except.map]

theorem feed_trans (h : feed st a = .ok (st₁, c₁)) (hrest : feed st₁ b = .ok (st₂, c₂)) :
    feed st (a ++ b) = .ok (st₂, c₁ ++ c₂) := by
  rw [feed_append h, hrest]
  rfl

theorem parse_of_feed (h : feed .start a = .ok (st, c₁)) (hend : finish st = .ok c₂) :
    parse a = .ok (c₁ ++ c₂) := by
  rw [parse, h]
  change (finish st >>= fun last => pure (c₁ ++ last)) = _
  rw [hend]
  rfl

example : parse "cd a; echo x\\ y # z".toList =
    .ok [["cd".toList, "a".toList], ["echo".toList, "x y".toList]] := rfl

example : parse "echo $(x)".toList = .error .expansion := rfl

/-- Inside single quotes every character but the quote stands for itself. -/
theorem step_single {c : Char} (hc : c ≠ apostrophe) (words : List Word) (text : List Char) :
    step ⟨words, some ⟨text, true⟩, .single⟩ c =
      .ok (⟨words, some ⟨text ++ [c], true⟩, .single⟩, []) := by
  rw [step]
  rw [if_neg hc]
  rfl

end Rules

end Shell
