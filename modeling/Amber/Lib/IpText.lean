import Amber.Lib.Digits
import Mathlib.Data.List.Basic

/-!
# Internet addresses as text

The textual forms of IPv4 and IPv6 addresses, and a reader for them that works from left to right:
a number is read as far as its digits go, the groups of an IPv6 address as far as there are
groups, each first tried as an IPv4 address that ends the run.  An octet has at most three digits
and no zero in front, a group at most four hexadecimal digits in either case, and `::` stands for
at least one group of zeros.

The forms are kept in parts (`Ipv6Text`), so that every way to write an address is there.

* `parseIpv4_text`, `parseIpv6_text` — every form is read as the address it stands for.
* `colon_notMem_of_parseIpv4` — no text with a colon is an IPv4 address.
* `Ipv4.isLoopback` and the others — the special ranges.
-/

namespace IpText

open Digits List Option

/-! ## Readers -/

/-- A number of at most `maxDigits` digits below `bound`. -/
def readNumber (radix maxDigits : ℕ) (allowZero : Bool) (bound : ℕ) (s : List Char) :
    Option (Fin bound × List Char) :=
  match readDigits radix maxDigits 0 0 s with
  | none => none
  | some (v, count, rest) =>
    if count = 0 then none
    -- a number with a zero in front might be meant as an octal one
    else if allowZero = false ∧ s.head? = some '0' ∧ 1 < count then none
    else if h : v < bound then some (⟨v, h⟩, rest) else none

def readChar (c : Char) : List Char → Option (List Char)
  | [] => none
  | x :: s => if x = c then some s else none

structure Ipv4 where
  a : Fin 256
  b : Fin 256
  c : Fin 256
  d : Fin 256
  deriving DecidableEq

def readOctet (s : List Char) : Option (Fin 256 × List Char) := readNumber 10 3 false 256 s

/-- An octet behind a dot. -/
def readDotOctet (s : List Char) : Option (Fin 256 × List Char) := (readChar '.' s).bind readOctet

def readIpv4 (s : List Char) : Option (Ipv4 × List Char) :=
  (readOctet s).bind fun (a, s) =>
    (readDotOctet s).bind fun (b, s) =>
      (readDotOctet s).bind fun (c, s) =>
        (readDotOctet s).map fun (d, s) => (⟨a, b, c, d⟩, s)

def parseIpv4 (s : List Char) : Option Ipv4 :=
  match readIpv4 s with
  | some (ip, []) => some ip
  | _ => none

/-- The two groups of an IPv4 address at the end of an IPv6 one. -/
def Ipv4.groups (ip : Ipv4) : List (Fin 65536) :=
  [⟨ip.a * 256 + ip.b, by omega⟩, ⟨ip.c * 256 + ip.d, by omega⟩]

def readGroup (s : List Char) : Option (Fin 65536 × List Char) := readNumber 16 4 true 65536 s

/-- What stands behind a colon, except for the first. -/
def readSeparated {α : Type} (first : Bool) (inner : List Char → Option α) (s : List Char) :
    Option α :=
  if first then inner s else (readChar ':' s).bind inner

/-- A run of at most `left` groups, and whether an IPv4 address ended it. -/
def readGroups : (left : ℕ) → (first : Bool) → List Char → List (Fin 65536) × Bool × List Char
  | 0, _, s => ([], false, s)
  | left + 1, first, s =>
    match if 1 ≤ left then readSeparated first readIpv4 s else none with
    | some (ip, rest) => (ip.groups, true, rest)
    | none =>
      match readSeparated first readGroup s with
      | some (g, rest) =>
        let r := readGroups left false rest
        (g :: r.1, r.2)
      | none => ([], false, s)

theorem readGroups_length_le (left : ℕ) (first : Bool) (s : List Char) :
    (readGroups left first s).1.length ≤ left := by
  induction left generalizing first s with
  | zero => exact Nat.zero_le _
  | succ left ih =>
    rw [readGroups]
    split
    · rename_i ip rest hip
      split_ifs at hip
      · change 2 ≤ left + 1
        omega
    · split
      · rename_i g rest _
        have hrest := ih false rest
        simp only [length_cons]
        omega
      · exact Nat.zero_le _

structure Ipv6 where
  segments : List (Fin 65536)
  size : segments.length = 8
  deriving DecidableEq

/-- The address with zeros between its two ends. -/
def Ipv6.filled (head tail : List (Fin 65536)) (h : head.length + tail.length ≤ 7) : Ipv6 where
  segments := head ++ List.replicate (8 - (head.length + tail.length)) 0 ++ tail
  size := by
    simp only [List.length_append, List.length_replicate]
    omega

def readIpv6 (s : List Char) : Option (Ipv6 × List Char) :=
  if h8 : (readGroups 8 true s).1.length = 8 then
    some (⟨(readGroups 8 true s).1, h8⟩, (readGroups 8 true s).2.2)
  -- no IPv4 address in front of the zeros
  else if (readGroups 8 true s).2.1 then none
  else
    match (readGroups 8 true s).2.2 with
    | ':' :: ':' :: rest =>
      let head := (readGroups 8 true s).1
      let tail := readGroups (7 - head.length) true rest
      some (Ipv6.filled head tail.1 (by
        have hhead : head.length ≤ 8 := readGroups_length_le 8 true s
        have hne : head.length ≠ 8 := h8
        have htail : tail.1.length ≤ 7 - head.length := readGroups_length_le _ true rest
        omega), tail.2.2)
    | _ => none

def parseIpv6 (s : List Char) : Option Ipv6 :=
  match readIpv6 s with
  | some (ip, []) => some ip
  | _ => none

/-! ## Written IPv4 addresses -/

/-- An octet without zeros in front. -/
def octetText (n : Fin 256) : List Char :=
  fixed 10 (if n.val < 10 then 1 else if n.val < 100 then 2 else 3) n

def Ipv4.text (ip : Ipv4) : List Char :=
  octetText ip.a ++ '.' :: (octetText ip.b ++ '.' :: (octetText ip.c ++ '.' :: octetText ip.d))

variable (n : Fin 256)

theorem isDigit_octetText : ∀ c ∈ octetText n, IsDigit 10 c :=
  isDigit_fixed (by decide) (by decide) _ _

theorem length_octetText : 1 ≤ (octetText n).length ∧ (octetText n).length ≤ 3 := by
  rw [octetText, length_fixed]
  split_ifs <;> simp

theorem value_octetText : value 10 (octetText n) = n := by
  rw [octetText, value_fixed (by decide) (by decide)]
  refine Nat.mod_eq_of_lt ?_
  split_ifs <;> omega

theorem head_octetText : ∀ n : Fin 256, (octetText n).head? = some '0' →
    (octetText n).length = 1 := by decide +kernel

variable {rest s : List Char} {left : ℕ} (run : Run) (ip : Ipv4)

theorem readOctet_octetText (hrest : Ends 10 rest) :
    readOctet (octetText n ++ rest) = some (n, rest) := by
  obtain ⟨hpos, hshort⟩ := length_octetText n
  have hhead : (octetText n ++ rest).head? = (octetText n).head? :=
    head?_append_of_ne_nil _ (length_pos_iff.1 hpos)
  have hzero : ¬ ((octetText n).head? = some '0' ∧ 1 < (octetText n).length) := fun h => by
    have := head_octetText n h.1
    omega
  rw [readOctet, readNumber, readDigits_append 0 0 (isDigit_octetText n) (by omega) hrest, ← value,
    value_octetText, hhead]
  dsimp only
  rw [if_neg (by omega), if_neg (by simpa using hzero), dif_pos n.isLt]

theorem readDotOctet_octetText (hrest : Ends 10 rest) :
    readDotOctet ('.' :: (octetText n ++ rest)) = some (n, rest) :=
  readOctet_octetText n hrest

theorem readIpv4_text (hrest : Ends 10 rest) :
    readIpv4 (ip.text ++ rest) = some (ip, rest) := by
  have hdot : ∀ s, Ends 10 ('.' :: s) := ends_cons (by decide)
  simp [readIpv4, Ipv4.text, readOctet_octetText _ (hdot _), readDotOctet_octetText _ (hdot _),
    readDotOctet_octetText _ hrest]

/-- **Every IPv4 address is read from its text.** -/
theorem parseIpv4_text : parseIpv4 ip.text = some ip := by
  have h := readIpv4_text ip (ends_nil 10)
  rw [append_nil] at h
  rw [parseIpv4, h]

/-! ## What an IPv4 address is not -/

theorem readNumber_consumes {radix maxDigits bound : ℕ} {allowZero : Bool}
    {n : Fin bound} (h : readNumber radix maxDigits allowZero bound s = some (n, rest)) :
    ∃ ds, s = ds ++ rest ∧ (∀ c ∈ ds, IsDigit radix c) ∧ Ends radix rest := by
  rw [readNumber] at h
  split at h
  · cases h
  · rename_i v count rest' hread
    split_ifs at h
    cases h
    exact readDigits_consumes hread

theorem readChar_eq_some {c : Char} (h : readChar c s = some rest) :
    s = c :: rest := by
  cases s with
  | nil => cases h
  | cons x s =>
    rw [readChar] at h
    split_ifs at h with hx
    cases h
    rw [hx]

/-- What reads a piece without a colon. -/
def ReadsNoColon {α : Type} (read : List Char → Option (α × List Char)) : Prop :=
  ∀ s v rest, read s = some (v, rest) → ∃ piece, s = piece ++ rest ∧ ':' ∉ piece

theorem readOctet_noColon : ReadsNoColon readOctet := fun s v rest h => by
  obtain ⟨ds, hs, hds, -⟩ := readNumber_consumes h
  exact ⟨ds, hs, fun hc => absurd (hds _ hc) (by decide)⟩

theorem readDotOctet_noColon : ReadsNoColon readDotOctet := fun s v rest h => by
  obtain ⟨s', hdot, hoctet⟩ := bind_eq_some_iff.1 h
  obtain ⟨piece, rfl, hpiece⟩ := readOctet_noColon _ _ _ hoctet
  refine ⟨'.' :: piece, readChar_eq_some hdot, ?_⟩
  simp [hpiece]

theorem readIpv4_noColon : ReadsNoColon readIpv4 := fun s v rest h => by
  obtain ⟨⟨a, s₁⟩, ha, h⟩ := bind_eq_some_iff.1 h
  obtain ⟨⟨b, s₂⟩, hb, h⟩ := bind_eq_some_iff.1 h
  obtain ⟨⟨c, s₃⟩, hc, h⟩ := bind_eq_some_iff.1 h
  obtain ⟨⟨d, s₄⟩, hd, h⟩ := map_eq_some_iff.1 h
  cases h
  obtain ⟨pa, rfl, hpa⟩ := readOctet_noColon _ _ _ ha
  obtain ⟨pb, rfl, hpb⟩ := readDotOctet_noColon _ _ _ hb
  obtain ⟨pc, rfl, hpc⟩ := readDotOctet_noColon _ _ _ hc
  obtain ⟨pd, rfl, hpd⟩ := readDotOctet_noColon _ _ _ hd
  refine ⟨pa ++ (pb ++ (pc ++ pd)), by simp, ?_⟩
  simp [hpa, hpb, hpc, hpd]

theorem colon_notMem_of_parseIpv4 {ip : Ipv4} (h : parseIpv4 s = some ip) :
    ':' ∉ s := by
  unfold parseIpv4 at h
  split at h
  · rename_i ip' hread
    obtain ⟨piece, rfl, hpiece⟩ := readIpv4_noColon _ _ _ hread
    simpa using hpiece
  · cases h

/-- What starts with no digit starts with no number. -/
theorem readNumber_of_ends {radix : ℕ} (h : Ends radix s) (maxDigits bound : ℕ)
    (allowZero : Bool) : readNumber radix maxDigits allowZero bound s = none := by
  have hread : readDigits radix maxDigits 0 0 ([] ++ s) =
      some (valueFrom radix 0 [], 0 + 0, s) :=
    readDigits_append 0 0 (by simp) (by simp) h
  rw [nil_append] at hread
  rw [readNumber, hread]
  rfl

theorem readOctet_of_ends (h : Ends 10 s) : readOctet s = none :=
  readNumber_of_ends h 3 256 false

/-- Hexadecimal digits up to a colon or to the end are no IPv4 address. -/
theorem readIpv4_of_digits {ds : List Char} (hds : ∀ c ∈ ds, IsDigit 16 c)
    (hrest : rest.head? = none ∨ rest.head? = some ':') : readIpv4 (ds ++ rest) = none := by
  rw [readIpv4]
  cases hoctet : readOctet (ds ++ rest) with
  | none => rfl
  | some r =>
    obtain ⟨a, s⟩ := r
    obtain ⟨octet, happend, hoctets, -⟩ := readNumber_consumes hoctet
    have hdot : readDotOctet s = none := by
      rw [readDotOctet]
      cases hchar : readChar '.' s with
      | none => rfl
      | some s' =>
        rw [readChar_eq_some hchar] at happend
        rcases append_eq_append_iff.1 happend with ⟨more, hmore, hs⟩ | ⟨more, hmore, hs⟩
        · -- the octet would go on into what follows
          cases more with
          | nil => simp [hs] at hrest
          | cons x more =>
            rw [hs, cons_append, head?_cons] at hrest
            have hx : IsDigit 10 x := hoctets x (by simp [hmore])
            rcases hrest with hrest | hrest
            · cases hrest
            · cases hrest
              exact absurd hx (by decide)
        · -- the dot would be among the digits
          cases more with
          | nil =>
            rw [nil_append] at hs
            simp [← hs] at hrest
          | cons x more =>
            obtain rfl : '.' = x := (cons.inj hs).1
            exact absurd (hds '.' (by simp [hmore])) (by decide)
    dsimp only [bind_some]
    rw [hdot]
    rfl

/-! ## Written IPv6 addresses -/

/-- One to four hexadecimal digits. -/
structure Group where
  chars : List Char
  digits : ∀ c ∈ chars, IsDigit 16 c
  pos : 1 ≤ chars.length
  short : chars.length ≤ 4

def Group.value (g : Group) : Fin 65536 :=
  ⟨Digits.value 16 g.chars, by
    calc valueFrom 16 0 g.chars
        < (0 + 1) * 16 ^ g.chars.length := valueFrom_lt (by decide) 0 g.chars
      _ = 16 ^ g.chars.length := by rw [Nat.zero_add, Nat.one_mul]
      _ ≤ 16 ^ 4 := Nat.pow_le_pow_right (by decide) g.short⟩

/-- Groups, and an IPv4 address at the end of them if there is one. -/
structure Run where
  groups : List Group
  dotted : Option Ipv4

namespace Run

def pieces (run : Run) : List (List Char) :=
  run.groups.map Group.chars ++ (run.dotted.map Ipv4.text).toList

/-- The pieces, each behind a colon. -/
def colons (run : Run) : List Char := run.pieces.flatMap fun piece => ':' :: piece

/-- The pieces with colons between them. -/
def text (run : Run) : List Char := run.colons.tail

def words (run : Run) : List (Fin 65536) :=
  run.groups.map Group.value ++ (run.dotted.map Ipv4.groups).getD []

end Run

theorem readGroup_chars (g : Group) (hrest : Ends 16 rest) :
    readGroup (g.chars ++ rest) = some (g.value, rest) := by
  have hpos := g.pos
  rw [readGroup, readNumber, readDigits_append 0 0 g.digits (by have := g.short; omega) hrest]
  dsimp only
  rw [if_neg (by omega), if_neg (by simp)]
  exact dif_pos g.value.isLt

/-- At the end or at a colon. -/
def AtColon (rest : List Char) : Prop := rest.head? = none ∨ rest.head? = some ':'

theorem AtColon.ends (h : AtColon rest) (radix : ℕ) : Ends radix rest := by
  intro c hc
  rcases h with h | h
  · rw [h] at hc
    cases hc
  · rw [h] at hc
    cases hc
    exact filter_none _

/-- Where a run of groups stops. -/
def Stops (rest : List Char) : Prop := rest = [] ∨ ∃ s, rest = ':' :: ':' :: s

theorem Stops.atColon (h : Stops rest) : AtColon rest := by
  rcases h with rfl | ⟨s, rfl⟩
  · exact .inl rfl
  · exact .inr rfl

theorem atColon_colons (hrest : AtColon rest) :
    AtColon (run.colons ++ rest) := by
  rw [Run.colons]
  cases run.pieces with
  | nil => exact hrest
  | cons piece pieces => exact .inr rfl

theorem readGroup_of_ends (h : Ends 16 s) : readGroup s = none :=
  readNumber_of_ends h 4 65536 true

theorem readIpv4_of_ends (h : Ends 10 s) : readIpv4 s = none := by
  rw [readIpv4, readOctet_of_ends h]
  rfl

/-- No piece starts at a colon. -/
theorem readGroups_of_atColon (h : AtColon s) (left : ℕ) :
    readGroups left true s = ([], false, s) := by
  cases left with
  | zero => rfl
  | succ left =>
    simp [readGroups, readSeparated, readIpv4_of_ends (h.ends 10), readGroup_of_ends (h.ends 16)]

theorem readGroups_of_stops (h : Stops s) (left : ℕ) :
    readGroups left false s = ([], false, s) := by
  cases left with
  | zero => rfl
  | succ left =>
    rcases h with rfl | ⟨s, rfl⟩
    · simp [readGroups, readSeparated, readChar]
    · have hcolon : AtColon (':' :: s) := .inr rfl
      simp [readGroups, readSeparated, readChar, readIpv4_of_ends (hcolon.ends 10),
        readGroup_of_ends (hcolon.ends 16)]

/-- A run behind a colon is read to its end. -/
theorem readGroups_colons (hleft : run.words.length ≤ left) (hrest : Stops rest) :
    readGroups left false (run.colons ++ rest) = (run.words, run.dotted.isSome, rest) := by
  obtain ⟨groups, dotted⟩ := run
  induction groups generalizing left with
  | nil =>
    cases dotted with
    | none => exact readGroups_of_stops hrest left
    | some ip =>
      obtain ⟨left, rfl⟩ : ∃ n, left = n + 2 := Nat.exists_eq_add_of_le' hleft
      have hcolons : (Run.mk [] (some ip)).colons ++ rest = ':' :: (ip.text ++ rest) := by
        simp [Run.colons, Run.pieces]
      rw [hcolons, readGroups]
      simp only [readSeparated, readChar, bind_some, if_true, Bool.false_eq_true, if_false,
        readIpv4_text ip (hrest.atColon.ends 10), Nat.le_add_left]
      rfl
  | cons g groups ih =>
    have hwords : (Run.mk (g :: groups) dotted).words =
        g.value :: (Run.mk groups dotted).words := rfl
    have hcolons : (Run.mk (g :: groups) dotted).colons ++ rest =
        ':' :: (g.chars ++ ((Run.mk groups dotted).colons ++ rest)) := by
      simp [Run.colons, Run.pieces]
    obtain ⟨left, rfl⟩ : ∃ n, left = n + 1 :=
      Nat.exists_eq_add_of_le' ((Nat.le_add_left 1 _).trans hleft)
    have htail := atColon_colons (Run.mk groups dotted) hrest.atColon
    rw [hcolons, hwords, readGroups]
    simp [readSeparated, readChar, readIpv4_of_digits g.digits htail,
      readGroup_chars g (htail.ends 16), ih (Nat.le_of_succ_le_succ hleft)]

/-- At the beginning of a run no colon is missing. -/
theorem readGroups_first (h : (readGroups left false (':' :: s)).1 ≠ []) :
    readGroups left true s = readGroups left false (':' :: s) := by
  cases left with
  | zero => exact absurd rfl h
  | succ left =>
    simp only [readGroups, readSeparated, readChar, bind_some, if_true, Bool.false_eq_true,
      if_false] at h ⊢
    split
    · rfl
    · split
      · rfl
      · rename_i hip _ hgroup
        rw [hip, hgroup] at h
        exact absurd rfl h

/-- A run is read to its end. -/
theorem readGroups_text (hleft : run.words.length ≤ left) (hrest : Stops rest) :
    readGroups left true (run.text ++ rest) = (run.words, run.dotted.isSome, rest) := by
  have hcolons := readGroups_colons run hleft hrest
  obtain hempty | ⟨hsome, hwords⟩ :
      run = ⟨[], none⟩ ∨ run.colons = ':' :: run.text ∧ run.words ≠ [] := by
    obtain ⟨_ | ⟨g, groups⟩, _ | ip⟩ := run
    · exact .inl rfl
    · exact .inr ⟨rfl, cons_ne_nil _ _⟩
    · exact .inr ⟨rfl, cons_ne_nil _ _⟩
    · exact .inr ⟨rfl, cons_ne_nil _ _⟩
  · rw [hempty]
    exact readGroups_of_atColon hrest.atColon left
  · rw [hsome, cons_append] at hcolons
    rw [readGroups_first (by rwa [hcolons]), hcolons]

/-- The ways to write an IPv6 address: in full, or with `::` for at least one group. -/
inductive Ipv6Text
  | full (run : Run) (size : run.words.length = 8)
  | elided (head : List Group) (run : Run) (size : head.length + run.words.length ≤ 7)

namespace Ipv6Text

def text : Ipv6Text → List Char
  | full run _ => run.text
  | elided head run _ => (Run.mk head none).text ++ ':' :: ':' :: run.text

def address : Ipv6Text → Ipv6
  | full run size => ⟨run.words, size⟩
  | elided head run size => Ipv6.filled (head.map Group.value) run.words (by simpa using size)

end Ipv6Text

theorem readIpv6_full {groups : List (Fin 65536)} {dotted : Bool}
    (h : readGroups 8 true s = (groups, dotted, rest)) (h8 : groups.length = 8) :
    readIpv6 s = some (⟨groups, h8⟩, rest) := by
  unfold readIpv6
  simp [h, h8]

theorem readIpv6_elided {rest' : List Char} {head tail : List (Fin 65536)} {dotted : Bool}
    (hhead : readGroups 8 true s = (head, false, ':' :: ':' :: rest))
    (htail : readGroups (7 - head.length) true rest = (tail, dotted, rest'))
    (hsize : head.length + tail.length ≤ 7) :
    readIpv6 s = some (Ipv6.filled head tail hsize, rest') := by
  have hne : ¬ head.length = 8 := by omega
  unfold readIpv6
  simp [hhead, hne, htail]

/-- **Every form of an IPv6 address is read as the address it stands for.** -/
theorem parseIpv6_text (t : Ipv6Text) : parseIpv6 t.text = some t.address := by
  have hread : readIpv6 t.text = some (t.address, []) := by
    cases t with
    | full run size =>
      have hrun := readGroups_text run size.le (.inl rfl)
      rw [append_nil] at hrun
      exact readIpv6_full hrun size
    | elided head run size =>
      have hhead : readGroups 8 true ((Run.mk head none).text ++ ':' :: ':' :: run.text) =
          ((Run.mk head none).words, false, ':' :: ':' :: run.text) :=
        readGroups_text _ (by simp [Run.words]; omega) (.inr ⟨_, rfl⟩)
      have hwords : (Run.mk head none).words = head.map Group.value := by simp [Run.words]
      rw [hwords] at hhead
      have hrun : readGroups (7 - (head.map Group.value).length) true (run.text ++ []) = _ :=
        readGroups_text run (by rw [length_map]; omega) (.inl rfl)
      rw [append_nil] at hrun
      exact readIpv6_elided hhead hrun (by simpa using size)
  rw [parseIpv6, hread]

/-! ## The characters of an address -/

/-- What the texts of addresses are made of. -/
def Plain (c : Char) : Prop := IsDigit 16 c ∨ c = ':' ∨ c = '.'

instance (c : Char) : Decidable (Plain c) :=
  inferInstanceAs (Decidable (IsDigit 16 c ∨ c = ':' ∨ c = '.'))

theorem plain_octetText {c : Char} (h : c ∈ octetText n) : Plain c := by
  obtain ⟨d, hd⟩ := isSome_iff_exists.1 (isDigit_octetText n c h)
  obtain ⟨hrank, hlt⟩ := filter_eq_some_iff.1 hd
  have h16 : toDigit 16 c = some d :=
    filter_eq_some_iff.2 ⟨hrank, decide_eq_true ((of_decide_eq_true hlt).trans (by decide))⟩
  exact .inl (isSome_iff_exists.2 ⟨d, h16⟩)

theorem Ipv4.plain_text : ∀ c ∈ ip.text, Plain c := by
  intro c hc
  simp only [Ipv4.text, mem_append, mem_cons] at hc
  rcases hc with h | h | h | h | h | h | h
  · exact plain_octetText _ h
  · exact .inr (.inr h)
  · exact plain_octetText _ h
  · exact .inr (.inr h)
  · exact plain_octetText _ h
  · exact .inr (.inr h)
  · exact plain_octetText _ h

theorem Run.plain_text : ∀ c ∈ run.text, Plain c := by
  intro c hc
  obtain ⟨piece, hpiece, hc⟩ := mem_flatMap.1 (mem_of_mem_tail hc)
  rcases mem_cons.1 hc with rfl | hc
  · exact .inr (.inl rfl)
  · rcases mem_append.1 hpiece with hgroup | hdotted
    · obtain ⟨g, -, rfl⟩ := mem_map.1 hgroup
      exact .inl (g.digits c hc)
    · rw [mem_toList] at hdotted
      obtain ⟨ip, -, rfl⟩ := map_eq_some_iff.1 hdotted
      exact ip.plain_text c hc

namespace Ipv6Text

variable (t : Ipv6Text)

theorem plain_text : ∀ c ∈ t.text, Plain c := by
  intro c hc
  cases t with
  | full run size => exact run.plain_text c hc
  | elided head run size =>
    simp only [text, mem_append, mem_cons] at hc
    rcases hc with h | h | h | h
    · exact (Run.mk head none).plain_text c h
    · exact .inr (.inl h)
    · exact .inr (.inl h)
    · exact run.plain_text c h

theorem colon_mem_text : ':' ∈ t.text := by
  cases t with
  | full run size =>
    obtain ⟨_ | ⟨g, _ | ⟨g', groups⟩⟩, dotted⟩ := run
    · cases dotted <;> cases size
    · cases dotted <;> cases size
    · simp [text, Run.text, Run.colons, Run.pieces]
  | elided head run size => simp [text]

/-- No text of an IPv6 address is one of an IPv4 address. -/
theorem parseIpv4_eq_none : parseIpv4 t.text = none :=
  eq_none_iff_forall_ne_some.2 fun _ h => colon_notMem_of_parseIpv4 h t.colon_mem_text

end Ipv6Text

/-! ## Special ranges -/

namespace Ipv4

variable (ip : Ipv4)

/-- 127.0.0.0/8. -/
def isLoopback : Bool := decide (ip.a = 127)

/-- 169.254.0.0/16. -/
def isLinkLocal : Bool := decide (ip.a = 169 ∧ ip.b = 254)

/-- 10.0.0.0/8, 172.16.0.0/12 and 192.168.0.0/16. -/
def isPrivate : Bool :=
  decide (ip.a = 10) || decide (ip.a = 172 ∧ 16 ≤ ip.b ∧ ip.b ≤ 31) ||
    decide (ip.a = 192 ∧ ip.b = 168)

def isUnspecified : Bool := decide (ip = ⟨0, 0, 0, 0⟩)

end Ipv4

namespace Ipv6

variable (ip : Ipv6)

def isLoopback : Bool := decide (ip.segments = [0, 0, 0, 0, 0, 0, 0, 1])

def isUnspecified : Bool := decide (ip.segments = [0, 0, 0, 0, 0, 0, 0, 0])

/-- fc00::/7. -/
def isUniqueLocal : Bool := ip.segments.head?.any fun s => decide (0xfc00 ≤ s ∧ s ≤ 0xfdff)

/-- fe80::/10. -/
def isUnicastLinkLocal : Bool := ip.segments.head?.any fun s => decide (0xfe80 ≤ s ∧ s ≤ 0xfebf)

/-- The IPv4 address in `::ffff:a.b.c.d`. -/
def toIpv4Mapped : Option Ipv4 :=
  match ip.segments with
  | [0, 0, 0, 0, 0, 0xffff, ab, cd] =>
    some ⟨⟨ab / 256, by omega⟩, ⟨ab % 256, by omega⟩, ⟨cd / 256, by omega⟩, ⟨cd % 256, by omega⟩⟩
  | _ => none

end Ipv6

end IpText
