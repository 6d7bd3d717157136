import Amber.Image.ReferenceMeaning
import Amber.Lib.IpText

/-!
# Where a token realm can point

A registry that wants a token names the URL to ask for it, and `validate_realm` of
`amber-image/src/registry.rs` looks at that URL before the host sends a request there: it has to be
https, and its host must not be an internal address.  The host is cut out of the text by hand:
up to the path, behind the user information, inside the brackets or before the port.

A URL whose host is an address is kept in its parts (`RealmUrl`).

* `realmHost_text` — the host is found in every such URL.
* `validateRealm_text`, `isInternal_ipv4`, `isInternal_ipv6` — which addresses are let through.
* `realm_inward_iff` — no URL with an internal address is accepted exactly if that address is not an
  IPv6 address that is unique-local, link-local or an internal IPv4 address in disguise.
-/

namespace Amber.Image

open IpText List Option

/-! ## The check -/

/-- The host of what follows the scheme. -/
def realmHost (rest : List Char) : List Char :=
  let authority := rest.takeWhile fun c => c ∉ ['/', '?', '#']
  let hostport :=
    match rsplitOnce '@' authority with
    | some (_, hostport) => hostport
    | none => authority
  match hostport with
  | '[' :: h => h.takeWhile fun c => c ≠ ']'
  | _ => hostport.takeWhile fun c => c ≠ ':'

/-- `localhost`, or an address of this host or its surroundings. -/
def isInternal (host : List Char) : Bool :=
  decide (host.map Char.toLower = "localhost".toList) ||
    (parseIpv4 host).any
      (fun ip => ip.isLoopback || ip.isLinkLocal || ip.isPrivate || ip.isUnspecified) ||
    (parseIpv6 host).any fun ip => ip.isLoopback || ip.isUnspecified

def validateRealm (realm : List Char) : Except ImageError Unit :=
  match "https://".toList.isPrefixOf? realm with
  | none =>
    .error (.fetch (.registry ("token realm must be https: " ++ String.ofList realm)))
  | some rest =>
    if isInternal (realmHost rest) then
      .error (.fetch (.registry
        ("token realm points at an internal address: " ++ String.ofList realm)))
    else .ok ()

/-! ## URLs with an address for a host -/

inductive HostLiteral
  | ipv4 (ip : Ipv4)
  | ipv6 (written : Ipv6Text)

namespace HostLiteral

/-- The address alone. -/
def bare : HostLiteral → List Char
  | ipv4 ip => ip.text
  | ipv6 written => written.text

/-- Dotted, or in brackets. -/
def text : HostLiteral → List Char
  | ipv4 ip => ip.text
  | ipv6 written => '[' :: (written.text ++ [']'])

end HostLiteral

/-- A URL `https://[userinfo@]host[:port][path][?query][#fragment]`. -/
structure RealmUrl where
  userinfo : Option (List Char)
  host : HostLiteral
  port : Option (List Char)
  path : List Char
  query : Option (List Char)
  fragment : Option (List Char)
  userinfo_plain : ∀ u ∈ userinfo, ∀ c ∈ u, c ∉ ['/', '?', '#']
  port_digits : ∀ p ∈ port, ∀ c ∈ p, c.isDigit
  path_absolute : path = [] ∨ path.head? = some '/'

namespace RealmUrl

variable (u : RealmUrl)

def portText : List Char := (u.port.map fun p => ':' :: p).getD []

def hostport : List Char := u.host.text ++ u.portText

def authority : List Char := (u.userinfo.map fun i => i ++ ['@']).getD [] ++ u.hostport

/-- The path, the query and the fragment. -/
def resource : List Char :=
  u.path ++ (u.query.map fun q => '?' :: q).getD [] ++ (u.fragment.map fun f => '#' :: f).getD []

def text : List Char := "https://".toList ++ (u.authority ++ u.resource)

/-! ## The host of a URL -/

variable {u} {c : Char}

theorem mem_portText (h : c ∈ u.portText) : c = ':' ∨ c.isDigit := by
  rw [portText] at h
  cases hport : u.port with
  | none => simp [hport] at h
  | some p =>
    rw [hport] at h
    exact (mem_cons.1 h).imp_right (u.port_digits p hport c)

theorem mem_hostText (h : c ∈ u.host.text) : IpText.Plain c ∨ c = '[' ∨ c = ']' := by
  cases hhost : u.host with
  | ipv4 ip =>
    rw [hhost] at h
    exact .inl (ip.plain_text c h)
  | ipv6 written =>
    rw [hhost] at h
    simp only [HostLiteral.text, mem_cons, mem_append, not_mem_nil, or_false] at h
    rcases h with h | h | h
    · exact .inr (.inl h)
    · exact .inl (written.plain_text c h)
    · exact .inr (.inr h)

/-- What separates the parts of a URL is in no host and in no port. -/
theorem notMem_hostport (h : c ∈ ['/', '?', '#', '@']) : c ∉ u.hostport := by
  have hnot : ∀ c ∈ ['/', '?', '#', '@'],
      ¬ IpText.Plain c ∧ c ≠ '[' ∧ c ≠ ']' ∧ c ≠ ':' ∧ c.isDigit = false := by
    simp only [forall_mem_cons, not_mem_nil, false_implies, implies_true]
    decide
  obtain ⟨hplain, hopen, hclose, hcolon, hdigit⟩ := hnot c h
  rw [hostport, mem_append, not_or]
  constructor
  · intro hmem
    rcases mem_hostText hmem with hmem | hmem | hmem
    · exact hplain hmem
    · exact hopen hmem
    · exact hclose hmem
  · intro hmem
    rcases mem_portText hmem with hmem | hmem
    · exact hcolon hmem
    · exact absurd hmem (hdigit ▸ Bool.false_ne_true)

theorem authority_plain : ∀ c ∈ u.authority, c ∉ ['/', '?', '#'] := by
  intro c hc
  rw [authority, mem_append] at hc
  rcases hc with hc | hc
  · cases hinfo : u.userinfo with
    | none => simp [hinfo] at hc
    | some i =>
      rw [hinfo] at hc
      rcases mem_append.1 hc with hc | hc
      · exact u.userinfo_plain i hinfo c hc
      · rw [mem_singleton.1 hc]
        decide
  · exact fun hsep => notMem_hostport (mem_append_left ['@'] hsep) hc

/-- What follows the authority is set off from it. -/
theorem takeWhile_resource : u.resource.takeWhile (fun c => c ∉ ['/', '?', '#']) = [] := by
  rw [resource]
  rcases u.path_absolute with hpath | hpath
  · rw [hpath]
    cases u.query <;> cases u.fragment <;> rfl
  · obtain ⟨path, hcons⟩ := head?_eq_some_iff.1 hpath
    rw [hcons]
    rfl

theorem rsplitOnce_authority :
    (match rsplitOnce '@' u.authority with
      | some (_, hostport) => hostport
      | none => u.authority) = u.hostport := by
  have hat : '@' ∉ u.hostport := notMem_hostport (by decide)
  rw [authority]
  cases u.userinfo with
  | none =>
    dsimp only [map_none, getD_none, nil_append]
    rw [rsplitOnce_none hat]
  | some i =>
    dsimp only [map_some, getD_some]
    rw [append_assoc, singleton_append, rsplitOnce_self hat]

/-- Up to a character that is not in the first part. -/
theorem takeWhile_ne {a b : List Char} (ha : c ∉ a) (hb : b = [] ∨ b.head? = some c) :
    (a ++ b).takeWhile (fun x => x ≠ c) = a := by
  have hall : ∀ x ∈ a, decide (x ≠ c) = true := fun x hx =>
    decide_eq_true (ne_of_mem_of_not_mem hx ha)
  rw [takeWhile_append_of_pos hall]
  rcases hb with rfl | hb
  · simp
  · obtain ⟨b, rfl⟩ := head?_eq_some_iff.1 hb
    simp

theorem portText_head : u.portText = [] ∨ u.portText.head? = some ':' := by
  rw [portText]
  cases u.port with
  | none => exact .inl rfl
  | some p => exact .inr rfl

/-- The host is found in every URL. -/
theorem realmHost_text : realmHost (u.authority ++ u.resource) = u.host.bare := by
  have hauthority : (u.authority ++ u.resource).takeWhile (fun c => c ∉ ['/', '?', '#']) =
      u.authority := by
    rw [takeWhile_append_of_pos fun c hc => decide_eq_true (authority_plain c hc),
      takeWhile_resource, append_nil]
  unfold realmHost
  dsimp only
  rw [hauthority, rsplitOnce_authority, hostport]
  cases u.host with
  | ipv4 ip =>
    have hcolon : ':' ∉ ip.text := colon_notMem_of_parseIpv4 (parseIpv4_text ip)
    split
    · rename_i h hopen
      have hmem : '[' ∈ ip.text ++ u.portText := hopen ▸ mem_cons_self
      rcases mem_append.1 hmem with hmem | hmem
      · exact absurd (ip.plain_text _ hmem) (by decide)
      · exact absurd (mem_portText hmem) (by decide)
    · exact takeWhile_ne hcolon portText_head
  | ipv6 written =>
    have hclose : ']' ∉ written.text := fun h => absurd (written.plain_text _ h) (by decide)
    dsimp only [HostLiteral.text, HostLiteral.bare, cons_append]
    rw [append_assoc]
    exact takeWhile_ne hclose (.inr rfl)

end RealmUrl

/-! ## What is let through -/

namespace HostLiteral

/-- Loopback, link-local, private or unspecified. -/
def inward4 (ip : Ipv4) : Bool :=
  ip.isLoopback || ip.isLinkLocal || ip.isPrivate || ip.isUnspecified

/-- The address, taken out of its IPv4-mapped form, is one of this host or its surroundings. -/
def inward : HostLiteral → Bool
  | ipv4 ip => inward4 ip
  | ipv6 written =>
    match written.address.toIpv4Mapped with
    | some ip => inward4 ip
    | none =>
      written.address.isLoopback || written.address.isUnicastLinkLocal ||
        written.address.isUniqueLocal || written.address.isUnspecified

/-- An IPv6 address in fc00::/7 or fe80::/10, or the mapped form of an inward IPv4 address. -/
def overlooked : HostLiteral → Bool
  | ipv4 _ => false
  | ipv6 written =>
    written.address.isUnicastLinkLocal || written.address.isUniqueLocal ||
      written.address.toIpv4Mapped.any inward4

end HostLiteral

theorem isInternal_ipv4 {ip : Ipv4} (h : HostLiteral.inward4 ip = true) :
    isInternal ip.text = true := by
  rw [HostLiteral.inward4] at h
  rw [isInternal, parseIpv4_text, any_some, h]
  simp

theorem isInternal_ipv6 (written : Ipv6Text) :
    isInternal written.text = (written.address.isLoopback || written.address.isUnspecified) := by
  have hname : written.text.map Char.toLower ≠ "localhost".toList := fun h => by
    have hcolon : ':' ∈ written.text.map Char.toLower :=
      mem_map.2 ⟨':', written.colon_mem_text, rfl⟩
    rw [h] at hcolon
    exact absurd hcolon (by decide)
  rw [isInternal, decide_eq_false hname, written.parseIpv4_eq_none, parseIpv6_text]
  rfl

theorem validateRealm_text (u : RealmUrl) :
    validateRealm u.text = .ok () ↔ isInternal u.host.bare = false := by
  have hscheme : "https://".toList.isPrefixOf? u.text = some (u.authority ++ u.resource) :=
    isPrefixOf?_eq_some_iff_append_eq.2 rfl
  rw [validateRealm, hscheme]
  dsimp only
  rw [RealmUrl.realmHost_text]
  cases isInternal u.host.bare <;> simp

/-- Only the scheme decides about other URLs. -/
theorem validateRealm_scheme {realm : List Char} (h : ¬ "https://".toList <+: realm) :
    validateRealm realm ≠ .ok () := by
  have hscheme : "https://".toList.isPrefixOf? realm = none :=
    eq_none_iff_forall_ne_some.2 fun rest hrest =>
      h ⟨rest, isPrefixOf?_eq_some_iff_append_eq.1 hrest⟩
  rw [validateRealm, hscheme]
  rintro ⟨⟩

/-! ## Inward addresses -/

namespace HostLiteral

/-- A mapped address starts with zeros. -/
theorem head_of_mapped {address : Ipv6} {ip : Ipv4} (h : address.toIpv4Mapped = some ip) :
    address.segments.head? = some 0 := by
  unfold Ipv6.toIpv4Mapped at h
  split at h
  · rename_i hsegments
    rw [hsegments]
    rfl
  · cases h

theorem inward_of_overlooked {host : HostLiteral} (h : host.overlooked = true) :
    host.inward = true := by
  cases host with
  | ipv4 ip => cases h
  | ipv6 written =>
    rw [overlooked] at h
    rw [inward]
    cases hmapped : written.address.toIpv4Mapped with
    | some ip =>
      -- zeros in front leave only the third of the three ways to be overlooked
      have hlocal : written.address.isUnicastLinkLocal = false := by
        rw [Ipv6.isUnicastLinkLocal, head_of_mapped hmapped]
        rfl
      have hunique : written.address.isUniqueLocal = false := by
        rw [Ipv6.isUniqueLocal, head_of_mapped hmapped]
        rfl
      rw [hlocal, hunique, hmapped] at h
      exact h
    | none =>
      rw [hmapped] at h
      simp only [any_none, Bool.or_false, Bool.or_eq_true] at h ⊢
      rcases h with h | h
      · exact .inl (.inl (.inr h))
      · exact .inl (.inr h)

theorem inward_ipv6 {written : Ipv6Text} (h : (ipv6 written).overlooked = false)
    (hown : (written.address.isLoopback || written.address.isUnspecified) = false) :
    (ipv6 written).inward = false := by
  rw [overlooked, Bool.or_eq_false_iff, Bool.or_eq_false_iff] at h
  rw [Bool.or_eq_false_iff] at hown
  rw [inward]
  cases hmapped : written.address.toIpv4Mapped with
  | some ip =>
    rw [hmapped] at h
    exact h.2
  | none =>
    rw [hown.1, hown.2, h.1.1, h.1.2]
    rfl

/-- The two addresses that are refused are not among the overlooked ones. -/
theorem not_overlooked {written : Ipv6Text}
    (h : (written.address.isLoopback || written.address.isUnspecified) = true) :
    (ipv6 written).overlooked = false := by
  rw [Bool.or_eq_true] at h
  rcases h with h | h
  · have hsegments : written.address.segments = [0, 0, 0, 0, 0, 0, 0, 1] := of_decide_eq_true h
    simp [overlooked, Ipv6.isUnicastLinkLocal, Ipv6.isUniqueLocal, Ipv6.toIpv4Mapped, hsegments]
  · have hsegments : written.address.segments = [0, 0, 0, 0, 0, 0, 0, 0] := of_decide_eq_true h
    simp [overlooked, Ipv6.isUnicastLinkLocal, Ipv6.isUniqueLocal, Ipv6.toIpv4Mapped, hsegments]

end HostLiteral

/-- **A realm with an address for a host cannot point inward exactly if the address is not an
overlooked IPv6 address**; and no realm is accepted without https. -/
theorem realm_inward_iff (u : RealmUrl) :
    ((validateRealm u.text = .ok () → u.host.inward = false) ↔ u.host.overlooked = false) ∧
      ∀ realm, ¬ "https://".toList <+: realm → validateRealm realm ≠ .ok () := by
  refine ⟨?_, fun realm h => validateRealm_scheme h⟩
  rw [validateRealm_text]
  cases u.host with
  | ipv4 ip =>
    refine ⟨fun _ => rfl, fun _ haccepted => ?_⟩
    rw [← Bool.not_eq_true]
    intro hinward
    exact Bool.false_ne_true (haccepted.symm.trans (isInternal_ipv4 hinward))
  | ipv6 written =>
    dsimp only [HostLiteral.bare]
    rw [isInternal_ipv6]
    refine ⟨fun h => ?_, fun h haccepted => HostLiteral.inward_ipv6 h haccepted⟩
    by_contra hover
    rw [Bool.not_eq_false] at hover
    have haccepted : (written.address.isLoopback || written.address.isUnspecified) = false := by
      rw [← Bool.not_eq_true]
      intro hown
      exact Bool.false_ne_true ((HostLiteral.not_overlooked hown).symm.trans hover)
    exact Bool.false_ne_true ((h haccepted).symm.trans (HostLiteral.inward_of_overlooked hover))

section

local instance neZeroOctet : NeZero 256 := ⟨by decide⟩

def mappedLoopbackText : Ipv6Text :=
  .elided [] ⟨[⟨"ffff".toList, by decide, by decide, by decide⟩], some ⟨127, 0, 0, 1⟩⟩ (by decide)

end

/-- `https://[::ffff:127.0.0.1]/token`. -/
def mappedLoopback : RealmUrl where
  userinfo := none
  host := .ipv6 mappedLoopbackText
  port := none
  path := "/token".toList
  query := none
  fragment := none
  userinfo_plain := by simp
  port_digits := by simp
  path_absolute := .inr rfl

/-- **The loopback address is let through in its IPv6 form.** -/
theorem mapped_loopback_accepted :
    mappedLoopback.text = "https://[::ffff:127.0.0.1]/token".toList ∧
      mappedLoopback.host.inward = true ∧ validateRealm mappedLoopback.text = .ok () := by
  have hinternal : isInternal mappedLoopbackText.text = false := by
    decide
  exact ⟨rfl, by decide, (validateRealm_text mappedLoopback).2 hinternal⟩

end Amber.Image
