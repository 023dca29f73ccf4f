import Mathlib.Data.List.Basic
import TradingBot.Http.Client

/-!
# Addresses under a base

**Reading in two steps** (`Http.Url.stripped`). A text loses what may stand around an address, and
then scheme, host and path are read off it.

**What ends a host.** A slash is no part of a scheme, and it ends a host. So scheme and host are
read off the part of an address that stands before a slash, whatever follows it.

**Theorem (`Http.Link.Serves.under`).** If a base with a slash behind it is an address on some host,
so is every text that goes on from there, on the same host (`Http.Url.parse_under`). A link that
serves the one serves them all.
-/

namespace TradingBot.Http

namespace Url

/-! ## Reading in two steps -/

/-- A character that is ignored at both ends of an address. -/
def isEdge (c : Char) : Bool := c.toNat ≤ 0x20

/-- A character that is not ignored everywhere. -/
def isKept (c : Char) : Bool := !(c == '\t' || c == '\n' || c == '\r')

/-- What is left of a text once ignored characters are gone. -/
def stripped (cs : List Char) : List Char :=
  ((cs.dropWhile isEdge).reverse.dropWhile isEdge).reverse.filter isKept

theorem stripped_eq (text : String) :
    (((text.toList.dropWhile fun c => c.toNat ≤ 0x20).reverse.dropWhile
      fun c => c.toNat ≤ 0x20).reverse.filter fun c => !(c == '\t' || c == '\n' || c == '\r')) =
      stripped text.toList := rfl

/-! ## What ends a host -/

section

variable {p : Char → Bool} {c : Char}

theorem takeWhile_append_cons (hc : p c = false) (l r : List Char) :
    (l ++ c :: r).takeWhile p = l.takeWhile p := by
  induction l with
  | nil => simp [hc]
  | cons d l ih =>
    rw [List.cons_append, List.takeWhile_cons, List.takeWhile_cons, ih]

theorem dropWhile_append_cons (hc : p c = false) (l r : List Char) :
    (l ++ c :: r).dropWhile p = l.dropWhile p ++ c :: r := by
  induction l with
  | nil => simp [hc]
  | cons d l ih =>
    rw [List.cons_append, List.dropWhile_cons, List.dropWhile_cons, ih]
    split <;> rfl

end

/-- What stands before a slash is stripped on its own. -/
theorem stripped_append_slash (l : List Char) : ∃ front, stripped (l ++ ['/']) = front ++ ['/'] ∧
    ∀ r, ∃ back, stripped (l ++ '/' :: r) = front ++ '/' :: back := by
  have hall (r : List Char) : stripped (l ++ '/' :: r) = (l.dropWhile isEdge).filter isKept ++
      '/' :: (r.reverse.dropWhile isEdge).reverse.filter isKept := by
    rw [stripped, dropWhile_append_cons (by decide), List.reverse_append, List.reverse_cons,
      List.append_assoc, List.singleton_append, dropWhile_append_cons (by decide),
      List.reverse_append, List.reverse_cons, List.reverse_reverse, List.append_assoc,
      List.singleton_append, List.filter_append, List.filter_cons_of_pos (by decide)]
  exact ⟨_, hall [], fun r => ⟨_, hall r⟩⟩

def isSlash (c : Char) : Bool := c == '/' || c == '\\'

def endsHost (c : Char) : Bool := isSlash c || c == '?' || c == '#'

/-- The host with its port, as it is written. -/
def hostText (cs : List Char) : List Char := (cs.dropWhile isSlash).takeWhile (!endsHost ·)

theorem exists_parseHierarchical (scheme : String) (port : Nat) (cs : List Char) : ∃ path,
    parseHierarchical scheme port cs =
      (parseHost port (hostText cs)).map fun host => { scheme, host := some host, path } := by
  unfold parseHierarchical
  refine ⟨String.ofList (normalRest ((cs.dropWhile isSlash).dropWhile (!endsHost ·))), ?_⟩
  show (parseHost port (hostText cs) >>= _) = _
  cases parseHost port (hostText cs) <;> rfl

theorem exists_of_parseHierarchical {scheme : String} {port : Nat} {cs : List Char} {u : Url}
    (h : parseHierarchical scheme port cs = .ok u) : ∃ host,
      parseHost port (hostText cs) = .ok host ∧
      u = { scheme, host := some host, path := u.path } := by
  obtain ⟨path, hparse⟩ := exists_parseHierarchical scheme port cs
  rw [hparse] at h
  cases hhost : parseHost port (hostText cs) with
  | error e =>
    rw [hhost] at h
    cases h
  | ok host =>
    rw [hhost] at h
    cases h
    exact ⟨host, rfl, rfl⟩

theorem parseHost_nil (port : Nat) : parseHost port [] = .error .noHost := by
  simp [parseHost]

/-- A host that is read before a slash is the same whatever stands behind it. -/
theorem hostText_append_slash {l : List Char} {port : Nat} {host : String}
    (h : parseHost port (hostText (l ++ ['/'])) = .ok host) (r : List Char) :
    hostText (l ++ '/' :: r) = hostText (l ++ ['/']) := by
  have hslash : isSlash '/' = true := rfl
  by_cases hl : l.dropWhile isSlash = []
  · -- There are only slashes, and the host is empty.
    have hempty : hostText (l ++ ['/']) = [] := by
      rw [hostText, List.dropWhile_append, hl]
      simp [hslash]
    rw [hempty, parseHost_nil] at h
    cases h
  · have hhost (r : List Char) :
        hostText (l ++ '/' :: r) = (l.dropWhile isSlash).takeWhile (!endsHost ·) := by
      have hne : (l.dropWhile isSlash).isEmpty = false := by simpa using hl
      rw [hostText, List.dropWhile_append, hne]
      exact takeWhile_append_cons (by decide) _ r
    rw [hhost, hhost]

/-- **An address whose host is read before a slash** is on that host whatever follows. -/
theorem parse_append_slash {text text' : String} {l r : List Char} {u : Url}
    (htext : stripped text.toList = l ++ ['/']) (htext' : stripped text'.toList = l ++ '/' :: r)
    (h : parse text = .ok u) (hu : u.host.isSome) : ∃ path, parse text' = .ok { u with path } := by
  have hscheme : isSchemeChar '/' = false := by decide
  have hhead (r : List Char) :
      (l ++ '/' :: r).head?.any Char.isAlpha = l.head?.any Char.isAlpha := by
    cases l <;> rfl
  unfold parse at h ⊢
  simp only [stripped_eq, htext, htext', takeWhile_append_cons hscheme,
    dropWhile_append_cons hscheme, hhead] at h ⊢
  generalize l.head?.any Char.isAlpha = starts, l.dropWhile isSchemeChar = rest at h ⊢
  generalize String.ofList ((l.takeWhile isSchemeChar).map Char.toLower) = scheme at h ⊢
  cases starts with
  | false => cases h
  | true =>
    cases rest with
    | nil => cases h
    | cons d rest =>
      simp only [List.cons_append] at h ⊢
      split at h
      · next rest' _ hd =>
        obtain ⟨rfl, rfl⟩ := List.cons.inj hd
        cases hport : hierarchical.lookup scheme with
        | none =>
          rw [hport] at h
          cases h
          cases hu
        | some port =>
          rw [hport] at h
          obtain ⟨host, hhost, hu'⟩ := exists_of_parseHierarchical h
          obtain ⟨path, hpath⟩ := exists_parseHierarchical scheme port (rest ++ '/' :: r)
          refine ⟨path, ?_⟩
          show parseHierarchical scheme port (rest ++ '/' :: r) = _
          rw [hpath, hostText_append_slash hhost, hhost, hu']
          rfl
      · cases h

/-- **An address under a base** is on the host of the base. -/
theorem parse_under {base : String} {u : Url} (h : parse (base ++ "/") = .ok u)
    (hu : u.host.isSome) (rest : String) :
    ∃ path, parse (base ++ "/" ++ rest) = .ok { u with path } := by
  obtain ⟨front, hbase, hunder⟩ := stripped_append_slash base.toList
  obtain ⟨back, hback⟩ := hunder rest.toList
  have hslash : "/".toList = ['/'] := rfl
  refine parse_append_slash (l := front) (r := back) ?_ ?_ h hu
  · rw [String.toList_append, hslash, hbase]
  · rw [String.toList_append, String.toList_append, hslash, List.append_assoc,
      List.singleton_append, hback]

end Url

/-! ## Links -/

/-- The address is one of a server that can be reached. -/
structure Link.Serves (link : Link) (address : String) (url : Url) : Prop where
  parse : Url.parse address = .ok url
  isHttp : url.IsHttp
  up : link.reach = .up

namespace Link.Serves

variable {link link' : Link} {address : String} {url : Url}

/-- What is asked and answered does not change whether the server can be reached. -/
theorem of_reach (h : link.Serves address url) (hreach : link'.reach = link.reach) :
    link'.Serves address url :=
  ⟨h.parse, h.isHttp, hreach.trans h.up⟩

/-- **Where a base is served, every address under it is**, by the same host. -/
theorem under {base : String} (h : link.Serves (base ++ "/") url) (rest : String) :
    ∃ path, link.Serves (base ++ "/" ++ rest) { url with path } := by
  obtain ⟨path, hpath⟩ := Url.parse_under h.parse h.isHttp.1 rest
  exact ⟨path, hpath, h.isHttp, h.up⟩

end Link.Serves

end TradingBot.Http
