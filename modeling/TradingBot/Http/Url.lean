/-!
# Addresses

**The type** (`Http.Url`). A scheme, a host with a port, and the path with its query. Reading
(`Http.Url.parse`) takes absolute addresses and tells what is wrong with others. Characters that
may not stand in a path are written as percent signs with the hexadecimal digits of their bytes,
and an empty path is `/`.

An address without a host has a scheme of another kind, such as a mailbox; it is kept as it is.
-/

namespace TradingBot.Http

structure Url where
  scheme : String
  /-- Host and port; none for an address of another kind. -/
  host : Option String
  /-- The path with its query, or what stands behind the scheme. -/
  path : String
deriving DecidableEq, Repr

/-- What is wrong with a text that is no address. -/
inductive UrlError where
  | noScheme
  | noHost
  | badPort
  | badHost
deriving DecidableEq, Repr

namespace UrlError

def text : UrlError → String
  | noScheme => "relative URL without a base"
  | noHost => "empty host"
  | badPort => "invalid port number"
  | badHost => "invalid domain character"

end UrlError

namespace Url

def text (u : Url) : String :=
  match u.host with
  | some host => s!"{u.scheme}://{host}{u.path}"
  | none => s!"{u.scheme}:{u.path}"

/-- Schemes that name a host and a path on it, with the port that goes without saying. -/
def hierarchical : List (String × Nat) :=
  [("http", 80), ("https", 443), ("ws", 80), ("wss", 443), ("ftp", 21)]

/-- Whether the address can be asked over HTTP. -/
def IsHttp (u : Url) : Prop := u.host.isSome ∧ (u.scheme = "http" ∨ u.scheme = "https")

instance (u : Url) : Decidable u.IsHttp := inferInstanceAs (Decidable (_ ∧ _))

/-! ## Percent signs -/

def hexDigit (n : Nat) : Char := ((Nat.toDigits 16 n).headD '0').toUpper

def percent (b : UInt8) : List Char := ['%', hexDigit (b.toNat / 16), hexDigit (b.toNat % 16)]

/-- A character as it stands in an address, if `reserved` are those that cannot. -/
def encode (reserved : List Char) (c : Char) : List Char :=
  if c.toNat ≤ 0x20 ∨ 0x7F ≤ c.toNat ∨ c ∈ reserved then
    (String.singleton c).toUTF8.toList.flatMap percent
  else [c]

def reservedInPath : List Char := ['"', '#', '<', '>', '?', '\x60', '\x7b', '\x7d']

def reservedInQuery : List Char := ['"', '#', '<', '>', '\'']

def reservedInFragment : List Char := ['"', '<', '>', '\x60']

/-! ## Paths -/

def splitSegments : List Char → List (List Char)
  | [] => [[]]
  | '/' :: cs => [] :: splitSegments cs
  | c :: cs =>
    match splitSegments cs with
    | [] => [[c]]
    | s :: ss => (c :: s) :: ss

def isDot (s : List Char) : Bool := s == ['.'] || s.map Char.toLower == ['%', '2', 'e']

def isDoubleDot (s : List Char) : Bool :=
  let s := s.map Char.toLower
  s == ['.', '.'] || s == ['.', '%', '2', 'e'] || s == ['%', '2', 'e', '.'] ||
    s == ['%', '2', 'e', '%', '2', 'e']

/-- Follows the segments that mean this directory or the one above; `done` is in reverse. -/
def followDots (done : List (List Char)) : List (List Char) → List (List Char)
  | [] => done.reverse
  | [s] =>
    if isDoubleDot s then ([] :: done.tail).reverse
    else if isDot s then ([] :: done).reverse
    else (s :: done).reverse
  | s :: ss =>
    if isDoubleDot s then followDots done.tail ss
    else if isDot s then followDots done ss
    else followDots (s :: done) ss

/-- The path of a hierarchical address. -/
def normalPath (cs : List Char) : List Char :=
  let cs := cs.map fun c => if c = '\\' then '/' else c
  let segments := splitSegments (match cs with | '/' :: rest => rest | rest => rest)
  (followDots [] segments).flatMap fun s => '/' :: s.flatMap (encode reservedInPath)

/-- Path, query and fragment of a hierarchical address. -/
def normalRest (cs : List Char) : List Char :=
  let isEnd (c : Char) := c == '?' || c == '#'
  let path := cs.takeWhile (!isEnd ·)
  let rest := cs.dropWhile (!isEnd ·)
  let query := rest.takeWhile (· != '#')
  let fragment := rest.dropWhile (· != '#')
  let queryText :=
    match query with
    | [] => []
    | mark :: q => mark :: q.flatMap (encode reservedInQuery)
  let fragmentText :=
    match fragment with
    | [] => []
    | mark :: f => mark :: f.flatMap (encode reservedInFragment)
  normalPath path ++ queryText ++ fragmentText

/-! ## Hosts -/

/-- Characters that no host may hold. -/
def forbiddenInHost : List Char :=
  ['\x00', '\t', '\n', '\r', ' ', '#', '/', '<', '>', '?', '@', '[', '\\', ']', '^', '|', '%',
    '\x7f']

/-- Host and port, the port left out if it goes without saying. -/
def parseHost (defaultPort : Nat) (cs : List Char) : Except UrlError String :=
  let host := (cs.takeWhile (· != ':')).map Char.toLower
  let port := (cs.dropWhile (· != ':')).drop 1
  if host = [] then .error .noHost
  else if host.any fun c => c ∈ forbiddenInHost ∨ c.toNat < 0x20 then .error .badHost
  else if ¬ port.all Char.isDigit then .error .badPort
  else
    let n := Nat.ofDigitChars 10 port 0
    if 65535 < n then .error .badPort
    else if port = [] ∨ n = defaultPort then .ok (String.ofList host)
    else .ok s!"{String.ofList host}:{toString n}"

/-! ## Reading -/

def isSchemeChar (c : Char) : Bool := c.isAlphanum || c == '+' || c == '-' || c == '.'

/-- The address behind a scheme with hosts and paths. -/
def parseHierarchical (scheme : String) (defaultPort : Nat) (cs : List Char) :
    Except UrlError Url := do
  let isSlash (c : Char) := c == '/' || c == '\\'
  let isEnd (c : Char) := isSlash c || c == '?' || c == '#'
  let rest := cs.dropWhile isSlash
  let host ← parseHost defaultPort (rest.takeWhile (!isEnd ·))
  let path := String.ofList (normalRest (rest.dropWhile (!isEnd ·)))
  return { scheme, host := some host, path }

def parse (text : String) : Except UrlError Url :=
  let isEdge (c : Char) := c.toNat ≤ 0x20
  let cs := ((text.toList.dropWhile isEdge).reverse.dropWhile isEdge).reverse
  let cs := cs.filter fun c => !(c == '\t' || c == '\n' || c == '\r')
  let scheme := String.ofList ((cs.takeWhile isSchemeChar).map Char.toLower)
  match cs.head?.any Char.isAlpha, cs.dropWhile isSchemeChar with
  | true, ':' :: rest =>
    match hierarchical.lookup scheme with
    | some port => parseHierarchical scheme port rest
    | none => .ok { scheme, host := none, path := String.ofList rest }
  | _, _ => .error .noScheme

end Url

end TradingBot.Http
