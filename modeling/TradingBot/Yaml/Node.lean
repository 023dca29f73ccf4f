import TradingBot.Yaml.Token

/-!
# YAML documents

**The type** (`Yaml.Node`). Scalars with their text and how they are written, lists, and maps. A
plain scalar may still turn out to be a number, a flag or none, which whoever reads it decides.

**Reading** (`Yaml.Node.parse`). A text holds at most one document; an empty text is an empty
plain scalar. An alias stands for the node that was anchored before under its name.
-/

namespace TradingBot.Yaml

inductive Tag where
  | null
  | bool
  | int
  | float
  | text
  | other
deriving DecidableEq, Repr

inductive Node where
  | scalar (text : String) (plain : Bool) (tag : Option Tag)
  | seq (items : List Node)
  | map (entries : List (Node × Node))
deriving Repr

namespace Node

def empty : Node := scalar "" true none

instance : Inhabited Node := ⟨empty⟩

/-- Nodes by their anchors; none while the node is still being read. -/
abbrev Anchors := List (String × Option Node)

/-- What is read, the anchors known after it, and the tokens left. -/
abbrev Read (α : Type) := α × Anchors × List Token

structure Properties where
  anchor : Option String := none
  tag : Option Tag := none

/-- The place of the tags that the format itself names. -/
def coreTags : String := "tag:yaml.org,2002:"

def tagOfName (s : String) : Tag :=
  match s with
  | "null" => .null
  | "bool" => .bool
  | "int" => .int
  | "float" => .float
  | "str" => .text
  | _ => .other

/-- The tag of a handle and a suffix; handles that were not declared are refused. -/
def resolveTag (handles : List String) (handle suffix : String) : Option (Option Tag) :=
  if handle = "!!" ∧ handle ∉ handles then some (some (tagOfName suffix))
  else if handle = "" then
    some (some (if suffix.startsWith coreTags then
      tagOfName (String.ofList (suffix.toList.drop coreTags.length)) else .other))
  else if handle = "!" then some (if suffix = "" then some .text else some .other)
  else if handle ∈ handles then some (some .other)
  else none

/-- Reads an anchor and a tag, each at most once. -/
def takeProperties (handles : List String) : List Token → Option (Properties × List Token)
  | .anchor name :: .tag h s :: rest => do
    return ({ anchor := some name, tag := ← resolveTag handles h s }, rest)
  | .anchor name :: rest => some ({ anchor := some name }, rest)
  | .tag h s :: .anchor name :: rest => do
    return ({ anchor := some name, tag := ← resolveTag handles h s }, rest)
  | .tag h s :: rest => do return ({ tag := ← resolveTag handles h s }, rest)
  | rest => some ({}, rest)

/-- Opens a node for its anchor. -/
def Properties.opened (p : Properties) (anchors : Anchors) : Anchors :=
  p.anchor.toList.map (·, none) ++ anchors

/-- Notes a node under its anchor. -/
def Properties.closed (p : Properties) (n : Node) (anchors : Anchors) : Anchors :=
  p.anchor.toList.map (·, some n) ++ anchors

/-- Whether a token follows where a node was left out. -/
def isIn (ends : List Token) (ts : List Token) : Bool := ts.head?.all (· ∈ ends)

mutual

/-- A node. In a block it may be a list or a map that its indentation shows; behind a key, a list
need not be indented. -/
def node (handles : List String) : (fuel : Nat) → (block indentless : Bool) → Anchors →
    List Token → Option (Read Node)
  | 0, _, _, _, _ => none
  | fuel + 1, block, indentless, anchors, ts =>
    match ts with
    | .alias name :: rest => do
      let n ← (← anchors.lookup name)
      return (n, anchors, rest)
    | ts => do
      let (p, ts') ← takeProperties handles ts
      let inner := p.opened anchors
      let (n, anchors, rest) ←
        match ts' with
        | .scalar text plain :: rest => pure (scalar text plain p.tag, inner, rest)
        | .openBracket :: rest => do
          let (items, anchors, rest) ← flowItems handles fuel true inner rest
          pure (seq items, anchors, rest)
        | .openBrace :: rest => do
          let (entries, anchors, rest) ← flowEntries handles fuel true inner rest
          pure (map entries, anchors, rest)
        | .entry :: _ =>
          if indentless then do
            let (items, anchors, rest) ← looseItems handles fuel inner ts'
            pure (seq items, anchors, rest)
          else if p.anchor.isSome || p.tag.isSome then pure (scalar "" true p.tag, inner, ts')
          else none
        | .sequenceStart :: rest =>
          if block then do
            let (items, anchors, rest) ← blockItems handles fuel inner rest
            pure (seq items, anchors, rest)
          else none
        | .mappingStart :: rest =>
          if block then do
            let (entries, anchors, rest) ← blockEntries handles fuel inner rest
            pure (map entries, anchors, rest)
          else none
        | rest =>
          if p.anchor.isSome || p.tag.isSome then pure (scalar "" true p.tag, inner, rest) else none
      return (n, p.closed n anchors, rest)

/-- A node, or an empty scalar where it was left out. -/
def nodeOrEmpty (handles : List String) : (fuel : Nat) → (block indentless : Bool) →
    (ends : List Token) → Anchors → List Token → Option (Read Node)
  | 0, _, _, _, _, _ => none
  | fuel + 1, block, indentless, ends, anchors, ts =>
    if isIn ends ts then some (empty, anchors, ts)
    else node handles fuel block indentless anchors ts

/-- The items of an indented list. -/
def blockItems (handles : List String) : (fuel : Nat) → Anchors → List Token →
    Option (Read (List Node))
  | 0, _, _ => none
  | fuel + 1, anchors, ts =>
    match ts with
    | .entry :: rest => do
      let (n, anchors, rest) ←
        nodeOrEmpty handles fuel true false [.entry, .blockEnd] anchors rest
      let (ns, anchors, rest) ← blockItems handles fuel anchors rest
      return (n :: ns, anchors, rest)
    | .blockEnd :: rest => some ([], anchors, rest)
    | _ => none

/-- The items of a list that is not indented. -/
def looseItems (handles : List String) : (fuel : Nat) → Anchors → List Token →
    Option (Read (List Node))
  | 0, _, _ => none
  | fuel + 1, anchors, ts =>
    match ts with
    | .entry :: rest => do
      let (n, anchors, rest) ←
        nodeOrEmpty handles fuel true false [.entry, .key, .value, .blockEnd] anchors rest
      let (ns, anchors, rest) ← looseItems handles fuel anchors rest
      return (n :: ns, anchors, rest)
    | _ => some ([], anchors, ts)

/-- The entries of an indented map. -/
def blockEntries (handles : List String) : (fuel : Nat) → Anchors → List Token →
    Option (Read (List (Node × Node)))
  | 0, _, _ => none
  | fuel + 1, anchors, ts =>
    match ts with
    | .key :: rest => do
      let (k, anchors, rest) ←
        nodeOrEmpty handles fuel true true [.key, .value, .blockEnd] anchors rest
      let (v, anchors, rest) ← blockValue handles fuel anchors rest
      let (es, anchors, rest) ← blockEntries handles fuel anchors rest
      return ((k, v) :: es, anchors, rest)
    | .blockEnd :: rest => some ([], anchors, rest)
    | _ => none

/-- The value of a key in an indented map. -/
def blockValue (handles : List String) : (fuel : Nat) → Anchors → List Token → Option (Read Node)
  | 0, _, _ => none
  | fuel + 1, anchors, ts =>
    match ts with
    | .value :: rest => nodeOrEmpty handles fuel true true [.key, .value, .blockEnd] anchors rest
    | _ => some (empty, anchors, ts)

/-- The items between brackets; a key makes an item a map of one entry. -/
def flowItems (handles : List String) : (fuel : Nat) → (first : Bool) → Anchors → List Token →
    Option (Read (List Node))
  | 0, _, _, _ => none
  | fuel + 1, first, anchors, ts =>
    match first, ts with
    | _, .closeBracket :: rest => some ([], anchors, rest)
    | false, .comma :: .closeBracket :: rest => some ([], anchors, rest)
    | false, .comma :: rest => flowItem handles fuel anchors rest
    | true, rest => flowItem handles fuel anchors rest
    | false, _ => none

/-- One item between brackets, and those after it. -/
def flowItem (handles : List String) : (fuel : Nat) → Anchors → List Token →
    Option (Read (List Node))
  | 0, _, _ => none
  | fuel + 1, anchors, ts =>
    match ts with
    | .key :: rest => do
      let (k, anchors, rest) ←
        nodeOrEmpty handles fuel false false [.value, .comma, .closeBracket] anchors rest
      let (v, anchors, rest) ← flowValue handles fuel .closeBracket anchors rest
      let (ns, anchors, rest) ← flowItems handles fuel false anchors rest
      return (map [(k, v)] :: ns, anchors, rest)
    | ts => do
      let (n, anchors, rest) ← node handles fuel false false anchors ts
      let (ns, anchors, rest) ← flowItems handles fuel false anchors rest
      return (n :: ns, anchors, rest)

/-- The entries between braces. -/
def flowEntries (handles : List String) : (fuel : Nat) → (first : Bool) → Anchors → List Token →
    Option (Read (List (Node × Node)))
  | 0, _, _, _ => none
  | fuel + 1, first, anchors, ts =>
    match first, ts with
    | _, .closeBrace :: rest => some ([], anchors, rest)
    | false, .comma :: .closeBrace :: rest => some ([], anchors, rest)
    | false, .comma :: rest => flowEntry handles fuel anchors rest
    | true, rest => flowEntry handles fuel anchors rest
    | false, _ => none

/-- One entry between braces, and those after it. -/
def flowEntry (handles : List String) : (fuel : Nat) → Anchors → List Token →
    Option (Read (List (Node × Node)))
  | 0, _, _ => none
  | fuel + 1, anchors, ts =>
    match ts with
    | .key :: rest => do
      let (k, anchors, rest) ←
        nodeOrEmpty handles fuel false false [.value, .comma, .closeBrace] anchors rest
      let (v, anchors, rest) ← flowValue handles fuel .closeBrace anchors rest
      let (es, anchors, rest) ← flowEntries handles fuel false anchors rest
      return ((k, v) :: es, anchors, rest)
    | ts => do
      let (k, anchors, rest) ← node handles fuel false false anchors ts
      let (es, anchors, rest) ← flowEntries handles fuel false anchors rest
      return ((k, empty) :: es, anchors, rest)

/-- The value of a key between brackets or braces. -/
def flowValue (handles : List String) : (fuel : Nat) → (close : Token) → Anchors → List Token →
    Option (Read Node)
  | 0, _, _, _ => none
  | fuel + 1, close, anchors, ts =>
    match ts with
    | .value :: rest => nodeOrEmpty handles fuel false false [.comma, close] anchors rest
    | _ => some (empty, anchors, ts)

end

/-- The shorthands that directives declare, and the tokens behind them; a version is 1.1 or 1.2 and
is given once. -/
def takeDirectives (versions : Nat) : List Token → Option (List String × List Token)
  | .version major minor :: rest =>
    if versions = 0 ∧ major = 1 ∧ (minor = 1 ∨ minor = 2) then takeDirectives 1 rest else none
  | .tagShorthand handle :: rest => do
    let (handles, rest) ← takeDirectives versions rest
    if handle ∈ handles then none else return (handle :: handles, rest)
  | rest => some ([], rest)

/-- A document, and what is left behind it. -/
def document (ts : List Token) : Option (Node × List Token) := do
  let (handles, rest) ← takeDirectives 0 ts
  let fuel := 3 * ts.length + 3
  match rest with
  | .documentStart :: rest =>
    if isIn [.documentStart, .documentEnd] rest then
      return (empty, rest)
    else
      let (n, _, rest) ← node handles fuel true false [] rest
      return (n, rest)
  | rest =>
    if ts.length ≠ rest.length then none
    else
      let (n, _, rest) ← node handles fuel true false [] rest
      return (n, rest)

def parse (text : String) : Option Node := do
  match ← Token.ofText text with
  | [] => return empty
  | ts =>
    let (n, rest) ← document ts
    if rest.all (· == .documentEnd) then return n else none

end Node

end TradingBot.Yaml
