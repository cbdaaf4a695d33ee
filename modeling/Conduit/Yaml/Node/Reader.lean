import Conduit.Fields
import Conduit.Yaml.Error
import Conduit.Yaml.Node
import Conduit.Yaml.Token

/-!
# Reading nodes

The tree that tokens write. Blocks and brackets nest freely, except that
inside brackets there are no blocks; keys, values and items may be
missing and are then empty. An anchor names a node for the aliases behind
it, and no two anchors have one name.

This stands for the parser and the composer of PyYAML.
-/

namespace Conduit

namespace Yaml

/-- What is left to read, and the nodes that anchors name. -/
structure Remaining where
  tokens : List Token
  anchors : Fields Node := []

/-- What the handles of tags stand for. -/
abbrev Handles := Fields String

namespace Handles

def standard : Handles := [("!", "!"), ("!!", Tag.standard)]

/-- The handles of a document with the given ones of its own. -/
def ofOwn (own : Handles) : Handles := own ++ standard

end Handles

/-- The tag of a node as it is written, and the name of its anchor. -/
structure Properties where
  tag : Option String := none
  anchor : Option String := none

namespace Properties

/-- The tag "!" asks for the type that a plain scalar would have. -/
def isUntyped (p : Properties) : Bool := p.tag.all (· == "!")

def areGiven (p : Properties) : Bool := p.tag.isSome || p.anchor.isSome

/-- The tag of a scalar. -/
def scalarTag (p : Properties) (text : String) (plain : Bool) : Tag :=
  match p.tag with
  | none => if plain then Tag.ofPlain text else .str
  | some "!" => Tag.ofPlain text
  | some uri => Tag.ofUri uri

/-- The tag of a collection, `own` if none is written. -/
def collectionTag (p : Properties) (own : Tag) : Tag :=
  match p.tag with
  | none => own
  | some "!" => own
  | some uri => Tag.ofUri uri

def resolve (handles : Handles) (handle : Option String) (suffix : String) : Except Error String :=
  match handle with
  | none => .ok suffix
  | some h =>
    match handles.get? h with
    | some meaning => .ok (meaning ++ suffix)
    | none => .error .malformed

/-- The properties in front of a node, in either order. -/
def read (handles : Handles) : List Token → Except Error (Properties × List Token)
  | .anchor name :: .tag h s :: rest => do .ok (⟨← resolve handles h s, name⟩, rest)
  | .tag h s :: .anchor name :: rest => do .ok (⟨← resolve handles h s, name⟩, rest)
  | .anchor name :: rest => .ok (⟨none, name⟩, rest)
  | .tag h s :: rest => do .ok (⟨← resolve handles h s, none⟩, rest)
  | tokens => .ok ({}, tokens)

/-- Gives a node the name of its anchor. -/
def register (p : Properties) (node : Node) (r : Remaining) : Except Error (Node × Remaining) :=
  match p.anchor with
  | none => .ok (node, r)
  | some name =>
    if r.anchors.contains name then .error .malformed
    else .ok (node, { r with anchors := r.anchors ++ [(name, node)] })

end Properties

/-- Where a node stands, which decides what it may be. -/
inductive Place where
  | flow | block
  /-- The key or value of a block mapping, where the items of a sequence
  need not be indented. -/
  | member
  deriving DecidableEq, Repr

namespace Token

def endsMember (t : Token) : Bool := t = .key || t = .value || t = .blockEnd

def endsItem (t : Token) : Bool := t = .blockEntry || t = .blockEnd

def endsLooseItem (t : Token) : Bool := t = .blockEntry || t.endsMember

def endsFlowItem (t : Token) : Bool := t = .flowEntry || t = .flowSequenceEnd

def endsFlowMember (t : Token) : Bool := t = .flowEntry || t = .flowMappingEnd

end Token

namespace Node

/-- The tokens behind the comma that separates an item from the one before
it; the first item has none. -/
def afterComma (isFirst : Bool) (tokens : List Token) : Except Error (List Token) :=
  if isFirst then .ok tokens
  else match tokens with
    | .flowEntry :: rest => .ok rest
    | _ => .error .malformed

mutual

/-- A node. The fuel bounds how many nodes and members are read one inside
or behind another. -/
def read (handles : Handles) : Nat → Place → Remaining → Except Error (Node × Remaining)
  | 0, _, _ => .error .malformed
  | fuel + 1, place, r =>
    match r.tokens with
    | .alias name :: rest =>
      match r.anchors.get? name with
      | some node => .ok (node, { r with tokens := rest })
      | none => .error .malformed
    | tokens => do
      let (p, tokens) ← Properties.read handles tokens
      let (node, after) ← readContent handles fuel place p { r with tokens }
      p.register node after

/-- A node behind its properties. -/
def readContent (handles : Handles) :
    Nat → Place → Properties → Remaining → Except Error (Node × Remaining)
  | 0, _, _, _ => .error .malformed
  | fuel + 1, place, p, r =>
    match r.tokens with
    | .scalar text plain :: rest =>
      .ok (.scalar (p.scalarTag text plain) text, { r with tokens := rest })
    | .flowSequenceStart :: rest => do
      let (items, after) ← readFlowItems handles fuel true { r with tokens := rest }
      .ok (.sequence (p.collectionTag .seq) items, after)
    | .flowMappingStart :: rest => do
      let (entries, after) ← readFlowEntries handles fuel true { r with tokens := rest }
      .ok (.mapping (p.collectionTag .map) entries, after)
    | t :: rest =>
      if t = .blockSequenceStart ∧ place ≠ .flow then do
        let (items, after) ← readItems handles fuel { r with tokens := rest }
        .ok (.sequence (p.collectionTag .seq) items, after)
      else if t = .blockMappingStart ∧ place ≠ .flow then do
        let (entries, after) ← readEntries handles fuel { r with tokens := rest }
        .ok (.mapping (p.collectionTag .map) entries, after)
      else if t = .blockEntry ∧ place = .member then do
        let (items, after) ← readLooseItems handles fuel r
        .ok (.sequence (p.collectionTag .seq) items, after)
      else if p.areGiven then .ok (.scalar (p.scalarTag "" p.isUntyped) "", r)
      else .error .malformed
    | [] =>
      if p.areGiven then .ok (.scalar (p.scalarTag "" p.isUntyped) "", r) else .error .malformed

/-- A node, or nothing in front of a token that ends its place. -/
def readUnless (handles : Handles) (ends : Token → Bool) :
    Nat → Place → Remaining → Except Error (Node × Remaining)
  | 0, _, _ => .error .malformed
  | fuel + 1, place, r =>
    if r.tokens.head?.any ends then .ok (.empty, r) else read handles fuel place r

def readItems (handles : Handles) : Nat → Remaining → Except Error (List Node × Remaining)
  | 0, _ => .error .malformed
  | fuel + 1, r =>
    match r.tokens with
    | .blockEntry :: rest => do
      let (item, r) ← readUnless handles Token.endsItem fuel .block { r with tokens := rest }
      let (items, r) ← readItems handles fuel r
      .ok (item :: items, r)
    | .blockEnd :: rest => .ok ([], { r with tokens := rest })
    | _ => .error .malformed

/-- The items of a sequence that is not indented. -/
def readLooseItems (handles : Handles) : Nat → Remaining → Except Error (List Node × Remaining)
  | 0, _ => .error .malformed
  | fuel + 1, r =>
    match r.tokens with
    | .blockEntry :: rest => do
      let (item, r) ← readUnless handles Token.endsLooseItem fuel .block { r with tokens := rest }
      let (items, r) ← readLooseItems handles fuel r
      .ok (item :: items, r)
    | _ => .ok ([], r)

/-- The entries of a block mapping. -/
def readEntries (handles : Handles) :
    Nat → Remaining → Except Error (List (Node × Node) × Remaining)
  | 0, _ => .error .malformed
  | fuel + 1, r =>
    match r.tokens with
    | .key :: rest => do
      let (key, r) ← readUnless handles Token.endsMember fuel .member { r with tokens := rest }
      let (value, r) ← readValue handles Token.endsMember .member fuel r
      let (entries, r) ← readEntries handles fuel r
      .ok ((key, value) :: entries, r)
    | .blockEnd :: rest => .ok ([], { r with tokens := rest })
    | _ => .error .malformed

/-- The value behind a key, empty if there is none. -/
def readValue (handles : Handles) (ends : Token → Bool) (place : Place) :
    Nat → Remaining → Except Error (Node × Remaining)
  | 0, _ => .error .malformed
  | fuel + 1, r =>
    match r.tokens with
    | .value :: rest => readUnless handles ends fuel place { r with tokens := rest }
    | _ => .ok (.empty, r)

/-- The items of a sequence in brackets. A key there makes an item that is
a mapping of one entry. -/
def readFlowItems (handles : Handles) :
    Nat → Bool → Remaining → Except Error (List Node × Remaining)
  | 0, _, _ => .error .malformed
  | fuel + 1, isFirst, r =>
    match r.tokens with
    | .flowSequenceEnd :: rest => .ok ([], { r with tokens := rest })
    | tokens => do
      match ← afterComma isFirst tokens with
      | .flowSequenceEnd :: rest => .ok ([], { r with tokens := rest })
      | .key :: rest => do
        let (key, r) ← readUnless handles (fun t => t = .value || t.endsFlowItem) fuel .flow
          { r with tokens := rest }
        let (value, r) ← readValue handles Token.endsFlowItem .flow fuel r
        let (items, r) ← readFlowItems handles fuel false r
        .ok (.mapping .map [(key, value)] :: items, r)
      | tokens => do
        let (item, r) ← read handles fuel .flow { r with tokens }
        let (items, r) ← readFlowItems handles fuel false r
        .ok (item :: items, r)

/-- The entries of a mapping in brackets. A node without the mark of a key
is a key without a value. -/
def readFlowEntries (handles : Handles) :
    Nat → Bool → Remaining → Except Error (List (Node × Node) × Remaining)
  | 0, _, _ => .error .malformed
  | fuel + 1, isFirst, r =>
    match r.tokens with
    | .flowMappingEnd :: rest => .ok ([], { r with tokens := rest })
    | tokens => do
      match ← afterComma isFirst tokens with
      | .flowMappingEnd :: rest => .ok ([], { r with tokens := rest })
      | .key :: rest => do
        let (key, r) ← readUnless handles (fun t => t = .value || t.endsFlowMember) fuel .flow
          { r with tokens := rest }
        let (value, r) ← readValue handles Token.endsFlowMember .flow fuel r
        let (entries, r) ← readFlowEntries handles fuel false r
        .ok ((key, value) :: entries, r)
      | tokens => do
        let (key, r) ← read handles fuel .flow { r with tokens }
        let (entries, r) ← readFlowEntries handles fuel false r
        .ok ((key, .empty) :: entries, r)

end

/-! ## Documents -/

/-- The handles of the directives before a document, each of which may be
given once, as may the version. -/
def readDirectives : List Token → Bool → Handles → Except Error (Handles × List Token)
  | .directive d :: rest, versionSeen, own =>
    match d with
    | .version major =>
      if versionSeen || major ≠ 1 then .error .malformed else readDirectives rest true own
    | .tagHandle handle meaning =>
      if own.contains handle then .error .malformed
      else readDirectives rest versionSeen (own ++ [(handle, meaning)])
    | .other => readDirectives rest versionSeen own
  | tokens, _, own => .ok (own, tokens)

def endsDocument : List Token → Bool
  | [] => true
  | .directive _ :: _ => true
  | .documentStart :: _ => true
  | .documentEnd :: _ => true
  | _ => false

def readDocument (handles : Handles) (tokens : List Token) : Except Error (Node × List Token) := do
  let (node, r) ← read handles (4 * (tokens.length + 1)) .block { tokens }
  .ok (node, r.tokens)

/-- The only document of a text, if there is one. -/
def ofTokens (tokens : List Token) : Except Error (Option Node) := do
  let (node, rest) ← match tokens with
    | [] => .ok (none, [])
    | .directive d :: more => do
      let (own, rest) ← readDirectives (.directive d :: more) false []
      match rest with
      | .documentStart :: rest => explicit (.ofOwn own) rest
      | _ => .error .malformed
    | .documentStart :: rest => explicit (.ofOwn []) rest
    | tokens => do
      let (node, rest) ← readDocument (.ofOwn []) tokens
      .ok (some node, rest)
  if rest.all (· = .documentEnd) then .ok node else .error .malformed
where
  /-- A document behind its start mark; it may be empty. -/
  explicit (handles : Handles) (tokens : List Token) : Except Error (Option Node × List Token) :=
    if endsDocument tokens then .ok (some .empty, tokens)
    else do
      let (node, rest) ← readDocument handles tokens
      .ok (some node, rest)

end Node

end Yaml

end Conduit
