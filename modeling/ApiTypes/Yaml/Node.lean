/-
# Nodes of a YAML text

The tokens of a text make a tree of scalars, sequences and mappings.  A node can carry a tag
and an anchor, and an alias stands for the node of an anchor.  A part that is left out, such as
the value of a key without one, is an empty plain scalar.

* `Node.read` gives the tree of a text, if the text holds a document; it may hold no second one.
-/
import ApiTypes.Yaml.Token

namespace ApiTypes.Yaml

/-! ## 1. Nodes -/

/-- What a node can carry. -/
structure Properties (α : Type) where
  anchor : Option α := none
  tag : Option String := none

/-- A node whose anchors and aliases have labels of a type. -/
inductive Node (α : Type) where
  | alias (label : α)
  | scalar (properties : Properties α) (style : ScalarStyle) (text : String)
  | sequence (properties : Properties α) (items : List (Node α))
  | mapping (properties : Properties α) (entries : List (Node α × Node α))

namespace Node

/-- What stands for a part that is left out. -/
def empty {α : Type} : Node α := .scalar {} .plain ""

/-! ## 2. Parts of nodes -/

/-- A part that is read from the front of the tokens. -/
abbrev Parsing (α : Type) := StateT (List Token) (Except Error) α

/-- The tokens break a rule. -/
def refuse {α : Type} (rule : String) : Parsing α := throw (.unexpected rule)

/-- Whether the next token is one of some. -/
def sees (expected : List Token) : Parsing Bool := do
  return ((← get).head?.map expected.contains).getD false

/-- Takes the next token. -/
def skip : Parsing Unit := modify (List.drop 1)

/-- Takes the next token if it is a given one, and tells whether it was. -/
def accept (t : Token) : Parsing Bool := do
  if ← sees [t] then
    skip
    return true
  else return false

/-- The tag of a token in full. -/
def fullTag (handles : List (String × String)) (t : Tag) : Parsing String :=
  match t.resolve? handles with
  | some tag => pure tag
  | none => refuse "a declared tag handle"

/-- Reads the properties of a node, in either order. -/
def readProperties (handles : List (String × String)) : Parsing (Properties String) := do
  match ← get with
  | .anchor name :: .tag t :: rest =>
    set rest
    return { anchor := some name, tag := some (← fullTag handles t) }
  | .tag t :: .anchor name :: rest =>
    set rest
    return { anchor := some name, tag := some (← fullTag handles t) }
  | .anchor name :: rest =>
    set rest
    return { anchor := some name }
  | .tag t :: rest =>
    set rest
    return { tag := some (← fullTag handles t) }
  | _ => return {}

/-- The tokens before which a node of a block mapping is left out. -/
def mappingStops : List Token := [.key, .value, .blockEnd]

/-- The tokens before which an item that follows a hyphen is left out. -/
def itemStops (indentless : Bool) : List Token :=
  if indentless then [.blockEntry, .key, .value, .blockEnd] else [.blockEntry, .blockEnd]

/-- Takes the comma before every part of a flow collection but the first. -/
def readComma (first : Bool) : Parsing Unit := do
  if !first then
    if !(← accept .flowEntry) then refuse "a comma or the end of the collection"

/-! ## 3. The grammar -/

mutual
/-- Reads a node.  Block collections may stand only in block context, and a sequence that is not
indented only where a mapping allows one. -/
def readNode (handles : List (String × String)) (block indentless : Bool) :
    Nat → Parsing (Node String)
  | 0 => refuse "an end"
  | fuel + 1 => do
    match ← get with
    | .alias name :: rest =>
      set rest
      return .alias name
    | _ =>
      let ps ← readProperties handles
      match ← get with
      | .scalar style text :: rest =>
        set rest
        return .scalar { ps with tag := ps.tag.filter (· ≠ "!") } style text
      | .openBracket :: rest =>
        set rest
        return .sequence ps (← readFlowItems handles true fuel)
      | .openBrace :: rest =>
        set rest
        return .mapping ps (← readFlowEntries handles true fuel)
      | _ =>
        if indentless && (← sees [.blockEntry]) then
          return .sequence ps (← readItems handles true fuel)
        else if block && (← sees [.sequenceStart]) then
          skip
          return .sequence ps (← readItems handles false fuel)
        else if block && (← sees [.mappingStart]) then
          skip
          return .mapping ps (← readEntries handles fuel)
        else if ps.anchor.isSome || ps.tag.isSome then return .scalar ps .plain ""
        else refuse "the content of a node"

/-- Reads a node, unless it is left out before one of some tokens. -/
def readOptional (handles : List (String × String)) (block indentless : Bool)
    (stops : List Token) : Nat → Parsing (Node String)
  | 0 => refuse "an end"
  | fuel + 1 => do
    if ← sees stops then return .empty
    else readNode handles block indentless fuel

/-- Reads the value that follows a key, if a colon comes next. -/
def readValue (handles : List (String × String)) (block : Bool) (stops : List Token) :
    Nat → Parsing (Node String)
  | 0 => refuse "an end"
  | fuel + 1 => do
    if ← accept .value then readOptional handles block block stops fuel
    else return .empty

/-- Reads the items of a block sequence.  One that is not indented ends where no hyphen
follows. -/
def readItems (handles : List (String × String)) (indentless : Bool) :
    Nat → Parsing (List (Node String))
  | 0 => refuse "an end"
  | fuel + 1 => do
    if ← accept .blockEntry then
      let item ← readOptional handles true false (itemStops indentless) fuel
      return item :: (← readItems handles indentless fuel)
    else if indentless then return []
    else if ← accept .blockEnd then return []
    else refuse "a hyphen"

/-- Reads the entries of a block mapping. -/
def readEntries (handles : List (String × String)) :
    Nat → Parsing (List (Node String × Node String))
  | 0 => refuse "an end"
  | fuel + 1 => do
    if ← accept .key then
      let key ← readOptional handles true true mappingStops fuel
      let value ← readValue handles true mappingStops fuel
      return (key, value) :: (← readEntries handles fuel)
    else if ← accept .blockEnd then return []
    else refuse "a key"

/-- Reads an item of a flow sequence.  A key makes it a mapping of one entry; where that key is
left out, the token that shows it is taken. -/
def readFlowItem (handles : List (String × String)) : Nat → Parsing (Node String)
  | 0 => refuse "an end"
  | fuel + 1 => do
    if ← accept .key then
      let key ←
        if ← sees [.value, .flowEntry, .closeBracket] then do
          skip
          pure .empty
        else readNode handles false false fuel
      return .mapping {} [(key, ← readValue handles false [.flowEntry, .closeBracket] fuel)]
    else readNode handles false false fuel

/-- Reads the items of a flow sequence. -/
def readFlowItems (handles : List (String × String)) (first : Bool) :
    Nat → Parsing (List (Node String))
  | 0 => refuse "an end"
  | fuel + 1 => do
    if ← accept .closeBracket then return []
    readComma first
    if ← accept .closeBracket then return []
    let item ← readFlowItem handles fuel
    return item :: (← readFlowItems handles false fuel)

/-- Reads an entry of a flow mapping; a key without a mark has no value. -/
def readFlowEntry (handles : List (String × String)) : Nat → Parsing (Node String × Node String)
  | 0 => refuse "an end"
  | fuel + 1 => do
    if ← accept .key then
      let key ← readOptional handles false false [.value, .flowEntry, .closeBrace] fuel
      return (key, ← readValue handles false [.flowEntry, .closeBrace] fuel)
    else return (← readNode handles false false fuel, .empty)

/-- Reads the entries of a flow mapping. -/
def readFlowEntries (handles : List (String × String)) (first : Bool) :
    Nat → Parsing (List (Node String × Node String))
  | 0 => refuse "an end"
  | fuel + 1 => do
    if ← accept .closeBrace then return []
    readComma first
    if ← accept .closeBrace then return []
    let entry ← readFlowEntry handles fuel
    return entry :: (← readFlowEntries handles false fuel)
end

/-! ## 4. Documents -/

/-- The handles that the directives before a document declare, in addition to those read. -/
def directiveHandles (versioned : Bool) (handles : List (String × String)) :
    List Directive → Except Error (List (String × String))
  | [] => .ok handles
  | .version major minor :: rest =>
    if versioned then .error (.unexpected "only one version")
    else if major = 1 && (minor = 1 || minor = 2) then directiveHandles true handles rest
    else .error (.unexpected "version 1.1 or 1.2")
  | .handle name meaning :: rest =>
    if (handles.lookup name).isSome then .error (.unexpected "only one meaning of a tag handle")
    else directiveHandles versioned (handles ++ [(name, meaning)]) rest

/-- The directives at the front of some tokens. -/
def directives : List Token → List Directive
  | .directive d :: rest => d :: directives rest
  | _ => []

/-- Whether a document ends before a text. -/
def endsDocument : List Token → Bool
  | [] => true
  | .directive _ :: _ => true
  | .documentStart :: _ => true
  | .documentEnd :: _ => true
  | _ => false

/-- A bound for the steps that some tokens take: each of them ends at most four. -/
def stepsFor (tokens : List Token) : Nat := 5 * tokens.length + 10

/-- Reads the first document: its mark may be left out if there are no directives. -/
def readDocument : Parsing (Node String) := do
  let tokens ← get
  let ds := directives tokens
  let handles ← directiveHandles false [] ds
  let handles := handles ++ Tag.defaultHandles
  set (tokens.drop ds.length)
  if ← accept .documentStart then
    if endsDocument (← get) then return .empty
    else readNode handles true false (stepsFor tokens)
  else if ds = [] then readNode handles true false (stepsFor tokens)
  else refuse "the start of a document"

/-- The tree of a text, if the text holds a document. -/
def read (text : String) : Except Error (Option (Node String)) := do
  let tokens ← Token.scan text
  if tokens = [] then return none
  let (root, rest) ← readDocument.run tokens
  if rest.any (· ≠ .documentEnd) then throw .severalDocuments
  return some root

end Node

end ApiTypes.Yaml
