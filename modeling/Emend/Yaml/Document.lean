import Emend.Yaml.Layout
import Emend.Yaml.Node

/-! # Documents

The documents that the tokens of a text write.
-/

namespace Emend.Yaml

/-- The tokens that remain, and what was named before them in the document. An anchor's number is how many
names there were before. -/
structure Cursor where
  tokens : List Token
  anchors : List (String × Nat) := []
  numbered : List (Nat × Node) := []
  handles : List (String × String) := []

abbrev Composing := StateT Cursor Option

namespace Composing

def peek : Composing (Option Token) := return (← get).tokens.head?

def drop : Composing Unit := modify fun c => { c with tokens := c.tokens.tail }

def before (ts : List Token) : Composing Bool := return (← peek).any ts.contains

def accept (t : Token) : Composing Bool := do
  if (← peek) == some t then
    drop
    return true
  else return false

def expect (t : Token) : Composing Unit := do
  if !(← accept t) then failure

def define (name : String) : Composing Nat := do
  let c ← get
  let number := c.anchors.length
  set { c with anchors := (name, number) :: c.anchors.filter (·.1 != name) }
  return number

def resolveTag (handle suffix : String) : Composing String := do
  if handle.isEmpty then return suffix
  match (← get).handles.lookup handle with
  | some start => return start ++ suffix
  | none => failure

def anchor? : Composing (Option Nat) := do
  match ← peek with
  | some (.anchor name) => do
    drop
    some <$> define name
  | _ => return none

def tag? : Composing (Option String) := do
  match ← peek with
  | some (.tag handle suffix) => do
    drop
    some <$> resolveTag handle suffix
  | _ => return none

def properties : Composing (Option Nat × Option String) := do
  match ← anchor? with
  | some n => return (some n, ← tag?)
  | none => do
    let tag ← tag?
    return (← anchor?, tag)

/-- A plain scalar that says that it has no tag is as good as one without. -/
def taggedScalar (text : String) (style : Style) (tag : Option String) : Node :=
  .scalar { text, style, tag := if tag = some "!" then none else tag }

-- Every call gets a smaller bound; twice the number of tokens is enough.
mutual

/-- A node. Block collections may be ruled out; items may stand in line with the key before them. -/
def node : Nat → (block inLine : Bool) → Composing Node
  | 0, _, _ => failure
  | bound + 1, block, inLine => do
    match ← peek with
    | some (.reference name) => do
      drop
      match (← get).anchors.lookup name with
      | some number => return .reference number
      | none => failure
    | _ => do
      let (number, tag) ← properties
      let content ← match ← peek with
        | some .blockEntry => if inLine then .sequence tag <$> itemsInLine bound else bare number tag
        | some (.scalar text style) => do
          drop
          pure (taggedScalar text style tag)
        | some .flowSequenceStart => do
          drop
          .sequence tag <$> flowItems bound true
        | some .flowMappingStart => do
          drop
          .mapping tag <$> flowEntries bound true
        | some .blockSequenceStart =>
          if block then do
            drop
            .sequence tag <$> blockItems bound
          else bare number tag
        | some .blockMappingStart =>
          if block then do
            drop
            .mapping tag <$> blockEntries bound
          else bare number tag
        | _ => bare number tag
      if let some n := number then modify fun c => { c with numbered := (n, content) :: c.numbered }
      return content
where
  /-- An anchor or a tag without a node. -/
  bare (number : Option Nat) (tag : Option String) : Composing Node :=
    if number.isSome || tag.isSome then return .empty tag else failure

def nodeUnless : Nat → List Token → (block inLine : Bool) → Composing Node
  | 0, _, _, _ => failure
  | bound + 1, stops, block, inLine => do
    if ← before stops then return .empty else node bound block inLine

def blockItems : Nat → Composing (List Node)
  | 0 => failure
  | bound + 1 => do
    if ← accept .blockEnd then return []
    expect .blockEntry
    let item ← nodeUnless bound [.blockEntry, .blockEnd] true false
    return item :: (← blockItems bound)

def itemsInLine : Nat → Composing (List Node)
  | 0 => failure
  | bound + 1 => do
    if ← accept .blockEntry then do
      let item ← nodeUnless bound [.blockEntry, .key, .value, .blockEnd] true false
      return item :: (← itemsInLine bound)
    else return []

def blockEntries : Nat → Composing (List (Node × Node))
  | 0 => failure
  | bound + 1 => do
    if ← accept .blockEnd then return []
    expect .key
    let stops := [.key, .value, .blockEnd]
    let key ← nodeUnless bound stops true true
    let value ← if ← accept .value then nodeUnless bound stops true true else pure .empty
    return (key, value) :: (← blockEntries bound)

def flowItems : Nat → (first : Bool) → Composing (List Node)
  | 0, _ => failure
  | bound + 1, first => do
    if ← accept .flowSequenceEnd then return []
    if !first then expect .flowEntry
    if ← accept .flowSequenceEnd then return []
    let item ← if ← accept .key then pair bound else node bound false false
    return item :: (← flowItems bound false)

def pair : Nat → Composing Node
  | 0 => failure
  | bound + 1 => do
    let key ← if ← before [.value, .flowEntry, .flowSequenceEnd] then do
        drop
        pure .empty
      else node bound false false
    let value ← if ← accept .value then nodeUnless bound [.flowEntry, .flowSequenceEnd] false false else pure .empty
    return .mapping none [(key, value)]

def flowEntries : Nat → (first : Bool) → Composing (List (Node × Node))
  | 0, _ => failure
  | bound + 1, first => do
    if ← accept .flowMappingEnd then return []
    if !first then expect .flowEntry
    if ← accept .flowMappingEnd then return []
    let entry ← if ← accept .key then do
        let key ← nodeUnless bound [.value, .flowEntry, .flowMappingEnd] false false
        let value ← if ← accept .value then nodeUnless bound [.flowEntry, .flowMappingEnd] false false else pure .empty
        pure (key, value)
      else do
        let key ← node bound false false
        pure (key, .empty)
    return entry :: (← flowEntries bound false)

end

def standardHandles : List (String × String) := [("!", "!"), ("!!", "tag:yaml.org,2002:")]

def directives : Nat → (versioned : Bool) → Composing Unit
  | 0, _ => return
  | bound + 1, versioned => do
    match ← peek with
    | some (.version major minor) => do
      if versioned || major ≠ 1 || (minor ≠ 1 && minor ≠ 2) then failure
      drop
      directives bound true
    | some (.shorthand handle start) => do
      if ((← get).handles.lookup handle).isSome then failure
      drop
      modify fun c => { c with handles := (handle, start) :: c.handles }
      directives bound versioned
    | _ => modify fun c => { c with handles := c.handles ++ standardHandles }

def isDirective : Token → Bool
  | .version .. | .shorthand .. => true
  | _ => false

def content (bound : Nat) : Composing Node := do
  match ← peek with
  | none | some .documentStart | some .documentEnd => return .empty
  | some t => if isDirective t then return .empty else node bound true false

def endMarks : Nat → Composing Unit
  | 0 => return
  | bound + 1 => do if ← accept .documentEnd then endMarks bound

/-- The documents from here on. Only the first one needs no mark at its start. -/
def documents : Nat → (first : Bool) → Composing (List Document)
  | 0, _ => failure
  | bound + 1, first => do
    if !first then endMarks bound
    modify fun c => { tokens := c.tokens }
    match ← peek with
    | none => return []
    | some t => do
      let root ← if first && t != .documentStart && !isDirective t then do
          directives 1 false
          node bound true false
        else do
          directives bound false
          expect .documentStart
          content bound
      discard (accept .documentEnd)
      let d : Document := ⟨root, (← get).numbered⟩
      return d :: (← documents bound false)

end Composing

def documents? (s : String) : Option (List Document) := do
  let tokens ← tokens? s
  let (ds, _) ← (Composing.documents (2 * tokens.length + 4) true).run { tokens }
  return ds

end Emend.Yaml
