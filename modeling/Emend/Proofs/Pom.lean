import Emend.Context
import Emend.Proofs.Markup.ChildValue

/-! # Facts about build descriptors

What a summary of a POM depends on, and the cache of summaries.
-/

namespace Emend

open Markup

/-- What the cache holds as summaries was made from the documents next to them. -/
def Cache.Truthful (c : Cache) : Prop :=
  ∀ key d summary, c.get? .pom key = some (d, summary) → summary = Pom.ofDocument? d

theorem Cache.truthful_empty : Cache.Truthful {} := by
  intro _ _ _ h
  cases h

theorem Cache.lookup_erase_of_ne (c : Cache) {key key' : String} (h : key' ≠ key) :
    (c.erase key).entries.lookup key' = c.entries.lookup key' := by
  unfold erase
  induction c.entries with
  | nil => rfl
  | cons entry entries ih =>
    obtain ⟨k, v⟩ := entry
    by_cases hk : k = key
    · rw [List.filter_cons_of_neg (by simpa using hk), ih, List.lookup_cons, beq_false_of_ne (hk ▸ h)]
    · rw [List.filter_cons_of_pos (by simpa using hk), List.lookup_cons, List.lookup_cons, ih]

theorem Cache.get?_insert_of_ne {α β : Type} (c : Cache) (slot : Slot α) (slot' : Slot β) {key key' : String}
    (h : key' ≠ key) (a : α) : (c.insert slot key a).get? slot' key' = c.get? slot' key' := by
  rw [insert, get?, get?, List.lookup_cons, beq_false_of_ne h]
  exact congrArg (·.bind slot'.unwrap?) (c.lookup_erase_of_ne h)

theorem Cache.Truthful.insert {c : Cache} (h : c.Truthful) (key : String) (d : Document) :
    (c.insert .pom key (d, Pom.ofDocument? d)).Truthful := by
  intro key' e summary he
  by_cases same : key' = key
  · rw [same, Cache.get?_insert] at he
    cases he
    rfl
  · rw [Cache.get?_insert_of_ne c .pom .pom same] at he
    exact h key' e summary he

theorem Pom.cached_of_truthful {c : Cache} (h : c.Truthful) (d : Document) :
    (Pom.cached d c).1.1 = Pom.ofDocument? d ∧ (Pom.cached d c).2.Truthful := by
  unfold Pom.cached
  split
  next known summary hget =>
    split
    next same => exact ⟨same ▸ h _ _ _ hget, h⟩
    · exact ⟨rfl, h.insert _ d⟩
  · exact ⟨rfl, h.insert _ d⟩

def Pom.references (p : Pom) : Coordinates × Option Coordinates × List (String × String) :=
  (p.coordinates, p.parent, p.properties)

theorem Pom.substituteChars_plain (p : Pom) {s : List Char} (h : Text.breakOn? ['$', '{'] s = none) :
    p.substituteChars s = s := by
  rw [substituteChars]
  split
  · rfl
  next found => rw [h] at found; cases found

theorem Pom.substituteChars_unclosed (p : Pom) {s before inside : List Char}
    (h : Text.breakOn? ['$', '{'] s = some (before, inside)) (h' : Text.breakOn? ['}'] inside = none) :
    p.substituteChars s = s := by
  rw [substituteChars]
  split
  · rfl
  next found =>
    rw [h] at found
    cases found
    split
    · rfl
    next found => rw [h'] at found; cases found

theorem Pom.substituteChars_reference (p : Pom) {s before inside key rest : List Char}
    (h : Text.breakOn? ['$', '{'] s = some (before, inside)) (h' : Text.breakOn? ['}'] inside = some (key, rest)) :
    p.substituteChars s = before ++ (match p.lookup? (String.ofList key) with
      | some v => v.toList
      | none => '$' :: '{' :: key ++ ['}']) ++ p.substituteChars rest := by
  rw [substituteChars.eq_def p s]
  split
  next missed => rw [h] at missed; cases missed
  next found =>
    rw [h] at found
    cases found
    split
    next missed => rw [h'] at missed; cases missed
    next found =>
      rw [h'] at found
      cases found
      rfl

/-- The property with this value instead of its own, if it is one of these. -/
def reassign (properties : List String) (value : String) (property : String × String) : String × String :=
  (property.1, if properties.contains property.1 then value else property.2)

def Pom.given (p : Pom) (properties : List String) (value : String) : Pom :=
  { p with properties := p.properties.map (reassign properties value) }

section

variable {p q : Pom} (h : p.references = q.references)

include h

theorem Pom.lookup?_congr (key : String) : p.lookup? key = q.lookup? key := by
  obtain ⟨coordinates, parent, packaging, properties, dependencies, managed⟩ := p
  cases h
  rfl

theorem Pom.substituteChars_congr (s : List Char) : p.substituteChars s = q.substituteChars s := by
  fun_induction Pom.substituteChars p s with
  | case1 s opening => rw [q.substituteChars_plain opening]
  | case2 s before inside opening closing => rw [q.substituteChars_unclosed opening closing]
  | case3 s before inside opening key rest closing _ value ih =>
    have replaced := q.substituteChars_reference opening closing
    rw [← Pom.lookup?_congr h, ← ih] at replaced
    exact replaced.symm

theorem Pom.resolve_congr (value : String) : p.resolve value = q.resolve value := by
  have step (value : String) : p.substitute value = q.substitute value := by
    rw [substitute, substitute, substituteChars_congr h]
  have passes (n : Nat) : Pom.resolve.go p n value = Pom.resolve.go q n value := by
    induction n generalizing value with
    | zero => rfl
    | succ n ih => rw [resolve.go, resolve.go, step, ih]
  exact passes maxPasses

end

theorem propertyReference?_trim (value : String) : propertyReference? (Text.trim value) = propertyReference? value := by
  rw [propertyReference?, propertyReference?, Text.trim, String.toList_ofList, Text.trimChars_trimChars]

theorem Coordinates.ofTag?_eq_some {t : Tag} {c : Coordinates} :
    Coordinates.ofTag? t = some c ↔ t.childValue? "artifactId" = some c.artifactId ∧
      t.childValue? "groupId" = c.groupId ∧ t.childValue? "version" = c.version := by
  obtain ⟨groupId, artifactId, version⟩ := c
  rw [Coordinates.ofTag?]
  cases t.childValue? "artifactId" with
  | none => simp
  | some a => simp [and_left_comm]

/-- An element that is given a version is the same artifact of that version. -/
theorem Coordinates.ofTag?_givenVersion {version : String} {t u : Tag} (h : Tag.GivenChild "version" version t u) :
    Coordinates.ofTag? u = (Coordinates.ofTag? t).map ({ · with version := some (Text.trim version) }) := by
  rw [Coordinates.ofTag?, Coordinates.ofTag?, h.given, h.others "groupId" (by decide),
    h.others "artifactId" (by decide)]
  cases t.childValue? "artifactId" <;> rfl

theorem Dependency.map_ofTag? (t : Tag) : (Dependency.ofTag? t).map (·.coordinates) = Coordinates.ofTag? t := by
  rw [Dependency.ofTag?]
  cases Coordinates.ofTag? t <;> rfl

def Markup.Tag.dependenciesIn : Option Tag → List Tag
  | some t => t.childrenNamed "dependency"
  | none => []

/-- The elements that a summary takes its dependencies from: those in the first section of each kind. -/
def Markup.Document.listedDependencies (d : Document) : List Tag :=
  Tag.dependenciesIn (d.root.child? "dependencies") ++
    Tag.dependenciesIn ((d.root.child? "dependencyManagement").bind (·.child? "dependencies"))

theorem Dependency.listIn_eq (section? : Option Tag) :
    Dependency.listIn section? = (Tag.dependenciesIn section?).filterMap Dependency.ofTag? := by
  cases section? <;> rfl

theorem Pom.dependencies_of_ofDocument? {d : Document} {p : Pom} (h : Pom.ofDocument? d = some p) :
    p.dependencies ++ p.managedDependencies = d.listedDependencies.filterMap Dependency.ofTag? := by
  obtain ⟨_, -, h⟩ := Option.bind_eq_some_iff.1 h
  obtain ⟨own, -, h⟩ := Option.bind_eq_some_iff.1 h
  cases h
  rw [Document.listedDependencies, List.filterMap_append, ← Dependency.listIn_eq, ← Dependency.listIn_eq]

/-- The summary has a dependency that reads like the element. -/
def Markup.Document.Lists (d : Document) (t : Tag) : Prop :=
  ∃ p, Pom.ofDocument? d = some p ∧ ∃ dep ∈ p.dependencies ++ p.managedDependencies, Dependency.ofTag? t = some dep

instance (d : Document) (t : Tag) : Decidable (d.Lists t) :=
  inferInstanceAs (Decidable (∃ p ∈ Pom.ofDocument? d, ∃ dep ∈ p.dependencies ++ p.managedDependencies,
    Dependency.ofTag? t = some dep))

def Markup.Tag.propertiesIn : Option Tag → List (String × String)
  | some t => t.children.map fun p => (p.name, p.value?.getD "")
  | none => []

/-- What a summary says of references, the parts of the root element that it is taken from. -/
theorem Pom.map_references_ofDocument? {d : Document} (pom : d.kind.isA .mavenPom = true)
    (project : d.root.name = "project") :
    (Pom.ofDocument? d).map Pom.references = (Coordinates.ofTag? d.root).map fun own =>
      let parent := (d.root.child? "parent").bind Coordinates.ofTag?
      ({ own with
          groupId := own.groupId <|> parent.bind (·.groupId)
          version := own.version <|> parent.bind (·.version) },
        parent, Tag.propertiesIn (d.root.child? "properties")) := by
  have rooted : (d.kind.isA .mavenPom && d.root.name == "project") = true := by
    rw [pom, project, beq_self_eq_true, Bool.and_true]
  have accepted : (guard ((d.kind.isA .mavenPom && d.root.name == "project") = true) : Option Unit) = some () :=
    if_pos rooted
  rw [Pom.ofDocument?, accepted]
  cases own : Coordinates.ofTag? d.root with
  | none => simp [own]
  | some c => cases declared : d.root.child? "properties" <;> simp [own, declared, Pom.references, Tag.propertiesIn]

end Emend
