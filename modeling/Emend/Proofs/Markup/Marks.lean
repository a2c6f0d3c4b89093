import Emend.Proofs.Markup.Vetting

/-! # What elements were found as

Where the elements of a tree stand and as what they were found (`spots`), and the tree without that (`bare`). A
document that was just read has nothing found in it.
-/

namespace Emend

/-- As what a search result says that the node was found. -/
def Marker.found? : Marker → Option (Option String)
  | searchResult _ description => some description
  | generic .. => none

/-- As what a node was found, once for each of its search results. -/
def foundAs (markers : List Marker) : List (Option String) := markers.filterMap Marker.found?

def otherMarkers (markers : List Marker) : List Marker := markers.filter (!·.isSearchResult)

theorem hasSearchResult_eq (markers : List Marker) : hasSearchResult markers = !(foundAs markers).isEmpty := by
  induction markers with
  | nil => rfl
  | cons m ms ih =>
    cases m with
    | searchResult id description => rfl
    | generic id name values => exact ih

theorem foundAs_concat (markers : List Marker) (id : NodeId) (description : Option String) :
    foundAs (markers ++ [.searchResult id description]) = foundAs markers ++ [description] := List.filterMap_append

theorem otherMarkers_concat (markers : List Marker) (id : NodeId) (description : Option String) :
    otherMarkers (markers ++ [.searchResult id description]) = otherMarkers markers := by
  rw [otherMarkers, List.filter_append]
  exact List.append_nil _

namespace Markup

/-- An element by its name and the names of those around it, outermost first, with what it was found as. -/
structure Spot where
  ancestors : List String
  name : String
  found : List (Option String)
deriving DecidableEq

mutual

/-- The element and those inside it, in the order in which they begin. -/
def Tag.spots (ancestors : List String) : Tag → List Spot
  | ⟨_, _, markers, name, _, content, _, _⟩ =>
    ⟨ancestors, name, foundAs markers⟩ :: Content.spotsBody (ancestors ++ [name]) content

def Content.spots (ancestors : List String) : Content → List Spot
  | .tag t => t.spots ancestors
  | .charData _ | .comment _ | .instruction _ => []

def Content.spotsBody (ancestors : List String) : Option (List Content) → List Spot
  | some items => Content.spotsAll ancestors items
  | none => []

def Content.spotsAll (ancestors : List String) : List Content → List Spot
  | [] => []
  | c :: cs => c.spots ancestors ++ Content.spotsAll ancestors cs

end

mutual

/-- The element without the search results of elements. -/
def Tag.bare : Tag → Tag
  | ⟨id, leading, markers, name, attributes, content, closing, beforeClose⟩ =>
    ⟨id, leading, otherMarkers markers, name, attributes, Content.bareBody content, closing, beforeClose⟩

def Content.bare : Content → Content
  | .tag t => .tag t.bare
  | .charData d => .charData d
  | .comment c => .comment c
  | .instruction i => .instruction i

def Content.bareBody : Option (List Content) → Option (List Content)
  | some items => some (Content.bareAll items)
  | none => none

def Content.bareAll : List Content → List Content
  | [] => []
  | c :: cs => c.bare :: Content.bareAll cs

end

theorem Tag.spots_eq (ancestors : List String) (t : Tag) :
    t.spots ancestors =
      ⟨ancestors, t.name, foundAs t.markers⟩ :: Content.spotsBody (ancestors ++ [t.name]) t.content := by
  cases t
  rfl

theorem Tag.bare_eq (t : Tag) :
    t.bare = { t with markers := otherMarkers t.markers, content := Content.bareBody t.content } := by
  cases t
  rfl

def Document.bare (d : Document) : Document := { d with root := d.root.bare }

mutual

theorem Tag.print_bare (t : Tag) : t.bare.print = t.print := by
  obtain ⟨_, _, _, _, attributes, content, closing, _⟩ := t
  cases content with
  | none => simp only [Tag.bare, Content.bareBody, Tag.print]
  | some items =>
    cases closing with
    | none => simp only [Tag.bare, Content.bareBody, Tag.print]
    | some c => simp only [Tag.bare, Content.bareBody, Tag.print, Content.printAll_bareAll items]

theorem Content.print_bare (c : Content) : c.bare.print = c.print := by
  cases c with
  | tag t => exact t.print_bare
  | charData d => rfl
  | comment c => rfl
  | instruction i => rfl

theorem Content.printAll_bareAll (cs : List Content) : Content.printAll (Content.bareAll cs) = Content.printAll cs := by
  cases cs with
  | nil => rfl
  | cons c cs => rw [Content.bareAll, Content.printAll, Content.printAll, c.print_bare, Content.printAll_bareAll cs]

end

theorem Document.print_bare (d : Document) : d.bare.print = d.print := by
  rw [Document.print, Document.print, Document.bare, Tag.print_bare]

mutual

theorem Tag.spots_anonymous (ancestors : List String) (t : Tag) : t.anonymous.spots ancestors = t.spots ancestors := by
  obtain ⟨_, _, _, name, _, content, _, _⟩ := t
  cases content with
  | none => rfl
  | some items => exact congrArg (List.cons _) (Content.spotsAll_anonymousAll (ancestors ++ [name]) items)

theorem Content.spots_anonymous (ancestors : List String) (c : Content) :
    c.anonymous.spots ancestors = c.spots ancestors := by
  cases c with
  | tag t => exact t.spots_anonymous ancestors
  | charData d => rfl
  | comment c => rfl
  | instruction i => rfl

theorem Content.spotsAll_anonymousAll (ancestors : List String) (cs : List Content) :
    Content.spotsAll ancestors (Content.anonymousAll cs) = Content.spotsAll ancestors cs := by
  cases cs with
  | nil => rfl
  | cons c cs => exact congrArg₂ (· ++ ·) (c.spots_anonymous ancestors) (Content.spotsAll_anonymousAll ancestors cs)

end

mutual

theorem Tag.exists_of_mem_spots {ancestors : List String} {σ : Spot} (t : Tag) (h : σ ∈ t.spots ancestors) :
    ∃ u ∈ t.elements, σ.found = foundAs u.markers := by
  obtain ⟨id, leading, markers, name, attributes, content, closing, beforeClose⟩ := t
  rw [Tag.spots, List.mem_cons] at h
  rw [Tag.elements]
  obtain rfl | h := h
  · exact ⟨_, List.mem_cons_self, rfl⟩
  · obtain ⟨u, hu, found⟩ := Content.exists_of_mem_spotsBody content h
    exact ⟨u, List.mem_cons_of_mem _ hu, found⟩

theorem Content.exists_of_mem_spots {ancestors : List String} {σ : Spot} (c : Content) (h : σ ∈ c.spots ancestors) :
    ∃ u ∈ c.elements, σ.found = foundAs u.markers := by
  cases c with
  | tag t => exact t.exists_of_mem_spots h
  | charData _ | comment _ | instruction _ => cases h

theorem Content.exists_of_mem_spotsBody {ancestors : List String} {σ : Spot} (content : Option (List Content))
    (h : σ ∈ Content.spotsBody ancestors content) :
    ∃ u ∈ Content.elementsBody content, σ.found = foundAs u.markers := by
  cases content with
  | none => cases h
  | some items => exact Content.exists_of_mem_spotsAll items h

theorem Content.exists_of_mem_spotsAll {ancestors : List String} {σ : Spot} (cs : List Content)
    (h : σ ∈ Content.spotsAll ancestors cs) : ∃ u ∈ Content.elementsAll cs, σ.found = foundAs u.markers := by
  cases cs with
  | nil => cases h
  | cons c cs =>
    obtain h | h := List.mem_append.1 h
    · obtain ⟨u, hu, found⟩ := c.exists_of_mem_spots h
      exact ⟨u, List.mem_append_left _ hu, found⟩
    · obtain ⟨u, hu, found⟩ := Content.exists_of_mem_spotsAll cs h
      exact ⟨u, List.mem_append_right _ hu, found⟩

end

theorem found_eq_nil_of_parse {path : FilePath} {source : String} {ids ids' : Supply} {d : Document}
    (h : (Document.parse path source).run.run ids = (.ok d, ids')) {σ : Spot} (hσ : σ ∈ d.root.spots []) :
    σ.found = [] := by
  obtain ⟨read, readable, -, same⟩ := exists_readable_of_parse h
  have root : d.root.anonymous = read.root.anonymous := congrArg Document.root same
  rw [← Tag.spots_anonymous, root, Tag.spots_anonymous] at hσ
  obtain ⟨u, hu, found⟩ := read.root.exists_of_mem_spots hσ
  rw [found, (readable.elements u hu).markers]
  rfl

theorem isA_xml_of_parse {path : FilePath} {source : String} {ids ids' : Supply} {d : Document}
    (h : (Document.parse path source).run.run ids = (.ok d, ids')) : d.kind.isA .xml = true :=
  (Document.check_eq_ok.1 (check_of_parse h)).1.kind

end Markup
end Emend
