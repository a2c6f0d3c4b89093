import Emend.NodeId
import Emend.SortedMap

/-! # Markers

Notes attached to a node. They never show in printed text.
-/

namespace Emend

inductive Marker where
  | searchResult (id : NodeId) (description : Option String)
  | generic (id : NodeId) (name : String) (values : SortedMap String)
deriving DecidableEq, Inhabited

namespace Marker

def id : Marker → NodeId
  | searchResult i _ => i
  | generic i .. => i

def newSearchResult (description : Option String) : Fresh Marker :=
  return searchResult (← NodeId.fresh) description

def newGeneric (name : String) (values : SortedMap String) : Fresh Marker :=
  return generic (← NodeId.fresh) name values

def isSearchResult : Marker → Bool
  | searchResult .. => true
  | generic .. => false

end Marker

def hasSearchResult (markers : List Marker) : Bool := markers.any Marker.isSearchResult

end Emend
