import Emend.SourceVisitor

/-! # Recipes

A named transformation: perhaps a visitor, and recipes that run after it.
-/

namespace Emend

structure Recipe where
  name : String
  displayName : String
  description : String
  visitor : Option SourceVisitor
  next : List Recipe

instance : Inhabited Recipe := ⟨⟨"", "", "", none, []⟩⟩

structure Descriptor where
  name : String
  displayName : String
  description : String
  recipeList : List Descriptor

namespace Recipe

mutual

def descriptor : Recipe → Descriptor
  | ⟨name, displayName, description, _, next⟩ => ⟨name, displayName, description, descriptorAll next⟩

def descriptorAll : List Recipe → List Descriptor
  | [] => []
  | r :: rs => r.descriptor :: descriptorAll rs

end

end Recipe

mutual

def Descriptor.toJson : Descriptor → Json
  | ⟨name, displayName, description, recipeList⟩ =>
    let fields := [("name", .string name), ("displayName", .string displayName), ("description", .string description)]
    match recipeList with
    | [] => .object fields
    | d :: ds => .object (fields ++ [("recipeList", .array (d.toJson :: Descriptor.toJsonAll ds))])

def Descriptor.toJsonAll : List Descriptor → List Json
  | [] => []
  | d :: ds => d.toJson :: Descriptor.toJsonAll ds

end

end Emend
