import Emend.Proofs.Markup.Readable
import Emend.Proofs.Markup.Values

/-! # Parsed documents are readable

No clause looks at ids, so that a document has them if and only if it has them without its ids.
-/

namespace Emend.Markup

theorem Attribute.normal_anonymous {a : Attribute} : a.anonymous.Normal ↔ a.Normal := by
  rw [Attribute.normal_iff, Attribute.normal_iff]
  exact Iff.rfl

theorem Closing.normal_anonymous {name : String} {c : Closing} : c.anonymous.Normal name ↔ c.Normal name := by
  rw [Closing.normal_iff, Closing.normal_iff]
  exact Iff.rfl

theorem CharData.normalText_anonymous {d : CharData} : d.anonymous.NormalText ↔ d.NormalText := by
  rw [CharData.normalText_iff, CharData.normalText_iff]
  exact Iff.rfl

theorem CharData.normalCdata_anonymous {d : CharData} : d.anonymous.NormalCdata ↔ d.NormalCdata := by
  rw [CharData.normalCdata_iff, CharData.normalCdata_iff]
  exact Iff.rfl

theorem Comment.normal_anonymous {c : Comment} : c.anonymous.Normal ↔ c.Normal := by
  rw [Comment.normal_iff, Comment.normal_iff]
  exact Iff.rfl

theorem Instruction.normal_anonymous {i : Instruction} : i.anonymous.Normal ↔ i.Normal := by
  rw [Instruction.normal_iff, Instruction.normal_iff]
  exact Iff.rfl

theorem DocType.normal_anonymous {d : DocType} : d.anonymous.Normal ↔ d.Normal := by
  rw [DocType.normal_iff, DocType.normal_iff]
  exact Iff.rfl

theorem Misc.normal_anonymous {m : Misc} : m.anonymous.Normal ↔ m.Normal := by
  cases m with
  | comment c => exact Comment.normal_anonymous
  | instruction i => exact Instruction.normal_anonymous
  | docType d => exact DocType.normal_anonymous

theorem Misc.isDocType_anonymous (m : Misc) : m.anonymous.isDocType = m.isDocType := by
  cases m <;> rfl

theorem Misc.looksLikeDeclaration_anonymous {m : Misc} : m.anonymous.LooksLikeDeclaration ↔ m.LooksLikeDeclaration := by
  cases m <;> exact Iff.rfl

theorem Declaration.normal_anonymous {d : Declaration} : d.anonymous.Normal ↔ d.Normal := by
  obtain ⟨id, leading, attributes, beforeClose⟩ := d
  rw [Declaration.normal_iff, Declaration.normal_iff]
  refine and_congr Iff.rfl <| and_congr ?attributes <| and_congr ?first Iff.rfl
  case attributes => exact List.forall_mem_map.trans (forall₂_congr fun a _ => Attribute.normal_anonymous)
  case first =>
    cases attributes with
    | nil => exact Iff.rfl
    | cons a as => simp [Declaration.anonymous, Attribute.anonymous]

theorem Content.leading_anonymous (c : Content) : c.anonymous.leading = c.leading := by
  cases c with
  | tag t =>
    cases t
    rfl
  | charData _ | comment _ | instruction _ => rfl

theorem Content.isText_anonymous (c : Content) : c.anonymous.isText = c.isText := by
  cases c <;> rfl

theorem Content.normalLeaf_anonymous {c : Content} : c.anonymous.NormalLeaf ↔ c.NormalLeaf := by
  cases c with
  | tag t => exact Iff.rfl
  | charData d =>
    change (if d.cdata then d.anonymous.NormalCdata else d.anonymous.NormalText) ↔
      if d.cdata then d.NormalCdata else d.NormalText
    rw [CharData.normalCdata_anonymous, CharData.normalText_anonymous]
  | comment c => exact Comment.normal_anonymous
  | instruction i => exact Instruction.normal_anonymous

theorem separated_anonymousAll {last : String} {items : List Content} :
    Separated last (Content.anonymousAll items) ↔ Separated last items := by
  refine separated_congr ?_
  rw [Content.anonymousAll_eq_map, List.map_map]
  exact List.map_congr_left fun c _ => Prod.ext c.leading_anonymous c.isText_anonymous

theorem normalBody_anonymous {name : String} {items : List Content} {closing : Option Closing} :
    NormalBody name (some (Content.anonymousAll items)) (closing.map Closing.anonymous) ↔
      NormalBody name (some items) closing := by
  cases closing with
  | none => exact Iff.rfl
  | some c =>
    refine and_congr ?leaves <| and_congr separated_anonymousAll Closing.normal_anonymous
    case leaves =>
      rw [Content.anonymousAll_eq_map]
      exact List.forall_mem_map.trans (forall₂_congr fun c _ => Content.normalLeaf_anonymous)

theorem Tag.sound_anonymous {t : Tag} : t.anonymous.Sound ↔ t.Sound := by
  obtain ⟨id, leading, markers, name, attributes, content, closing, beforeClose⟩ := t
  rw [Tag.sound_iff, Tag.sound_iff]
  refine and_congr Iff.rfl <| and_congr Iff.rfl <| and_congr Iff.rfl <| and_congr ?attributes <|
    and_congr Iff.rfl ?body
  case attributes =>
    exact List.forall_mem_map.trans (forall₂_congr fun a _ => and_congr Attribute.normal_anonymous Iff.rfl)
  case body =>
    cases content with
    | none => cases closing <;> exact Iff.rfl
    | some items => exact normalBody_anonymous

mutual

theorem Tag.elements_anonymous (t : Tag) : t.anonymous.elements = t.elements.map Tag.anonymous := by
  obtain ⟨id, leading, markers, name, attributes, content, closing, beforeClose⟩ := t
  cases content with
  | none => rfl
  | some items => exact congrArg (List.cons _) (Content.elementsAll_anonymousAll items)

theorem Content.elementsAll_anonymousAll (cs : List Content) :
    Content.elementsAll (Content.anonymousAll cs) = (Content.elementsAll cs).map Tag.anonymous := by
  match cs with
  | [] => rfl
  | .tag t :: cs =>
    rw [Content.anonymousAll, Content.anonymous, Content.elementsAll, Content.elementsAll, Content.elements,
      Content.elements, t.elements_anonymous, Content.elementsAll_anonymousAll cs, List.map_append]
  | .charData _ :: cs | .comment _ :: cs | .instruction _ :: cs => exact Content.elementsAll_anonymousAll cs

end

theorem Tag.elementsBody_anonymous (t : Tag) :
    Content.elementsBody t.anonymous.content = (Content.elementsBody t.content).map Tag.anonymous := by
  obtain ⟨id, leading, markers, name, attributes, content, closing, beforeClose⟩ := t
  cases content with
  | none => rfl
  | some items => exact Content.elementsAll_anonymousAll items

mutual

theorem Tag.depth_anonymous (t : Tag) : t.anonymous.depth = t.depth := by
  obtain ⟨id, leading, markers, name, attributes, content, closing, beforeClose⟩ := t
  cases content with
  | none => rfl
  | some items => exact congrArg (· + 1) (Content.depthAll_anonymousAll items)

theorem Content.depthAll_anonymousAll (cs : List Content) :
    Content.depthAll (Content.anonymousAll cs) = Content.depthAll cs := by
  match cs with
  | [] => rfl
  | .tag t :: cs => exact congrArg₂ max t.depth_anonymous (Content.depthAll_anonymousAll cs)
  | .charData _ :: cs | .comment _ :: cs | .instruction _ :: cs =>
    exact congrArg (max 0) (Content.depthAll_anonymousAll cs)

end

theorem Document.readable_anonymous {d : Document} : d.anonymous.Readable ↔ d.Readable := by
  obtain ⟨id, path, kind, markers, bom, ⟨pid, declaration, misc⟩, root, epilog, eof⟩ := d
  rw [Document.readable_iff, Document.readable_iff]
  refine and_congr Iff.rfl <| and_congr Iff.rfl <| and_congr ?declaration <| and_congr ?misc <|
    and_congr ?first <| and_congr ?elements <| and_congr ?inner <| and_congr ?noComment <|
    and_congr ?noDocType <| and_congr ?depth <| and_congr ?epilog Iff.rfl
  case declaration =>
    cases declaration with
    | none => exact forall₂_congr fun x hx => by cases hx
    | some x => simp [Document.anonymous, Prolog.anonymous, Declaration.normal_anonymous]
  case misc => exact List.forall_mem_map.trans (forall₂_congr fun m _ => Misc.normal_anonymous)
  case first =>
    refine imp_congr Option.map_eq_none_iff ?_
    cases misc with
    | nil => exact Iff.rfl
    | cons m ms => simp [Document.anonymous, Prolog.anonymous, Misc.looksLikeDeclaration_anonymous]
  case elements =>
    have same := root.elements_anonymous
    exact same ▸ List.forall_mem_map.trans (forall₂_congr fun t _ => Tag.sound_anonymous)
  case inner =>
    have same := root.elementsBody_anonymous
    exact same ▸ List.forall_mem_map.trans (forall₂_congr fun t _ => by rw [t.name_anonymous])
  case noComment => exact root.name_anonymous ▸ Iff.rfl
  case noDocType => exact root.name_anonymous ▸ Iff.rfl
  case depth => exact root.depth_anonymous ▸ Iff.rfl
  case epilog =>
    refine List.forall_mem_map.trans (forall₂_congr fun m _ => ?_)
    rw [Misc.normal_anonymous, m.isDocType_anonymous]

theorem readable_of_parse {path : FilePath} {source : String} {ids ids' : Supply} {d : Document}
    (h : (Document.parse path source).run.run ids = (.ok d, ids')) : d.Readable ∧ d.path = path := by
  obtain ⟨read, hr, hp, same⟩ := exists_readable_of_parse h
  constructor
  · rw [← Document.readable_anonymous, same]
    exact Document.readable_anonymous.2 hr
  · rw [← hp]
    exact (Document.mk.inj same).2.1

end Emend.Markup
