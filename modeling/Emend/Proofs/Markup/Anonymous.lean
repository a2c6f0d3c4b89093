import Emend.Markup.Numbering
import Emend.Markup.Print
import Mathlib.Logic.Basic

/-! # Trees without ids

`anonymous` takes the ids off a tree. Two trees that are equal without their ids print the same text, and
numbering a tree changes nothing but its ids.
-/

namespace Emend.Markup

def Attribute.anonymous (a : Attribute) : Attribute := { a with id := .none }

def Closing.anonymous (c : Closing) : Closing := { c with id := .none }

def CharData.anonymous (d : CharData) : CharData := { d with id := .none }

def Comment.anonymous (c : Comment) : Comment := { c with id := .none }

def Instruction.anonymous (i : Instruction) : Instruction := { i with id := .none }

def DocType.anonymous (d : DocType) : DocType := { d with id := .none }

def Misc.anonymous : Misc → Misc
  | comment c => comment c.anonymous
  | instruction i => instruction i.anonymous
  | docType d => docType d.anonymous

mutual

def Tag.anonymous : Tag → Tag
  | ⟨_, leading, markers, name, attributes, content, closing, beforeClose⟩ =>
    ⟨.none, leading, markers, name, attributes.map Attribute.anonymous,
      match content with
      | some items => some (Content.anonymousAll items)
      | none => none,
      closing.map Closing.anonymous, beforeClose⟩

def Content.anonymous : Content → Content
  | .tag t => .tag t.anonymous
  | .charData d => .charData d.anonymous
  | .comment c => .comment c.anonymous
  | .instruction i => .instruction i.anonymous

def Content.anonymousAll : List Content → List Content
  | [] => []
  | c :: cs => c.anonymous :: Content.anonymousAll cs

end

def Declaration.anonymous (d : Declaration) : Declaration :=
  { d with id := .none, attributes := d.attributes.map Attribute.anonymous }

def Prolog.anonymous (p : Prolog) : Prolog where
  id := .none
  declaration := p.declaration.map Declaration.anonymous
  misc := p.misc.map Misc.anonymous

def Document.anonymous (d : Document) : Document :=
  { d with
    id := .none
    prolog := d.prolog.anonymous
    root := d.root.anonymous
    epilog := d.epilog.map Misc.anonymous }

theorem Content.anonymousAll_eq_map (items : List Content) :
    Content.anonymousAll items = items.map Content.anonymous := by
  induction items with
  | nil => rfl
  | cons c cs ih => rw [Content.anonymousAll, ih, List.map_cons]

theorem map_anonymous_anonymous (as : List Attribute) :
    (as.map Attribute.anonymous).map Attribute.anonymous = as.map Attribute.anonymous := by
  rw [List.map_map]
  rfl

theorem Misc.anonymous_anonymous (m : Misc) : m.anonymous.anonymous = m.anonymous := by
  cases m <;> rfl

theorem map_misc_anonymous_anonymous (ms : List Misc) :
    (ms.map Misc.anonymous).map Misc.anonymous = ms.map Misc.anonymous := by
  rw [List.map_map]
  exact List.map_congr_left fun m _ => m.anonymous_anonymous

mutual

theorem Tag.anonymous_anonymous (t : Tag) : t.anonymous.anonymous = t.anonymous := by
  obtain ⟨_, _, _, _, attributes, content, closing, _⟩ := t
  cases content with
  | none =>
    rw [Tag.anonymous, Tag.anonymous, map_anonymous_anonymous, Option.map_map]
    rfl
  | some items =>
    rw [Tag.anonymous, Tag.anonymous, map_anonymous_anonymous, Option.map_map,
      Content.anonymousAll_anonymousAll items]
    rfl

theorem Content.anonymous_anonymous (c : Content) : c.anonymous.anonymous = c.anonymous := by
  cases c with
  | tag t => exact congrArg Content.tag t.anonymous_anonymous
  | charData d => rfl
  | comment c => rfl
  | instruction i => rfl

theorem Content.anonymousAll_anonymousAll (cs : List Content) :
    Content.anonymousAll (Content.anonymousAll cs) = Content.anonymousAll cs := by
  cases cs with
  | nil => rfl
  | cons c cs => exact congrArg₂ List.cons c.anonymous_anonymous (Content.anonymousAll_anonymousAll cs)

end

theorem Declaration.anonymous_anonymous (d : Declaration) : d.anonymous.anonymous = d.anonymous := by
  rw [Declaration.anonymous, Declaration.anonymous, map_anonymous_anonymous]

theorem Prolog.anonymous_anonymous (p : Prolog) : p.anonymous.anonymous = p.anonymous := by
  obtain ⟨_, declaration, misc⟩ := p
  rw [Prolog.anonymous, Prolog.anonymous, map_misc_anonymous_anonymous]
  cases declaration with
  | none => rfl
  | some d => rw [Option.map_some, Option.map_some, d.anonymous_anonymous]

theorem Document.anonymous_anonymous (d : Document) : d.anonymous.anonymous = d.anonymous := by
  rw [Document.anonymous, Document.anonymous, d.prolog.anonymous_anonymous, d.root.anonymous_anonymous,
    map_misc_anonymous_anonymous]

theorem Misc.print_anonymous (m : Misc) : m.anonymous.print = m.print := by
  cases m <;> rfl

theorem printAttributes_anonymous (as : List Attribute) :
    printAttributes (as.map Attribute.anonymous) = printAttributes as := by
  rw [printAttributes, printAttributes, List.map_map]
  rfl

theorem printMisc_anonymous (ms : List Misc) : printMisc (ms.map Misc.anonymous) = printMisc ms := by
  rw [printMisc, printMisc, List.map_map]
  exact congrArg String.join (List.map_congr_left fun m _ => m.print_anonymous)

mutual

theorem Tag.print_anonymous (t : Tag) : t.anonymous.print = t.print := by
  obtain ⟨_, _, _, _, attributes, content, closing, _⟩ := t
  cases content with
  | none => simp only [Tag.anonymous, Tag.print, printAttributes_anonymous]
  | some items =>
    cases closing with
    | none => simp only [Tag.anonymous, Tag.print, Option.map_none, printAttributes_anonymous]
    | some c =>
      simp only [Tag.anonymous, Tag.print, Option.map_some, printAttributes_anonymous,
        Content.printAll_anonymous items]
      rfl

theorem Content.print_anonymous (c : Content) : c.anonymous.print = c.print := by
  cases c with
  | tag t => exact t.print_anonymous
  | charData d => rfl
  | comment c => rfl
  | instruction i => rfl

theorem Content.printAll_anonymous (cs : List Content) :
    Content.printAll (Content.anonymousAll cs) = Content.printAll cs := by
  cases cs with
  | nil => rfl
  | cons c cs => rw [Content.anonymousAll, Content.printAll, Content.printAll,
      Content.print_anonymous c, Content.printAll_anonymous cs]

end

theorem Declaration.print_anonymous (d : Declaration) : d.anonymous.print = d.print := by
  simp only [Declaration.print, Declaration.anonymous, printAttributes_anonymous]

theorem Prolog.print_anonymous (p : Prolog) : p.anonymous.print = p.print := by
  obtain ⟨_, declaration, misc⟩ := p
  cases declaration with
  | none => simp only [Prolog.print, Prolog.anonymous, Option.map_none, printMisc_anonymous]
  | some d =>
    simp only [Prolog.print, Prolog.anonymous, Option.map_some, printMisc_anonymous, d.print_anonymous]

theorem Document.print_anonymous (d : Document) : d.anonymous.print = d.print := by
  rw [Document.print, Document.print, Document.anonymous]
  rw [Prolog.print_anonymous, Tag.print_anonymous, printMisc_anonymous]

theorem map_mapM_number {α : Type} {number : α → Fresh α} {strip : α → α}
    (h : ∀ a s, strip ((number a).run s).1 = strip a) (as : List α) (s : Supply) :
    ((as.mapM number).run s).1.map strip = as.map strip := by
  induction as generalizing s with
  | nil => rfl
  | cons a as ih =>
    rw [List.mapM_cons]
    exact congrArg₂ List.cons (h a s) (ih _)

theorem Attribute.anonymous_number (a : Attribute) (s : Supply) :
    (a.number.run s).1.anonymous = a.anonymous := rfl

theorem Closing.anonymous_number (c : Closing) (s : Supply) :
    (c.number.run s).1.anonymous = c.anonymous := rfl

theorem Misc.anonymous_number (m : Misc) (s : Supply) : (m.number.run s).1.anonymous = m.anonymous := by
  cases m <;> rfl

mutual

theorem Tag.anonymous_number (t : Tag) (s : Supply) : (t.number.run s).1.anonymous = t.anonymous := by
  obtain ⟨_, _, _, _, attributes, content, closing, _⟩ := t
  have ha := map_mapM_number Attribute.anonymous_number attributes ⟨s.next + 1⟩
  cases content with
  | none =>
    rw [Tag.anonymous, ← ha]
    cases closing <;> rfl
  | some items =>
    rw [Tag.anonymous, ← ha, ← Content.anonymousAll_numberAll items]
    cases closing <;> rfl

theorem Content.anonymous_number (c : Content) (s : Supply) :
    (c.number.run s).1.anonymous = c.anonymous := by
  cases c with
  | tag t => exact congrArg Content.tag (t.anonymous_number s)
  | charData d => rfl
  | comment c => rfl
  | instruction i => rfl

theorem Content.anonymousAll_numberAll (cs : List Content) (s : Supply) :
    Content.anonymousAll ((Content.numberAll cs).run s).1 = Content.anonymousAll cs := by
  cases cs with
  | nil => rfl
  | cons c cs =>
    exact congrArg₂ List.cons (c.anonymous_number s) (Content.anonymousAll_numberAll cs _)

end

theorem Declaration.anonymous_number (d : Declaration) (s : Supply) :
    (d.number.run s).1.anonymous = d.anonymous := by
  rw [Declaration.anonymous, Declaration.anonymous,
    ← map_mapM_number Attribute.anonymous_number d.attributes ⟨s.next + 1⟩]
  rfl

theorem Prolog.anonymous_number (p : Prolog) (s : Supply) :
    (p.number.run s).1.anonymous = p.anonymous := by
  obtain ⟨_, declaration, misc⟩ := p
  cases declaration with
  | none =>
    rw [Prolog.anonymous, Prolog.anonymous, ← map_mapM_number Misc.anonymous_number misc ⟨s.next + 1⟩]
    rfl
  | some d =>
    rw [Prolog.anonymous, Prolog.anonymous, Option.map_some, ← d.anonymous_number ⟨s.next + 1⟩,
      ← map_mapM_number Misc.anonymous_number misc]
    rfl

theorem Document.anonymous_number (d : Document) (s : Supply) :
    (d.number.run s).1.anonymous = d.anonymous := by
  rw [Document.anonymous, Document.anonymous, ← d.prolog.anonymous_number ⟨s.next + 1⟩,
    ← d.root.anonymous_number, ← map_mapM_number Misc.anonymous_number d.epilog]
  rfl

theorem Document.print_number (d : Document) (s : Supply) : (d.number.run s).1.print = d.print := by
  rw [← Document.print_anonymous, d.anonymous_number s, Document.print_anonymous]

end Emend.Markup
