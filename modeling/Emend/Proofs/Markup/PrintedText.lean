import Emend.Markup.Print
import Emend.Markup.Reader

/-! # The characters of printed nodes

What each node prints, as the list of its characters from left to right, and what an element prints that
is still open.
-/

namespace Emend.Markup

theorem Attribute.toList_print (a : Attribute) :
    a.print.toList = a.leading.toList ++ (a.key.toList ++ (a.beforeEquals.toList ++ '=' ::
      (a.afterEquals.toList ++ a.quote.char :: (a.rawValue.toList ++ [a.quote.char])))) := by
  simp [Attribute.print]

theorem toList_printAttributes (as : List Attribute) :
    (printAttributes as).toList = as.flatMap (·.print.toList) := by
  rw [printAttributes, String.toList_join, List.flatMap_map]

theorem Closing.toList_print (c : Closing) :
    c.print.toList =
      c.leading.toList ++ ('<' :: '/' :: (c.name.toList ++ (c.beforeClose.toList ++ ['>']))) := by
  simp [Closing.print]

theorem CharData.toList_print_cdata {d : CharData} (h : d.cdata = true) :
    d.print.toList = d.leading.toList ++ ("<![CDATA[".toList ++ (d.text.toList ++ [']', ']', '>'])) := by
  simp [CharData.print, h]

theorem CharData.toList_print_raw {d : CharData} (h : d.cdata = false) :
    d.print.toList = d.leading.toList ++ d.text.toList := by
  simp [CharData.print, h]

theorem Comment.toList_print (c : Comment) :
    c.print.toList = c.leading.toList ++ ('<' :: '!' :: '-' :: '-' :: (c.text.toList ++ ['-', '-', '>'])) := by
  simp [Comment.print]

theorem Instruction.toList_print (i : Instruction) :
    i.print.toList =
      i.leading.toList ++ ('<' :: '?' :: (i.target.toList ++ (i.content.toList ++ ['?', '>']))) := by
  simp [Instruction.print]

theorem DocType.toList_print (d : DocType) :
    d.print.toList = d.leading.toList ++ ("<!DOCTYPE".toList ++ (d.body.toList ++ ['>'])) := by
  simp [DocType.print]

theorem toList_printMisc (ms : List Misc) : (printMisc ms).toList = ms.flatMap (·.print.toList) := by
  rw [printMisc, String.toList_join, List.flatMap_map]

theorem Content.toList_printAll (cs : List Content) :
    (Content.printAll cs).toList = cs.flatMap (·.print.toList) := by
  induction cs with
  | nil => rfl
  | cons c cs ih => rw [Content.printAll, String.toList_append, ih, List.flatMap_cons]

theorem Content.printAll_append (cs ds : List Content) :
    Content.printAll (cs ++ ds) = Content.printAll cs ++ Content.printAll ds := by
  induction cs with
  | nil => rw [List.nil_append, Content.printAll, String.empty_append]
  | cons c cs ih => rw [List.cons_append, Content.printAll, Content.printAll, ih, String.append_assoc]

theorem Declaration.toList_print (d : Declaration) :
    d.print.toList = d.leading.toList ++ ("<?xml".toList ++ ((printAttributes d.attributes).toList ++
      (d.beforeClose.toList ++ ['?', '>']))) := by
  simp [Declaration.print]

/-- A start tag up to its closing bracket, which does not belong to it. -/
def startText (leading name : String) (attributes : List Attribute) (beforeClose : String) : List Char :=
  leading.toList ++ '<' :: (name.toList ++ ((printAttributes attributes).toList ++ beforeClose.toList))

def OpenTag.opening (o : OpenTag) : List Char :=
  startText o.leading o.name o.attributes o.beforeClose ++ '>' :: (Content.printAll o.items.reverse).toList

theorem Tag.toList_print_selfClosing (id : NodeId) (leading : String) (markers : List Marker) (name : String)
    (attributes : List Attribute) (closing : Option Closing) (beforeClose : String) :
    (Tag.mk id leading markers name attributes none closing beforeClose).print.toList =
      startText leading name attributes beforeClose ++ ['/', '>'] := by
  simp [Tag.print, startText]

theorem Tag.toList_print_body (id : NodeId) (leading : String) (markers : List Marker) (name : String)
    (attributes : List Attribute) (items : List Content) (closing : Closing) (beforeClose : String) :
    (Tag.mk id leading markers name attributes (some items) (some closing) beforeClose).print.toList =
      startText leading name attributes beforeClose ++
        '>' :: ((Content.printAll items).toList ++ closing.print.toList) := by
  simp [Tag.print, startText]

theorem Tag.exists_bracket (t : Tag) : ∃ s, t.print.toList = t.leading.toList ++ '<' :: s := by
  obtain ⟨_, _, _, _, _, content, closing, _⟩ := t
  cases content with
  | none => simp [Tag.print]
  | some items => cases closing <;> simp [Tag.print]

theorem OpenTag.opening_push (o : OpenTag) (item : Content) :
    (o.push item).opening = o.opening ++ item.print.toList := by
  simp [OpenTag.opening, OpenTag.push, Content.toList_printAll]

theorem OpenTag.toList_print_close (o : OpenTag) (closing : Closing) :
    (o.close closing).print.toList = o.opening ++ closing.print.toList := by
  rw [OpenTag.close, Tag.toList_print_body]
  simp [OpenTag.opening]

def Turn.text : Turn → List Char
  | .close closing => closing.print.toList
  | .item content => content.print.toList
  | .enter opened => opened.opening

theorem Prolog.toList_print (p : Prolog) :
    p.print.toList = p.declaration.elim [] (·.print.toList) ++ (printMisc p.misc).toList := by
  cases h : p.declaration <;> simp [Prolog.print, h]

end Emend.Markup
