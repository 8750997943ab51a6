import MarkupTemplate.Document.Basic
import MarkupTemplate.Lexeme
import MarkupTemplate.Reference

/-!
# The written form of trees

A tree is written as markup that reads back as the same tree.  Boundaries are not written, a
fragment is written as its children, and void elements have no end tag.  A text is escaped, except
inside the few elements whose content is taken exactly as it is.
-/

namespace MarkupTemplate

/-- An attribute in a tag, after the blank that separates it. -/
def Attribute.markup (entry : Attribute) : List Char :=
  ' ' :: entry.name.toList ++ ['=', Text.quotationMark] ++
    Reference.escapeAttribute entry.value.toList ++ [Text.quotationMark]

def startTagMarkup (name : String) (attributes : List Attribute) : List Char :=
  '<' :: name.toList ++ attributes.flatMap Attribute.markup ++ ['>']

def endTagMarkup (name : String) : List Char :=
  '<' :: '/' :: name.toList ++ ['>']

def textMarkup (verbatim : Bool) (data : String) : List Char :=
  if verbatim then data.toList else Reference.escapeText data.toList

def commentMarkup (data : String) : List Char :=
  ['<', '!', '-', '-'] ++ data.toList ++ ['-', '-', '>']

namespace Forest

/-- The trees of a forest as markup, as the content of an element that takes texts verbatim or
not. -/
def markup (verbatim : Bool) : Forest Content → List Char
  | .empty => []
  | .plant content children siblings =>
      (match content with
        | .boundary => []
        | .fragment => children.markup false
        | .text data => textMarkup verbatim data
        | .comment data => commentMarkup data
        | .element name attributes =>
            startTagMarkup name attributes ++
              if isVoidElement name then []
              else children.markup (hasVerbatimContent name.toList) ++ endTagMarkup name) ++
        siblings.markup verbatim

end Forest

namespace Document

/-- The parent of the node is an element that takes texts verbatim. -/
def standsVerbatim (document : Document) (id : NodeId) : Bool :=
  match (document.parent? id).bind document.name? with
  | some name => hasVerbatimContent name.toList
  | none => false

def markup (document : Document) (id : NodeId) : String :=
  match document.content? id with
  | none => ""
  | some content =>
      String.ofList
        ((Forest.plant content ((document.below id).map Prod.snd) .empty).markup
          (document.standsVerbatim id))

end Document

end MarkupTemplate
