import Stencil.Template.Basic
import Stencil.Template.Error
import Stencil.Outline

/-! Outlines of documents, templates and definition errors. -/
namespace Stencil

namespace Json

mutual

def outline : Json → Outline
  | null => .atom "Null"
  | bool b => .atom ("Bool(" ++ toString b ++ ")")
  | number n => .atom ("Number(" ++ n.text ++ ")")
  | string s => .atom ("String(" ++ quotedText s ++ ")")
  | array vs => .list "Array " (outlineItems vs)
  | object ms => .map "Object " (outlineMembers ms)

def outlineItems : List Json → List Outline
  | [] => []
  | v :: vs => v.outline :: outlineItems vs

def outlineMembers : List (String × Json) → List (String × Outline)
  | [] => []
  | (k, v) :: ms => (k, v.outline) :: outlineMembers ms

end

end Json

def Tag.outline (t : Tag) : Outline := .atom t.name.capitalize

namespace Template

def outlineNode (kind record : String) (fields : List (String × Outline)) : Outline :=
  .call kind [.record record fields]

def outlineDefault (d : Option Json) : String × Outline := ("default", .ofOption Json.outline d)

mutual

def outline : Template → Outline
  | value t d => outlineNode "Value" "ValueTemplate" [("tag", t.outline), outlineDefault d]
  | array d none => outlineNode "Array" "ArrayTemplate" [outlineDefault d, ("item", .atom "None")]
  | array d (some item) =>
    outlineNode "Array" "ArrayTemplate" [outlineDefault d, ("item", .call "Some" [outline item])]
  | object d ps =>
    outlineNode "Object" "ObjectTemplate"
      [outlineDefault d, ("properties", .list "" (outlineProperties ps))]
  | named d v =>
    outlineNode "Named" "NamedTemplate"
      [("def", .record "TypeDef" [("name", .ofText d.name), ("template", outline d.template)]),
        outlineDefault v]

def outlineProperties : List (Property Template) → List Outline
  | [] => []
  | p :: ps =>
    .record "PropertyTemplate"
      [("name", .ofText p.name), ("required", .ofBool p.required), ("nullable", .ofBool p.nullable),
        ("template", outline p.template)] :: outlineProperties ps

end

end Template

def Path.outline (p : Path) : Outline := .call "ContextPath" [.list "" (p.map .ofText)]

def DefinitionError.outline : DefinitionError → Outline
  | malformed path fault =>
    .record "Syntax" [("path", Path.outline path), ("message", .ofText fault.message)]
  | undefinedType path name =>
    .record "UndefinedType" [("path", Path.outline path), ("name", .ofText name)]
  | undefinedTarget newName name => .record "BadAlias" [("alias", .ofText newName), ("name", .ofText name)]
  | undefinedImport name => .record "BadImport" [("name", .ofText name)]

end Stencil
