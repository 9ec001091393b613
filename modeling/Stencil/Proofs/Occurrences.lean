import Stencil.Template.Basic

/-! The nodes of a template, and what holds at all of them. -/
namespace Stencil.Template

/-- `s` is `t` itself, or a node of its item template, of one of its properties, or of the definition
that it uses. -/
inductive Occurs (s : Template) : Template → Prop
  | here : Occurs s s
  | item {d : Option Json} {item : Template} (h : Occurs s item) : Occurs s (.array d (some item))
  | property {d : Option Json} {ps : List (Property Template)} {p : Property Template} (mem : p ∈ ps)
      (h : Occurs s p.template) : Occurs s (.object d ps)
  | definition {definition : TypeDef Template} {d : Option Json} (h : Occurs s definition.template) :
      Occurs s (.named definition d)

theorem Occurs.trans {r s t : Template} (h : Occurs r s) (h' : Occurs s t) : Occurs r t := by
  induction h' with
  | here => exact h
  | item _ ih => exact .item ih
  | property mem _ ih => exact .property mem ih
  | definition _ ih => exact .definition ih

/-- `P` holds at every node. -/
def Everywhere (P : Template → Prop) (t : Template) : Prop := ∀ s, Occurs s t → P s

variable {P Q : Template → Prop}

theorem Everywhere.root {t : Template} (h : t.Everywhere P) : P t := h t .here

theorem Everywhere.of_occurs {s t : Template} (h : t.Everywhere P) (hs : Occurs s t) : s.Everywhere P :=
  fun r hr => h r (hr.trans hs)

theorem Everywhere.imp {t : Template} (h : t.Everywhere P) (hPQ : ∀ s, P s → Q s) : t.Everywhere Q :=
  fun s hs => hPQ s (h s hs)

theorem everywhere_value_iff {tag : Tag} {d : Option Json} :
    (value tag d).Everywhere P ↔ P (value tag d) := by
  constructor
  · exact Everywhere.root
  · intro h s hs
    cases hs
    exact h

theorem everywhere_freeArray_iff {d : Option Json} :
    (array d none).Everywhere P ↔ P (array d none) := by
  constructor
  · exact Everywhere.root
  · intro h s hs
    cases hs
    exact h

theorem everywhere_array_iff {d : Option Json} {item : Template} :
    (array d (some item)).Everywhere P ↔ P (array d (some item)) ∧ item.Everywhere P := by
  constructor
  · intro h
    exact ⟨h.root, fun s hs => h s (.item hs)⟩
  · intro h s hs
    cases hs with
    | here => exact h.1
    | item hs => exact h.2 s hs

theorem everywhere_object_iff {d : Option Json} {ps : List (Property Template)} :
    (object d ps).Everywhere P ↔ P (object d ps) ∧ ∀ p ∈ ps, p.template.Everywhere P := by
  constructor
  · intro h
    exact ⟨h.root, fun p hp s hs => h s (.property hp hs)⟩
  · intro h s hs
    cases hs with
    | here => exact h.1
    | property hp hs => exact h.2 _ hp s hs

theorem everywhere_named_iff {definition : TypeDef Template} {d : Option Json} :
    (named definition d).Everywhere P ↔ P (named definition d) ∧ definition.template.Everywhere P := by
  constructor
  · intro h
    exact ⟨h.root, fun s hs => h s (.definition hs)⟩
  · intro h s hs
    cases hs with
    | here => exact h.1
    | definition hs => exact h.2 s hs

/-- A default may be put in late: only the root changes. -/
theorem Everywhere.setDefault {t : Template} (h : t.Everywhere P) {v : Json} (hr : P (t.setDefault v)) :
    (t.setDefault v).Everywhere P := by
  cases t with
  | value tag d => exact everywhere_value_iff.mpr hr
  | array d item =>
    cases item with
    | none => exact everywhere_freeArray_iff.mpr hr
    | some item => exact everywhere_array_iff.mpr ⟨hr, (everywhere_array_iff.mp h).2⟩
  | object d ps => exact everywhere_object_iff.mpr ⟨hr, (everywhere_object_iff.mp h).2⟩
  | named definition d => exact everywhere_named_iff.mpr ⟨hr, (everywhere_named_iff.mp h).2⟩

/-- The properties declared by an object template at its root. -/
def properties : Template → List (Property Template)
  | object _ ps => ps
  | _ => []

/-- The item template of an array template. -/
def item? : Template → Option Template
  | array _ item => item
  | _ => none

/-- No object template in `t` declares a name twice. -/
def NamesDistinct (t : Template) : Prop := t.Everywhere fun s => (s.properties.map (·.name)).Nodup

end Stencil.Template
