import Stencil.Namespace

/-! Several namespaces side by side, and the edits that change them. -/
namespace Stencil

/-- Namespaces by name, and the number of definitions made in them so far. -/
structure Workspace where
  defined : Nat := 0
  namespaces : Entries Namespace := []

inductive Edit where
  | create (target : String)
  | copy (target source : String)
  | createFrom (target source : String) (names : Option (List String))
  | importFrom (target source : String) (names : Option (List String))
  | defineType (target name : String) (definition : Json)
  | defineTemplate (target name : String) (template : Template)
  | defineAlias (target newName name : String)
  | remove (target name : String)

namespace Workspace

/-- The namespace `name`; one that was never created is empty. -/
def get (w : Workspace) (name : String) : Namespace := (Entries.get? w.namespaces name).getD {}

def put (w : Workspace) (name : String) (ns : Namespace) : Workspace :=
  { w with namespaces := Entries.insert w.namespaces name ns }

def count (w : Workspace) : Workspace := { w with defined := w.defined + 1 }

/-- The workspace after an edit. A definition is identified by the number of those before it. -/
def apply (w : Workspace) : Edit → Except DefinitionError Workspace
  | .create target => .ok (w.put target {})
  | .copy target source => .ok (w.put target (w.get source))
  | .createFrom target source names => ((w.get source).imported names).map (w.put target)
  | .importFrom target source names =>
    ((w.get target).importFrom (w.get source) names).map (w.put target)
  | .defineType target name definition =>
    ((w.get target).defineType w.defined name definition).map (w.count.put target)
  | .defineTemplate target name t => .ok (w.count.put target ((w.get target).defineTemplate w.defined name t))
  | .defineAlias target newName name => ((w.get target).defineAlias newName name).map (w.put target)
  | .remove target name => .ok (w.put target ((w.get target).remove name))

end Workspace

end Stencil
