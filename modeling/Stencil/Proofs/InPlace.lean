import Stencil.Proofs.Runs

/-! Edits carried out in place. A program changes a namespace one binding after the other, and what it
has changed by the time it is refused stays changed. Edits look up all that they need before they bind
anything, so one that is refused has changed nothing. -/
namespace Stencil

theorem Tag.ofName?_eq_none_iff {name : String} : Tag.ofName? name = none ↔ ∀ t : Tag, t.name ≠ name := by
  have hall : ∀ t : Tag, t ∈ all := by
    intro t
    cases t <;> decide
  simp [ofName?, List.find?_eq_none, hall]

/-- A name stands for nothing when it is neither defined nor the name of a built-in type. -/
theorem Namespace.resolve_eq_none_iff {ns : Namespace} {name : String} :
    ns.resolve name = none ↔ name ∉ ns.names ∧ ∀ t : Tag, t.name ≠ name := by
  rw [resolve_eq, Option.or_eq_none_iff, Entries.get?_eq_none_iff, TypeRef.builtin?, Option.map_eq_none_iff,
    Tag.ofName?_eq_none_iff]
  rfl

/-- Programs that change a namespace in place and may be refused on the way. -/
abbrev Editing := EStateM DefinitionError Namespace

namespace Editing

def bind (name : String) (ref : TypeRef) : Editing PUnit := modify (·.bind name ref)

def bindAll (es : Entries TypeRef) : Editing PUnit := forM es fun e => Editing.bind e.1 e.2

def fetch (source : Namespace) (name : String) : Editing (String × TypeRef) :=
  match Entries.get? source.bindings name with
  | some ref => pure (name, ref)
  | none => throw (.undefinedImport name)

def importFrom (source : Namespace) : Option (List String) → Editing PUnit
  | none => bindAll source.bindings
  | some names => do
    let picked ← names.mapM (fetch source)
    bindAll picked

def defineTemplate (id : Nat) (name : String) (t : Template) : Editing PUnit :=
  Editing.bind name (.defined ⟨id, name, t⟩)

def defineType (id : Nat) (name : String) (d : Json) : Editing PUnit := do
  match (← get).compile d with
  | .ok t => defineTemplate id name t
  | .error err => throw err

def defineAlias (newName name : String) : Editing PUnit := do
  match (← get).resolve name with
  | some ref => Editing.bind newName ref
  | none => throw (.undefinedTarget newName name)

def remove (name : String) : Editing PUnit := modify (·.remove name)

/-- Puts in the place of the namespace what the program makes of an empty one. -/
def anew (p : Editing PUnit) : Editing PUnit :=
  match p.run {} with
  | .ok _ ns => set ns
  | .error err _ => throw err

variable {ns source : Namespace}

theorem run_bindAll (es : Entries TypeRef) :
    (bindAll es).run ns = .ok ⟨⟩ ⟨Entries.insertAll ns.bindings es⟩ := by
  induction es generalizing ns with
  | nil => rfl
  | cons e es ih =>
    rw [bindAll, List.forM_cons, EStateM.run_bind, bind, EStateM.run_modify]
    exact ih

/-- Looking names up changes nothing, whether they are all there or not. -/
theorem run_fetchAll (names : List String) :
    (names.mapM (fetch source)).run ns =
      match source.pick names with
      | .ok picked => .ok picked ns
      | .error err => .error err ns := by
  induction names with
  | nil => rfl
  | cons name names ih =>
    rw [List.mapM_cons, EStateM.run_bind, fetch, Namespace.pick]
    cases Entries.get? source.bindings name with
    | none => rfl
    | some ref =>
      dsimp only
      rw [EStateM.run_pure]
      dsimp only
      rw [EStateM.run_bind, ih]
      cases source.pick names <;> rfl

/-- What a program comes to that either makes the namespace `r` says or changes nothing. -/
def outcome (ns : Namespace) : Except DefinitionError Namespace → EStateM.Result DefinitionError Namespace PUnit
  | .ok ns' => .ok ⟨⟩ ns'
  | .error err => .error err ns

theorem run_importFrom (names : Option (List String)) :
    (importFrom source names).run ns = outcome ns (ns.importFrom source names) := by
  cases names with
  | none => exact run_bindAll source.bindings
  | some names =>
    rw [importFrom, EStateM.run_bind, run_fetchAll, Namespace.importFrom]
    cases source.pick names with
    | error err => rfl
    | ok picked => exact run_bindAll picked

theorem run_defineType (id : Nat) (name : String) (d : Json) :
    (defineType id name d).run ns = outcome ns (ns.defineType id name d) := by
  rw [defineType, EStateM.run_bind, EStateM.run_get, Namespace.defineType]
  dsimp only
  cases ns.compile d <;> rfl

theorem run_defineAlias (newName name : String) :
    (defineAlias newName name).run ns = outcome ns (ns.defineAlias newName name) := by
  rw [defineAlias, EStateM.run_bind, EStateM.run_get, Namespace.defineAlias]
  dsimp only
  cases ns.resolve name <;> rfl

end Editing

/-- What the edit does in its target, in a workspace `w`. -/
def Edit.perform (w : Workspace) : Edit → Editing PUnit
  | create _ => set ({} : Namespace)
  | copy _ source => set (w.get source)
  | createFrom _ source names => .anew (.importFrom (w.get source) names)
  | importFrom _ source names => .importFrom (w.get source) names
  | defineType _ name d => .defineType w.defined name d
  | defineTemplate _ name t => .defineTemplate w.defined name t
  | defineAlias _ newName name => .defineAlias newName name
  | remove _ name => .remove name

namespace Workspace

/-- In place an edit comes to what `apply` says, and if it is refused it has changed nothing. -/
theorem run_perform (w : Workspace) (e : Edit) :
    (e.perform w).run (w.get e.target) = Editing.outcome (w.get e.target) (w.edited e) := by
  cases e with
  | create target => rfl
  | copy target source => rfl
  | createFrom target source names =>
    rw [Edit.perform, Editing.anew, Editing.run_importFrom, edited, Namespace.imported]
    cases Namespace.importFrom {} (w.get source) names <;> rfl
  | importFrom target source names => exact Editing.run_importFrom names
  | defineType target name d => exact Editing.run_defineType w.defined name d
  | defineTemplate target name t => rfl
  | defineAlias target newName name => exact Editing.run_defineAlias newName name
  | remove target name => rfl

theorem defineType_refused_iff {w : Workspace} {target name : String} {d : Json} {err : DefinitionError} :
    w.apply (.defineType target name d) = .error err ↔ (w.get target).compile d = .error err := by
  rw [apply_eq_error_iff, edited, Namespace.defineType]
  cases (w.get target).compile d <;> simp [Except.map]

theorem defineAlias_refused_iff {w : Workspace} {target newName name : String} {err : DefinitionError} :
    w.apply (.defineAlias target newName name) = .error err ↔
      (name ∉ (w.get target).names ∧ ∀ t : Tag, t.name ≠ name) ∧ err = .undefinedTarget newName name := by
  rw [apply_eq_error_iff, edited, Namespace.defineAlias, ← Namespace.resolve_eq_none_iff]
  cases (w.get target).resolve name <;> simp [eq_comm]

theorem importFrom_refused_iff {ns source : Namespace} {names : List String} {err : DefinitionError} :
    ns.importFrom source (some names) = .error err ↔
      ∃ name, names.find? (· ∉ source.names) = some name ∧ err = .undefinedImport name := by
  rw [Namespace.importFrom, ← Namespace.pick_eq_error_iff]
  cases source.pick names <;> simp [Except.map]

/-- Which edits are refused and why. Carried out in place, an edit that is refused leaves its target as
it found it. -/
theorem refused_edits_change_nothing (w : Workspace) :
    (∀ target name d err,
      w.apply (.defineType target name d) = .error err ↔ (w.get target).compile d = .error err) ∧
    (∀ target newName name err, w.apply (.defineAlias target newName name) = .error err ↔
      (name ∉ (w.get target).names ∧ ∀ t : Tag, t.name ≠ name) ∧ err = .undefinedTarget newName name) ∧
    (∀ target source names err,
      (w.apply (.importFrom target source (some names)) = .error err ↔
        ∃ name, names.find? (· ∉ (w.get source).names) = some name ∧ err = .undefinedImport name) ∧
      (w.apply (.createFrom target source (some names)) = .error err ↔
        ∃ name, names.find? (· ∉ (w.get source).names) = some name ∧ err = .undefinedImport name)) ∧
    (∀ target source, ∃ w', w.apply (.importFrom target source none) = .ok w') ∧
    (∀ target name, ∃ w', w.apply (.remove target name) = .ok w') ∧
    (∀ e err ns, (e.perform w).run (w.get e.target) = .error err ns ↔
      w.apply e = .error err ∧ ns = w.get e.target) ∧
    ∀ e ns, (e.perform w).run (w.get e.target) = .ok ⟨⟩ ns ↔
      ∃ w', w.apply e = .ok w' ∧ w'.get e.target = ns := by
  refine ⟨fun _ _ _ _ => defineType_refused_iff, fun _ _ _ _ => defineAlias_refused_iff, ?_, ?_, ?_, ?_, ?_⟩
  · intro target source names err
    rw [apply_eq_error_iff, apply_eq_error_iff]
    exact ⟨importFrom_refused_iff, importFrom_refused_iff⟩
  · exact fun target source => ⟨_, rfl⟩
  · exact fun target name => ⟨_, rfl⟩
  · intro e err ns
    rw [run_perform, apply_eq_error_iff]
    cases w.edited e <;> simp [Editing.outcome, eq_comm]
  · intro e ns
    rw [run_perform]
    cases he : w.edited e with
    | error err => simp [Editing.outcome, apply_eq_error_iff.mpr he]
    | ok ns' =>
      obtain ⟨w', hw'⟩ : ∃ w', w.apply e = .ok w' := by
        rw [apply_eq, he]
        exact ⟨_, rfl⟩
      have htarget := he.symm.trans (changed_of_apply hw').target
      simp [Editing.outcome, hw', Except.ok.inj htarget]

end Workspace

end Stencil
