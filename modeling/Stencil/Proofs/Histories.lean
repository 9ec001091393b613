import Mathlib.Logic.Relation
import Stencil.Workspace
import Stencil.Proofs.WellFormed

/-! Histories of a workspace: edits of namespaces mixed with compilations. Every template that is
compiled on the way is well formed, whatever has been done before. -/
namespace Stencil

namespace Namespace

/-- Every name stands for a built-in type or a well-formed definition. -/
def Sound (ns : Namespace) : Prop := ∀ e ∈ ns.bindings, e.2.WellFormed

variable {ns other : Namespace}

theorem builtin?_wellFormed {name : String} {ref : TypeRef} (h : TypeRef.builtin? name = some ref) :
    ref.WellFormed := by
  obtain ⟨tag, -, rfl⟩ := Option.map_eq_some_iff.mp h
  trivial

theorem Sound.resolve (h : ns.Sound) {name : String} {ref : TypeRef}
    (hr : ns.resolve name = some ref) : ref.WellFormed := by
  unfold Namespace.resolve at hr
  split at hr
  · rename_i hg
    cases hr
    exact h _ (Entries.mem_of_get? hg)
  · exact builtin?_wellFormed hr

theorem Sound.compile (h : ns.Sound) {d : Json} {t : Template} (ht : ns.compile d = .ok t) :
    t.WellFormed :=
  Template.compile_wellFormed (fun _ _ hr => h.resolve hr) ht

theorem sound_empty : Sound {} := fun _ h => nomatch h

theorem Sound.bind (h : ns.Sound) (name : String) {ref : TypeRef} (hr : ref.WellFormed) :
    (ns.bind name ref).Sound := by
  intro e he
  rcases Entries.mem_insert he with rfl | he
  · exact hr
  · exact h e he

theorem Sound.defineType (h : ns.Sound) {id : Nat} {name : String} {d : Json}
    (hd : ns.defineType id name d = .ok other) : other.Sound := by
  obtain ⟨t, ht, rfl⟩ := Except.map_eq_ok_iff.mp hd
  exact h.bind name (h.compile ht)

theorem Sound.defineAlias (h : ns.Sound) {newName name : String}
    (hd : ns.defineAlias newName name = .ok other) : other.Sound := by
  unfold Namespace.defineAlias at hd
  split at hd
  · rename_i hr
    cases hd
    exact h.bind newName (h.resolve hr)
  · cases hd

theorem mem_of_pick {names : List String} {picked : Entries TypeRef} (h : ns.pick names = .ok picked)
    {e : String × TypeRef} (he : e ∈ picked) : e ∈ ns.bindings := by
  induction names generalizing picked with
  | nil =>
    cases h
    cases he
  | cons name names ih =>
    rw [pick] at h
    split at h
    · rename_i hg
      obtain ⟨rest, hrest, rfl⟩ := Except.map_eq_ok_iff.mp h
      rcases List.mem_cons.mp he with rfl | he
      · exact Entries.mem_of_get? hg
      · exact ih hrest he
    · cases h

theorem Sound.insertAll (h : ns.Sound) {more : Entries TypeRef} (hm : ∀ e ∈ more, e.2.WellFormed) :
    Sound ⟨Entries.insertAll ns.bindings more⟩ := by
  intro e he
  rcases Entries.mem_insertAll he with he | he
  · exact h e he
  · exact hm e he

theorem Sound.importFrom (h : ns.Sound) {source : Namespace} (hs : source.Sound)
    {names : Option (List String)} (hi : ns.importFrom source names = .ok other) : other.Sound := by
  cases names with
  | none =>
    cases hi
    exact h.insertAll hs
  | some names =>
    obtain ⟨picked, hp, rfl⟩ := Except.map_eq_ok_iff.mp hi
    exact h.insertAll fun e he => hs e (mem_of_pick hp he)

theorem Sound.remove (h : ns.Sound) (name : String) : (ns.remove name).Sound :=
  fun e he => h e (List.mem_filter.mp he).1

end Namespace

namespace Workspace

variable {w w' : Workspace}

theorem foldlM_apply_cons_iff {e : Edit} {es : List Edit} :
    (e :: es).foldlM apply w = .ok w' ↔ ∃ w₁, w.apply e = .ok w₁ ∧ es.foldlM apply w₁ = .ok w' := by
  rw [List.foldlM_cons]
  exact Except.bind_eq_ok_iff

theorem get_put_self (w : Workspace) (name : String) (ns : Namespace) :
    (w.put name ns).get name = ns := by
  unfold get put
  rw [Entries.get?_insert_self, Option.getD_some]

theorem get_put_of_ne (w : Workspace) {name other : String} (ns : Namespace) (h : name ≠ other) :
    (w.put name ns).get other = w.get other := by
  unfold get put
  rw [Entries.get?_insert_of_ne _ _ h]

def Sound (w : Workspace) : Prop := ∀ name, (w.get name).Sound

theorem sound_empty : Sound {} := fun _ => Namespace.sound_empty

theorem Sound.put (h : w.Sound) (name : String) {ns : Namespace} (hn : ns.Sound) :
    (w.put name ns).Sound := by
  intro other
  by_cases he : name = other
  · subst he
    rw [get_put_self]
    exact hn
  · rw [get_put_of_ne w ns he]
    exact h other

theorem Sound.count (h : w.Sound) : w.count.Sound := h

/-- No edit puts a template into a namespace that is not well formed, unless it has been told to. -/
theorem Sound.apply (h : w.Sound) {e : Edit}
    (ht : ∀ target name t, e = .defineTemplate target name t → t.WellFormed) (he : w.apply e = .ok w') :
    w'.Sound := by
  cases e with
  | create target =>
    cases he
    exact h.put target Namespace.sound_empty
  | copy target source =>
    cases he
    exact h.put target (h source)
  | createFrom target source names =>
    obtain ⟨ns, hns, rfl⟩ := Except.map_eq_ok_iff.mp he
    exact h.put target (Namespace.sound_empty.importFrom (h source) hns)
  | importFrom target source names =>
    obtain ⟨ns, hns, rfl⟩ := Except.map_eq_ok_iff.mp he
    exact h.put target ((h target).importFrom (h source) hns)
  | defineType target name d =>
    obtain ⟨ns, hns, rfl⟩ := Except.map_eq_ok_iff.mp he
    exact h.count.put target ((h target).defineType hns)
  | defineTemplate target name t =>
    cases he
    exact h.count.put target ((h target).bind name (ht target name t rfl))
  | defineAlias target newName name =>
    obtain ⟨ns, hns, rfl⟩ := Except.map_eq_ok_iff.mp he
    exact h.put target ((h target).defineAlias hns)
  | remove target name =>
    cases he
    exact h.put target ((h target).remove name)

end Workspace

/-- Where a history has got to: the workspace, and the templates that have been compiled. -/
structure History where
  workspace : Workspace := {}
  compiled : List Template := []

namespace History

/-- An edit may register templates only if they have been compiled. -/
def Allows (s : History) : Edit → Prop
  | .defineTemplate _ _ t => t ∈ s.compiled
  | _ => True

/-- One edit that succeeds, or one compilation that does, in a namespace or without one. Those that fail
change nothing. -/
inductive Step (s : History) : History → Prop
  | edit {e : Edit} {w : Workspace} (allowed : s.Allows e) (applied : s.workspace.apply e = .ok w) :
      Step s { s with workspace := w }
  | compile {name : String} {d : Json} {t : Template} (h : (s.workspace.get name).compile d = .ok t) :
      Step s { s with compiled := t :: s.compiled }
  | compileBuiltin {d : Json} {t : Template} (h : Template.compile TypeRef.builtin? d = .ok t) :
      Step s { s with compiled := t :: s.compiled }

/-- What can be got to from nothing by any number of steps. -/
def Reachable (s : History) : Prop := Relation.ReflTransGen Step {} s

structure Sound (s : History) : Prop where
  workspace : s.workspace.Sound
  compiled : ∀ t ∈ s.compiled, t.WellFormed

variable {s s' : History}

theorem Sound.step (h : s.Sound) (hs : s.Step s') : s'.Sound := by
  cases hs with
  | edit allowed applied =>
    refine ⟨h.workspace.apply (fun target name t he => ?_) applied, h.compiled⟩
    subst he
    exact h.compiled t allowed
  | compile ht => exact ⟨h.workspace, List.forall_mem_cons.mpr ⟨(h.workspace _).compile ht, h.compiled⟩⟩
  | compileBuiltin ht =>
    have hw := Template.compile_wellFormed (fun _ _ hr => Namespace.builtin?_wellFormed hr) ht
    exact ⟨h.workspace, List.forall_mem_cons.mpr ⟨hw, h.compiled⟩⟩

theorem Reachable.sound (h : s.Reachable) : s.Sound := by
  induction h with
  | refl => exact ⟨Workspace.sound_empty, fun _ h => nomatch h⟩
  | tail _ hs ih => exact ih.step hs

/-- Edits that are made one after the other lead on. -/
theorem Reachable.edits {es : List Edit} (h : s.Reachable) (he : ∀ e ∈ es, s.Allows e) {w : Workspace}
    (hw : es.foldlM Workspace.apply s.workspace = .ok w) : Reachable { s with workspace := w } := by
  induction es generalizing s with
  | nil =>
    cases hw
    exact h
  | cons e es ih =>
    obtain ⟨w', hw', hw⟩ := Workspace.foldlM_apply_cons_iff.mp hw
    have hs : s.Step { s with workspace := w' } := .edit (he e List.mem_cons_self) hw'
    have hall : ∀ e' ∈ es, s.Allows e' := fun e' h' => he e' (List.mem_cons_of_mem e h')
    exact ih (s := { s with workspace := w' }) (h.tail hs) hall hw

end History

/-- A template that has been compiled at some point of some history. -/
def Template.Compiled (t : Template) : Prop := ∃ s : History, s.Reachable ∧ t ∈ s.compiled

theorem Template.Compiled.wellFormed {t : Template} (h : t.Compiled) : t.WellFormed := by
  obtain ⟨s, hs, ht⟩ := h
  exact hs.sound.compiled t ht

namespace History

theorem Reachable.compiled {s : History} (hs : s.Reachable) {name : String} {d : Json} {t : Template}
    (h : (s.workspace.get name).compile d = .ok t) : t.Compiled :=
  ⟨_, hs.tail (.compile h), List.mem_cons_self⟩

theorem compiled_of_builtin {d : Json} {t : Template}
    (h : Template.compile TypeRef.builtin? d = .ok t) : t.Compiled :=
  ⟨_, Relation.ReflTransGen.single (.compileBuiltin h), List.mem_cons_self⟩

/-- Whatever has been done to its namespaces, what compiles in one of them, or without one, is well
formed at every node. -/
theorem compile_yields_wellFormed {s : History} (hs : s.Reachable) :
    (∀ name d t, (s.workspace.get name).compile d = .ok t → t.WellFormed) ∧
      ∀ d t, Template.compile TypeRef.builtin? d = .ok t → t.WellFormed := by
  constructor
  · intro name d t h
    exact (hs.compiled h).wellFormed
  · intro d t h
    exact (compiled_of_builtin h).wellFormed

/-- A type, then another name for it. -/
def memberEdits : List Edit :=
  [.defineType "types" "user" (.object [("id required", .string ":int"), ("role", .string "guest"),
      ("tags nullable", .array [.string ":string"])]),
    .defineAlias "types" "member" "user"]

def teamDefinition : Json :=
  .object [("owner", .string ":member"), ("others", .array [.string ":member"])]

theorem team_wellFormed : ∃ w t, memberEdits.foldlM Workspace.apply {} = .ok w ∧
    (w.get "types").compile teamDefinition = .ok t ∧ t.WellFormed := by
  obtain ⟨w, t, hw, ht⟩ : ∃ w t, memberEdits.foldlM Workspace.apply {} = .ok w ∧
    (w.get "types").compile teamDefinition = .ok t := ⟨_, _, rfl, rfl⟩
  -- no template is registered, so every edit is allowed
  have he : ∀ e ∈ memberEdits, Allows {} e := by simp [memberEdits, Allows]
  have hs : Reachable ⟨w, []⟩ := Reachable.edits .refl he hw
  exact ⟨w, t, hw, ht, (compile_yields_wellFormed hs).1 "types" teamDefinition t ht⟩

end History

end Stencil
