import Stencil.Proofs.Runs

/-! What a name stands for after an edit. Only an edit that rebinds the name in its target can change it,
so a reference stays whatever is done elsewhere or to other names. -/
namespace Stencil

namespace Namespace

variable {ns other ns' : Namespace} {names : Option (List String)} {name : String}

/-- The names that an import asks for. -/
def offers (ns : Namespace) : Option (List String) → List String
  | none => ns.names
  | some names => names

/-- An import copies the names that it asks for, each with what it is bound to in the source. -/
theorem exists_copied (h : ns.importFrom other names = .ok ns') :
    ∃ more, (∀ into : Namespace, into.importFrom other names = .ok ⟨Entries.insertAll into.bindings more⟩) ∧
      Entries.keys more = other.offers names ∧
      (Entries.Distinct other.bindings → ∀ e ∈ more, Entries.get? other.bindings e.1 = some e.2) := by
  cases names with
  | none => exact ⟨other.bindings, fun _ => rfl, rfl, fun hd e he => Entries.get?_of_mem hd he⟩
  | some names =>
    obtain ⟨picked, hp, -⟩ := Except.map_eq_ok_iff.mp h
    exact ⟨picked, fun _ => Except.map_eq_ok_iff.mpr ⟨picked, hp, rfl⟩, keys_pick hp, fun _ => get?_of_pick hp⟩

/-- An import binds the names that it asks for, each to what it is bound to in the source. -/
theorem exists_insertAll_of_importFrom (h : ns.importFrom other names = .ok ns') :
    ∃ more, ns' = ⟨Entries.insertAll ns.bindings more⟩ ∧ Entries.keys more = other.offers names ∧
      (Entries.Distinct other.bindings → ∀ e ∈ more, Entries.get? other.bindings e.1 = some e.2) := by
  obtain ⟨more, hcopy, hk, hmore⟩ := exists_copied h
  exact ⟨more, Except.ok.inj (h.symm.trans (hcopy ns)), hk, hmore⟩

theorem resolve_importFrom_of_notMem (h : ns.importFrom other names = .ok ns')
    (hn : name ∉ other.offers names) : ns'.resolve name = ns.resolve name := by
  obtain ⟨more, rfl, hk, -⟩ := exists_insertAll_of_importFrom h
  rw [resolve_eq, resolve_eq, Entries.get?_insertAll_of_notMem _ (hk ▸ hn)]

theorem resolve_importFrom_of_mem (h : ns.importFrom other names = .ok ns')
    (hd : Entries.Distinct other.bindings) (hn : name ∈ other.offers names) :
    ns'.resolve name = other.resolve name := by
  obtain ⟨more, rfl, hk, hmore⟩ := exists_insertAll_of_importFrom h
  have hmem : name ∈ Entries.keys more := hk ▸ hn
  obtain ⟨e, he, rfl⟩ := List.mem_map.mp hmem
  have hg : Entries.get? other.bindings e.1 = some e.2 := hmore hd e he
  have hall : ∀ e' ∈ more, e'.1 = e.1 → e'.2 = e.2 := by
    intro e' he' hname
    exact Option.some.inj ((hmore hd e' he').symm.trans (hname ▸ hg))
  rw [resolve_eq, resolve_eq, Entries.get?_insertAll_of_mem _ hmem hall, hg]

theorem resolve_bind_self (ns : Namespace) (k : String) (ref : TypeRef) :
    (ns.bind k ref).resolve k = some ref := by
  rw [resolve_eq, bind, Entries.get?_insert_self]
  rfl

theorem resolve_bind_of_ne (ns : Namespace) {k : String} (ref : TypeRef) (h : k ≠ name) :
    (ns.bind k ref).resolve name = ns.resolve name := by
  rw [resolve_eq, resolve_eq, bind, Entries.get?_insert_of_ne _ _ h]

/-- A name that is dropped can stand for a built-in type only. -/
theorem resolve_remove_self (ns : Namespace) (k : String) :
    (ns.remove k).resolve k = TypeRef.builtin? k := by
  rw [resolve_eq, remove, Entries.get?_erase, if_pos rfl]
  rfl

theorem resolve_remove_of_ne (ns : Namespace) {k : String} (h : k ≠ name) :
    (ns.remove k).resolve name = ns.resolve name := by
  rw [resolve_eq, resolve_eq, remove, Entries.get?_erase, if_neg h]

end Namespace

/-- Whether the edit, if it is made, binds or drops the name in the namespace `space`. -/
def Edit.rebinds (w : Workspace) (space name : String) : Edit → Bool
  | create target => target = space
  | copy target _ => target = space
  | createFrom target _ _ => target = space
  | importFrom target source names => target = space ∧ name ∈ (w.get source).offers names
  | defineType target k _ => target = space ∧ k = name
  | defineTemplate target k _ => target = space ∧ k = name
  | defineAlias target k _ => target = space ∧ k = name
  | remove target k => target = space ∧ k = name

namespace Workspace

variable {w w' : Workspace} {e : Edit} {space name : String}

/-- What an edit makes of a name of its target that it does not rebind. -/
theorem Changed.resolve_target (hc : Changed w e w') (h : e.rebinds w e.target name = false) :
    (w'.get e.target).resolve name = (w.get e.target).resolve name := by
  have ht := hc.target
  generalize w'.get e.target = ns at ht
  cases e with
  | create target => simp [Edit.rebinds, Edit.target] at h
  | copy target source => simp [Edit.rebinds, Edit.target] at h
  | createFrom target source names => simp [Edit.rebinds, Edit.target] at h
  | importFrom target source names =>
    simp only [Edit.rebinds, Edit.target, true_and, decide_eq_false_iff_not] at h
    exact Namespace.resolve_importFrom_of_notMem ht h
  | defineType target k d =>
    simp only [Edit.rebinds, Edit.target, true_and, decide_eq_false_iff_not] at h
    obtain ⟨t, -, rfl⟩ := Except.map_eq_ok_iff.mp ht
    exact Namespace.resolve_bind_of_ne _ _ h
  | defineTemplate target k t =>
    simp only [Edit.rebinds, Edit.target, true_and, decide_eq_false_iff_not] at h
    cases ht
    exact Namespace.resolve_bind_of_ne _ _ h
  | defineAlias target k n =>
    simp only [Edit.rebinds, Edit.target, true_and, decide_eq_false_iff_not] at h
    rw [edited, Namespace.defineAlias] at ht
    split at ht
    · cases ht
      exact Namespace.resolve_bind_of_ne _ _ h
    · cases ht
  | remove target k =>
    simp only [Edit.rebinds, Edit.target, true_and, decide_eq_false_iff_not] at h
    cases ht
    exact Namespace.resolve_remove_of_ne _ h

/-- A name that an edit does not rebind stands for what it stood for. -/
theorem Changed.resolve_eq (hc : Changed w e w') (h : e.rebinds w space name = false) :
    (w'.get space).resolve name = (w.get space).resolve name := by
  by_cases hs : space = e.target
  · subst hs
    exact hc.resolve_target h
  · rw [hc.others space hs]

theorem resolve_attempt (h : e.rebinds w space name = false) :
    ((w.attempt e).get space).resolve name = (w.get space).resolve name := by
  rcases w.attempt_cases e with ⟨err, -, he⟩ | hc
  · rw [he]
  · exact hc.resolve_eq h

/-- The run `es'` goes on from `es` with edits that do not rebind the name, or are refused. -/
inductive Spares (space name : String) (es : List Edit) : List Edit → Prop
  | refl : Spares space name es es
  | step {e : Edit} {es' : List Edit} (h : Spares space name es es')
      (spared : e.rebinds (after es') space name = false) : Spares space name es (e :: es')
  | refused {e : Edit} {es' : List Edit} {err : DefinitionError} (h : Spares space name es es')
      (refused : (after es').apply e = .error err) : Spares space name es (e :: es')

theorem Spares.resolve_eq {es es' : List Edit} (h : Spares space name es es') :
    ((after es').get space).resolve name = ((after es).get space).resolve name := by
  induction h with
  | refl => rfl
  | step _ hs ih => exact (resolve_attempt hs).trans ih
  | refused _ hr ih =>
    rw [after, attempt_of_error hr]
    exact ih

end Workspace

end Stencil
