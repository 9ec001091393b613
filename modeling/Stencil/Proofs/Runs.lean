import Stencil.Proofs.Histories

/-! Runs of edits that may be refused. An edit has a target, the one namespace that it changes; a run is
given by its edits, the latest first. -/
namespace Stencil

namespace Namespace

variable {ns : Namespace}

theorem resolve_eq (ns : Namespace) (name : String) :
    ns.resolve name = (Entries.get? ns.bindings name).or (TypeRef.builtin? name) := by
  unfold resolve
  cases Entries.get? ns.bindings name <;> rfl

theorem mem_names_iff {name : String} :
    name ∈ ns.names ↔ ∃ ref, Entries.get? ns.bindings name = some ref := by
  rw [← Option.isSome_iff_exists, ← Option.ne_none_iff_isSome, Ne, Entries.get?_eq_none_iff, not_not]
  rfl

/-- Picking is one lookup for each of the names. -/
theorem pick_eq_ok_iff {names : List String} {picked : Entries TypeRef} :
    ns.pick names = .ok picked ↔
      names.mapM (fun name => (Entries.get? ns.bindings name).map (name, ·)) = some picked := by
  induction names generalizing picked with
  | nil => simp [pick, eq_comm]
  | cons name names ih =>
    rw [pick, List.mapM_cons]
    cases Entries.get? ns.bindings name with
    | none => simp
    | some ref => simp [Except.map_eq_ok_iff, Option.bind_eq_some_iff, ih]

/-- What is picked are the names asked for, each with what it is bound to. -/
theorem keys_pick {names : List String} {picked : Entries TypeRef} (h : ns.pick names = .ok picked) :
    Entries.keys picked = names := by
  induction names generalizing picked with
  | nil =>
    cases h
    rfl
  | cons name names ih =>
    rw [pick] at h
    split at h
    · obtain ⟨rest, hrest, rfl⟩ := Except.map_eq_ok_iff.mp h
      rw [Entries.keys_cons, ih hrest]
    · cases h

theorem get?_of_pick {names : List String} {picked : Entries TypeRef} (h : ns.pick names = .ok picked) :
    ∀ e ∈ picked, Entries.get? ns.bindings e.1 = some e.2 := by
  induction names generalizing picked with
  | nil =>
    cases h
    exact fun _ he => nomatch he
  | cons name names ih =>
    rw [pick] at h
    split at h
    · rename_i ref hg
      obtain ⟨rest, hrest, rfl⟩ := Except.map_eq_ok_iff.mp h
      exact List.forall_mem_cons.mpr ⟨hg, ih hrest⟩
    · cases h

/-- The first name that is not bound is at fault. -/
theorem pick_eq_error_iff {names : List String} {err : DefinitionError} :
    ns.pick names = .error err ↔
      ∃ name, names.find? (· ∉ ns.names) = some name ∧ err = .undefinedImport name := by
  induction names with
  | nil => simp [pick]
  | cons name names ih =>
    rw [pick, List.find?_cons]
    cases hg : Entries.get? ns.bindings name with
    | none =>
      have hn : name ∉ ns.names := Entries.get?_eq_none_iff.mp hg
      simp [hn, eq_comm]
    | some ref =>
      have hn : name ∈ ns.names := mem_names_iff.mpr ⟨ref, hg⟩
      rw [decide_eq_false (not_not.mpr hn), ← ih]
      cases ns.pick names <;> simp [Except.map]

end Namespace

namespace Edit

def target : Edit → String
  | create target => target
  | copy target _ => target
  | createFrom target _ _ => target
  | importFrom target _ _ => target
  | defineType target _ _ => target
  | defineTemplate target _ _ => target
  | defineAlias target _ _ => target
  | remove target _ => target

/-- Whether the edit makes a definition. -/
def defines : Edit → Bool
  | defineType _ _ _ => true
  | defineTemplate _ _ _ => true
  | _ => false

end Edit

namespace Workspace

variable {w w' : Workspace} {e : Edit}

/-- What becomes of the target of an edit. -/
def edited (w : Workspace) : Edit → Except DefinitionError Namespace
  | .create _ => .ok {}
  | .copy _ source => .ok (w.get source)
  | .createFrom _ source names => (w.get source).imported names
  | .importFrom target source names => (w.get target).importFrom (w.get source) names
  | .defineType target name d => (w.get target).defineType w.defined name d
  | .defineTemplate target name t => .ok ((w.get target).defineTemplate w.defined name t)
  | .defineAlias target newName name => (w.get target).defineAlias newName name
  | .remove target name => .ok ((w.get target).remove name)

theorem apply_eq (w : Workspace) (e : Edit) :
    w.apply e = (w.edited e).map ((if e.defines then w.count else w).put e.target) := by
  cases e <;> rfl

theorem apply_eq_error_iff {err : DefinitionError} :
    w.apply e = .error err ↔ w.edited e = .error err := by
  rw [apply_eq]
  cases w.edited e <;> simp [Except.map]

/-- All that an edit does. -/
structure Changed (w : Workspace) (e : Edit) (w' : Workspace) : Prop where
  target : w.edited e = .ok (w'.get e.target)
  others : ∀ name, name ≠ e.target → w'.get name = w.get name
  defined : w'.defined = if e.defines then w.defined + 1 else w.defined

theorem changed_of_apply (h : w.apply e = .ok w') : Changed w e w' := by
  rw [apply_eq] at h
  obtain ⟨ns, hns, rfl⟩ := Except.map_eq_ok_iff.mp h
  refine ⟨?_, fun name hname => ?_, ?_⟩
  · rw [get_put_self, hns]
  · rw [get_put_of_ne _ ns (Ne.symm hname)]
    cases e.defines <;> rfl
  · cases e.defines <;> rfl

/-- The workspace once an edit has been tried: one that is refused changes nothing. -/
def attempt (w : Workspace) (e : Edit) : Workspace :=
  match w.apply e with
  | .ok w' => w'
  | .error _ => w

/-- The workspace at the end of a run, whose edits are listed from the latest back. -/
def after : List Edit → Workspace
  | [] => {}
  | e :: es => (after es).attempt e

theorem attempt_of_ok (h : w.apply e = .ok w') : w.attempt e = w' := by
  rw [attempt, h]

theorem attempt_of_error {err : DefinitionError} (h : w.apply e = .error err) : w.attempt e = w := by
  rw [attempt, h]

/-- An edit is refused and changes nothing, or it is made. -/
theorem attempt_cases (w : Workspace) (e : Edit) :
    (∃ err, w.edited e = .error err ∧ w.attempt e = w) ∨ Changed w e (w.attempt e) := by
  cases h : w.apply e with
  | error err => exact .inl ⟨err, apply_eq_error_iff.mp h, attempt_of_error h⟩
  | ok w' =>
    rw [attempt_of_ok h]
    exact .inr (changed_of_apply h)

theorem attempt_of_edited {ns : Namespace} (h : w.edited e = .ok ns) : Changed w e (w.attempt e) := by
  rcases w.attempt_cases e with ⟨err, he, -⟩ | hc
  · cases he.symm.trans h
  · exact hc

/-- An edit changes no namespace but its target. -/
theorem get_attempt_of_ne {name : String} (h : name ≠ e.target) : (w.attempt e).get name = w.get name := by
  rcases w.attempt_cases e with ⟨err, -, he⟩ | hc
  · rw [he]
  · exact hc.others name h

theorem defined_le_attempt (w : Workspace) (e : Edit) : w.defined ≤ (w.attempt e).defined := by
  rcases w.attempt_cases e with ⟨err, -, he⟩ | hc
  · rw [he]
  · rw [hc.defined]
    split <;> omega

/-- The number of definitions never goes back. -/
theorem defined_le_after {es es' : List Edit} (h : es <:+ es') :
    (after es).defined ≤ (after es').defined := by
  obtain ⟨later, rfl⟩ := h
  induction later with
  | nil => exact le_refl _
  | cons e later ih => exact ih.trans (defined_le_attempt _ e)

end Workspace

end Stencil
