import Stencil.Proofs.Journals
import Stencil.Proofs.Resolution

/-! Chronicles: the journals of several namespaces, written down edit by edit. A workspace that has been
through the same edits agrees with its chronicle, name by name and in order. -/
namespace Stencil

/-- A journal for every namespace, and the number of definitions made so far. -/
structure Chronicle where
  defined : Nat := 0
  journal : String → Journal := fun _ => []

/-- The bindings that an import copies: those of the listed names, if they all stand, or all that stand. -/
def Journal.offer? (log : Journal) : Option (List String) → Option (Entries TypeRef)
  | none => some log.entries
  | some names => names.mapM fun name => (log.last? name).map (name, ·)

namespace Chronicle

/-- What an edit makes of the journal of its target, unless it is refused. -/
def entered (c : Chronicle) : Edit → Option Journal
  | .create _ => some []
  | .copy _ source => some (c.journal source)
  | .createFrom _ source names => ((c.journal source).offer? names).map (Journal.bindAll [])
  | .importFrom target source names =>
    ((c.journal source).offer? names).map (c.journal target).bindAll
  | .defineType target name d =>
    match Template.compile (c.journal target).resolve d with
    | .ok t => some (.bound name (.defined ⟨c.defined, name, t⟩) :: c.journal target)
    | .error _ => none
  | .defineTemplate target name t =>
    some (.bound name (.defined ⟨c.defined, name, t⟩) :: c.journal target)
  | .defineAlias target newName name =>
    ((c.journal target).resolve name).map fun ref => .bound newName ref :: c.journal target
  | .remove target name => some (.removed name :: c.journal target)

def enter (c : Chronicle) (e : Edit) : Chronicle :=
  match c.entered e with
  | none => c
  | some log =>
    { defined := if e.defines then c.defined + 1 else c.defined
      journal := fun name => if name = e.target then log else c.journal name }

theorem enter_of_none {c : Chronicle} {e : Edit} (h : c.entered e = none) : c.enter e = c := by
  rw [enter, h]

theorem enter_of_some {c : Chronicle} {e : Edit} {log : Journal} (h : c.entered e = some log) :
    c.enter e =
      { defined := if e.defines then c.defined + 1 else c.defined
        journal := fun name => if name = e.target then log else c.journal name } := by
  rw [enter, h]

/-- The chronicle of a run, whose edits are listed from the latest back. -/
def after : List Edit → Chronicle
  | [] => {}
  | e :: es => (after es).enter e

end Chronicle

namespace Namespace

/-- The namespace holds what the journal says. -/
structure Follows (ns : Namespace) (log : Journal) : Prop where
  names : ns.names = log.names
  bindings : ∀ name, Entries.get? ns.bindings name = log.last? name

variable {ns : Namespace} {log : Journal}

theorem follows_nil : Follows {} [] := ⟨rfl, fun _ => rfl⟩

theorem Follows.bind (h : ns.Follows log) (name : String) (ref : TypeRef) :
    (ns.bind name ref).Follows (.bound name ref :: log) where
  names := by
    rw [Journal.names, ← h.names]
    exact Entries.keys_insert ns.bindings name ref
  bindings k := by
    rw [Journal.last?, ← h.bindings]
    exact Entries.get?_insert ns.bindings name k ref

theorem Follows.remove (h : ns.Follows log) (name : String) :
    (ns.remove name).Follows (.removed name :: log) where
  names := by
    rw [Journal.names, ← h.names]
    exact Entries.keys_erase ns.bindings name
  bindings k := by
    rw [Journal.last?, ← h.bindings]
    exact Entries.get?_erase ns.bindings name k

theorem Follows.bindAll (h : ns.Follows log) (es : Entries TypeRef) :
    Follows ⟨Entries.insertAll ns.bindings es⟩ (log.bindAll es) := by
  induction es generalizing ns log with
  | nil => exact h
  | cons e es ih => exact ih (h.bind e.1 e.2)

theorem Follows.distinct (h : ns.Follows log) : Entries.Distinct ns.bindings := by
  have hn := Journal.names_nodup log
  rw [← h.names] at hn
  exact hn

theorem Follows.resolve (h : ns.Follows log) : ns.resolve = log.resolve := by
  funext name
  rw [resolve_eq, h.bindings, Journal.resolve]

theorem Follows.entries (h : ns.Follows log) : ns.bindings = log.entries := by
  calc ns.bindings
      = ns.names.filterMap fun name => (Entries.get? ns.bindings name).map (name, ·) :=
        Entries.eq_filterMap_keys h.distinct
    _ = log.entries := by
        rw [Journal.entries, h.names]
        simp only [h.bindings]

theorem Follows.pick_eq_ok_iff (h : ns.Follows log) {names : List String} {picked : Entries TypeRef} :
    ns.pick names = .ok picked ↔ log.offer? (some names) = some picked := by
  rw [Namespace.pick_eq_ok_iff, Journal.offer?]
  simp only [h.bindings]

end Namespace

/-- What a namespace says of its names is what the journal says of them. -/
structure Namespace.Recorded (ns : Namespace) (log : Journal) : Prop where
  distinct : ns.names.Nodup
  standing : ∀ name, name ∈ ns.names ↔ log.Stands name
  ordered : ns.names.Pairwise log.Precedes
  resolved : ns.resolve = log.resolve

theorem Namespace.Follows.recorded {ns : Namespace} {log : Journal} (h : ns.Follows log) :
    ns.Recorded log where
  distinct := h.distinct
  standing name := by
    rw [h.names]
    exact Journal.mem_names_iff
  ordered := by
    rw [h.names]
    exact Journal.names_ordered log
  resolved := h.resolve

/-- An edit that is refused is not written down, and one that is made is written down as it was. -/
inductive Entered : Except DefinitionError Namespace → Option Journal → Prop
  | refused (err : DefinitionError) : Entered (.error err) none
  | made {ns : Namespace} {log : Journal} (h : ns.Follows log) : Entered (.ok ns) (some log)

theorem Entered.imported {ns source : Namespace} {log slog : Journal} (h : ns.Follows log)
    (hs : source.Follows slog) (names : Option (List String)) :
    Entered (ns.importFrom source names) ((slog.offer? names).map log.bindAll) := by
  cases names with
  | none =>
    rw [Namespace.importFrom, Journal.offer?, hs.entries]
    exact .made (h.bindAll _)
  | some names =>
    rw [Namespace.importFrom]
    cases hp : source.pick names with
    | ok picked =>
      rw [hs.pick_eq_ok_iff.mp hp]
      exact .made (h.bindAll picked)
    | error err =>
      have hnone : slog.offer? (some names) = none := by
        rw [Option.eq_none_iff_forall_ne_some]
        intro picked hsome
        cases hp.symm.trans (hs.pick_eq_ok_iff.mpr hsome)
      rw [hnone]
      exact .refused err

/-- The workspace holds what its chronicle says. -/
structure Workspace.Follows (w : Workspace) (c : Chronicle) : Prop where
  namespaces : ∀ name, (w.get name).Follows (c.journal name)
  defined : w.defined = c.defined

namespace Workspace

variable {w : Workspace} {c : Chronicle}

theorem Follows.entered (h : w.Follows c) (e : Edit) : Entered (w.edited e) (c.entered e) := by
  cases e with
  | create target => exact .made Namespace.follows_nil
  | copy target source => exact .made (h.namespaces source)
  | createFrom target source names => exact .imported Namespace.follows_nil (h.namespaces source) names
  | importFrom target source names => exact .imported (h.namespaces target) (h.namespaces source) names
  | defineType target name d =>
    rw [edited, Chronicle.entered, Namespace.defineType, Namespace.compile, (h.namespaces target).resolve,
      h.defined]
    cases Template.compile (c.journal target).resolve d with
    | ok t => exact .made ((h.namespaces target).bind name _)
    | error err => exact .refused err
  | defineTemplate target name t =>
    rw [edited, Chronicle.entered, h.defined]
    exact .made ((h.namespaces target).bind name _)
  | defineAlias target newName name =>
    rw [edited, Chronicle.entered, Namespace.defineAlias, (h.namespaces target).resolve]
    cases (c.journal target).resolve name with
    | some ref => exact .made ((h.namespaces target).bind newName ref)
    | none => exact .refused _
  | remove target name => exact .made ((h.namespaces target).remove name)

theorem Follows.attempt (h : w.Follows c) (e : Edit) : (w.attempt e).Follows (c.enter e) := by
  have he := h.entered e
  generalize hw : w.edited e = result at he
  generalize hl : c.entered e = entry at he
  cases he with
  | refused err =>
    rw [attempt_of_error (apply_eq_error_iff.mpr hw), Chronicle.enter_of_none hl]
    exact h
  | @made ns log hlog =>
    have hc := attempt_of_edited hw
    have htarget : (w.attempt e).get e.target = ns := Except.ok.inj (hc.target.symm.trans hw)
    rw [Chronicle.enter_of_some hl]
    refine ⟨fun name => ?_, ?_⟩
    · dsimp only
      split
      · rename_i hname
        rw [hname, htarget]
        exact hlog
      · rename_i hname
        rw [hc.others name hname]
        exact h.namespaces name
    · rw [hc.defined, h.defined]

theorem follows_after (es : List Edit) : (after es).Follows (Chronicle.after es) := by
  induction es with
  | nil => exact ⟨fun _ => Namespace.follows_nil, rfl⟩
  | cons e es ih => exact ih.attempt e

/-- A definition is compiled in the namespace as it is found. -/
theorem resolve_after_defineType {es : List Edit} {space name : String} {d : Json} {t : Template}
    (h : ((after es).get space).compile d = .ok t) :
    ((after (.defineType space name d :: es)).get space).resolve name =
      some (.defined ⟨(after es).defined, name, t⟩) := by
  have he : (after es).edited (.defineType space name d) =
      .ok (((after es).get space).defineTemplate (after es).defined name t) := by
    rw [edited, Namespace.defineType, h]
    rfl
  have ht := Except.ok.inj ((attempt_of_edited he).target.symm.trans he)
  rw [Edit.target] at ht
  rw [after, ht]
  exact Namespace.resolve_bind_self _ name _

theorem resolve_after_defineAlias {es : List Edit} {space newName name : String} {ref : TypeRef}
    (h : ((after es).get space).resolve name = some ref) :
    ((after (.defineAlias space newName name :: es)).get space).resolve newName = some ref := by
  have he : (after es).edited (.defineAlias space newName name) =
      .ok (((after es).get space).bind newName ref) := by
    rw [edited, Namespace.defineAlias, h]
  have ht := Except.ok.inj ((attempt_of_edited he).target.symm.trans he)
  rw [Edit.target] at ht
  rw [after, ht]
  exact Namespace.resolve_bind_self _ newName ref

/-- At the end of every run, every namespace is what its journal says, and an edit has changed nothing
but its target. -/
theorem namespaces_follow_journals (es : List Edit) :
    (∀ space, ((after es).get space).Recorded ((Chronicle.after es).journal space)) ∧
    (∀ space name d t, ((after es).get space).compile d = .ok t →
      ((after (.defineType space name d :: es)).get space).resolve name =
        some (.defined ⟨(after es).defined, name, t⟩)) ∧
    (∀ space newName name ref later, ((after es).get space).resolve name = some ref →
      Spares space newName (.defineAlias space newName name :: es) later →
      ((after later).get space).resolve newName = some ref) ∧
    ∀ e space, space ≠ e.target → (after (e :: es)).get space = (after es).get space := by
  refine ⟨fun space => ((follows_after es).namespaces space).recorded, ?_, ?_, ?_⟩
  · exact fun space name d t h => resolve_after_defineType h
  · intro space newName name ref later h hs
    exact hs.resolve_eq.trans (resolve_after_defineAlias h)
  · exact fun e space h => get_attempt_of_ne h

/-- A type under two names, the latest edit first. -/
def levelRun : List Edit :=
  [.defineAlias "log" "severity" "level", .defineType "log" "level" (.bool true)]

/-- The first of the names is given to lists of what it stood for, and is then dropped. -/
def levelsRun : List Edit :=
  .remove "log" "level" :: .defineType "log" "level" (.array [.string ":level"]) :: levelRun

/-- The second name still stands for what the first one stood for, and a list of levels is one of these. -/
theorem severity_outlives_level : ∃ level,
    ((after levelRun).get "log").resolve "level" = some (.defined level) ∧
    ((after (levelsRun.drop 1)).get "log").resolve "level" =
      some (.defined ⟨1, "level", .array none (some (.named level none))⟩) ∧
    ((after levelsRun).get "log").resolve "severity" = some (.defined level) ∧
    ((after levelsRun).get "log").names = ["severity"] ∧
    (after levelsRun).get "net" = (after (levelsRun.drop 1)).get "net" := by
  obtain ⟨-, -, halias, -⟩ := namespaces_follow_journals (levelRun.drop 1)
  obtain ⟨-, htype, -, -⟩ := namespaces_follow_journals levelRun
  obtain ⟨-, -, -, hother⟩ := namespaces_follow_journals (levelsRun.drop 1)
  refine ⟨_, rfl, ?_, ?_, rfl, hother (.remove "log" "level") "net" (by decide)⟩
  · exact htype "log" "level" (.array [.string ":level"]) _ rfl
  · exact halias "log" "severity" "level" _ levelsRun rfl (.step (.step .refl rfl) rfl)

end Workspace

end Stencil
