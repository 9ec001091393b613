import Stencil.Proofs.Expansion
import Stencil.Proofs.Filling
import Stencil.Proofs.Histories

/-! The default of a template, as a document of its own: it stands in for an absent document, and is of
the type that it is the default of. Whether the template accepts it once it is there is another matter. -/
namespace Stencil.Template

/-- The tag of every node of a compiled template accepts its default, and the node itself does if the
default conforms or nothing is declared inside. -/
theorem default_round_trips {s t : Template} (ht : t.Compiled) (hs : Occurs s t) {d : Json}
    (hd : s.default? = some d) :
    s.validate true none = .ok (some d) ∧ s.tag.accepts d = true ∧
      (∀ fill, (∃ w, s.check fill d = .ok w) ↔ s.Conforms d) ∧
      (¬ s.Structured → ∀ fill, s.check fill d = .ok d) := by
  have hw : s.WellFormed := ht.wellFormed.of_occurs hs
  refine ⟨?_, hw.root.default_accepted d hd, fun fill => passes_iff_conforms hw.namesDistinct fill d, ?_⟩
  · rw [validate, if_pos rfl, hd]
  · intro hst fill
    exact check_default_of_not_structured hw.root hst hd

/-- A type of points, and one of paths, which are made of points. -/
def pathEdits : List Edit :=
  [.defineType "types" "point" (.object [("x required", .string ":number"), ("y", .string ":number")]),
    .defineType "types" "path" (.array [.string ":point"])]

def pointType : TypeDef Template :=
  ⟨0, "point", .object none
    [⟨"x", true, false, .value .number none⟩, ⟨"y", false, true, .value .number none⟩]⟩

def pathType : TypeDef Template := ⟨1, "path", .array none (some (.named pointType none))⟩

def pathWorkspace : Workspace :=
  ⟨2, [("types", ⟨[("point", .defined pointType), ("path", .defined pathType)]⟩)]⟩

theorem pathWorkspace_reachable : History.Reachable ⟨pathWorkspace, []⟩ := by
  have hw : pathEdits.foldlM Workspace.apply {} = .ok pathWorkspace := rfl
  exact History.Reachable.edits .refl (by simp [pathEdits, History.Allows]) hw

theorem route_default_round_trips :
    ∃ t p d, (pathWorkspace.get "types").compile (.object [("route default []", .string ":path")]) = .ok t ∧
      p ∈ t.properties ∧ p.template.default? = some d ∧ p.template.validate true none = .ok (some d) ∧
      p.template.tag.accepts d = true ∧ ∀ fill, ∃ w, p.template.check fill d = .ok w := by
  let p : Property Template := ⟨"route", false, true, .named pathType (some (.array []))⟩
  have ht : (pathWorkspace.get "types").compile (.object [("route default []", .string ":path")]) =
      .ok (.object none [p]) := by with_unfolding_all rfl
  have hp : p ∈ (object none [p]).properties := List.mem_cons_self
  obtain ⟨hround, hacc, hiff, -⟩ :=
    default_round_trips (pathWorkspace_reachable.compiled ht) (.property hp .here) (d := .array []) rfl
  have hc : p.template.Conforms (.array []) := (hiff false).mp ⟨_, rfl⟩
  exact ⟨_, p, .array [], ht, hp, rfl, hround, hacc, fun fill => (hiff fill).mpr hc⟩

/-- Where a type is used, an object is all that is asked for as the default of an object type. -/
theorem point_default_refused :
    ∃ t, (pathWorkspace.get "types").compile (.string ":point default \x7b\x7d") = .ok t ∧
      t.validate true none = .ok (some (.object [])) ∧
      ∀ fill, t.check fill (.object []) = .error (.missing ["x"]) := by
  have hcompile : (pathWorkspace.get "types").compile (.string ":point default \x7b\x7d") =
      directive (pathWorkspace.get "types").resolve "point default \x7b\x7d" := rfl
  have hpoint : (pathWorkspace.get "types").resolve "point" = some (.defined pointType) := rfl
  refine ⟨.named pointType (some (.object [])), ?_, rfl, fun fill => ?_⟩
  · rw [hcompile]
    exact directive_of_default (by with_unfolding_all rfl) hpoint (by with_unfolding_all rfl)
      (by with_unfolding_all rfl) rfl
  · cases fill <;> rfl

end Stencil.Template
