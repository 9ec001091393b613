import Stencil.Proofs.Filling
import Stencil.Proofs.Histories
import Stencil.Proofs.Samples

/-! Templates that ask for less. A type may be widened, what is said of items and of properties may be
left out, and a property may become optional or nullable; every document that passed before passes still. -/
namespace Stencil

/-- Every document of the first type is one of the second. -/
inductive Tag.Widens : Tag → Tag → Prop
  | refl (t : Tag) : Widens t t
  | number : Widens int number
  | string : Widens char string

theorem Tag.Widens.accepts {t u : Tag} (h : t.Widens u) {v : Json} (hv : t.accepts v = true) :
    u.accepts v = true := by
  cases h with
  | refl => exact hv
  | number => cases v <;> simp_all [Tag.accepts, Tag.describes, Json.kind, Tag.ofKind]
  | string => cases v <;> simp_all [Tag.accepts, Tag.describes, Json.kind, Tag.ofKind]

/-- Beside its template, `q` asks for no more than `p`: it may be required only if `p` is, and has to be
nullable if `p` is. -/
structure Property.Eases {τ : Type} (p q : Property τ) : Prop where
  name_eq : p.name = q.name
  required : q.required = true → p.required = true
  nullable : p.nullable = true → q.nullable = true

theorem Property.Eases.refl {τ : Type} (p : Property τ) : p.Eases p := ⟨rfl, id, id⟩

theorem Property.Eases.admits {τ : Type} {p q : Property τ} (h : p.Eases q) {conforms conforms' : Json → Prop}
    (hc : ∀ v, conforms v → conforms' v) {v? : Option Json} (hp : p.Admits conforms v?) :
    q.Admits conforms' v? := by
  cases v? with
  | none =>
    obtain ⟨hoptional, hnull⟩ := hp
    refine ⟨?_, h.nullable hnull⟩
    rw [Bool.eq_false_iff]
    intro hr
    exact Bool.eq_false_iff.mp hoptional (h.required hr)
  | some v =>
    by_cases hv : v = .null
    · subst hv
      exact h.nullable hp
    · exact (Property.admits_some hv).mpr (hc v ((Property.admits_some hv).mp hp))

namespace Template

/-- The second template asks no more than the first. `origin` gives every property of the second object
the one of the first that it loosens. -/
inductive Loosens : Template → Template → Prop
  | any (t : Template) (d : Option Json) : Loosens t (value .any d)
  | value {tag tag' : Tag} (d d' : Option Json) (h : tag.Widens tag') : Loosens (value tag d) (value tag' d')
  | freeItems (d d' : Option Json) (item : Option Template) : Loosens (array d item) (array d' none)
  | items {item item' : Template} (d d' : Option Json) (h : Loosens item item') :
      Loosens (array d (some item)) (array d' (some item'))
  | properties {ps qs : List (Property Template)} (d d' : Option Json)
      (origin : Property Template → Property Template)
      (declared : ∀ q ∈ qs, origin q ∈ ps ∧ (origin q).Eases q)
      (h : ∀ q ∈ qs, Loosens (origin q).template q.template) : Loosens (object d ps) (object d' qs)
  | unfoldLeft {definition : TypeDef Template} {t : Template} (d : Option Json)
      (h : Loosens definition.template t) : Loosens (named definition d) t
  | unfoldRight {definition : TypeDef Template} {t : Template} (d : Option Json)
      (h : Loosens t definition.template) : Loosens t (named definition d)

theorem loosens_object_iff {d d' : Option Json} {ps qs : List (Property Template)} :
    Loosens (object d ps) (object d' qs) ↔
      ∀ q ∈ qs, ∃ p ∈ ps, p.Eases q ∧ Loosens p.template q.template := by
  constructor
  · intro h
    cases h with
    | properties _ _ origin declared h =>
      exact fun q hq => ⟨origin q, (declared q hq).1, (declared q hq).2, h q hq⟩
  · intro h
    choose! origin hmem heases hloosens using h
    exact .properties d d' origin (fun q hq => ⟨hmem q hq, heases q hq⟩) hloosens

protected theorem Loosens.refl (t : Template) : Loosens t t := by
  induction t with
  | value tag d => exact .value d d (.refl tag)
  | freeArray d => exact .freeItems d d none
  | array d item ih => exact .items d d ih
  | object d ps ih => exact loosens_object_iff.mpr fun p hp => ⟨p, hp, .refl p, ih p hp⟩
  | named definition d ih => exact .unfoldLeft d (.unfoldRight d ih)

/-- What conforms to a template conforms to every one that loosens it. -/
theorem Loosens.conforms {t u : Template} (h : Loosens t u) {v : Json} (hv : t.Conforms v) : u.Conforms v := by
  induction h generalizing v with
  | any => exact rfl
  | value d d' h => exact h.accepts hv
  | freeItems => exact hv.accepts
  | items d d' h ih =>
    obtain ⟨vs, rfl⟩ := Tag.array_accepts_iff.mp hv.accepts
    rw [conforms_array_iff] at hv ⊢
    exact fun e he => ih (hv e he)
  | properties d d' origin declared h ih =>
    obtain ⟨ms, rfl⟩ := Tag.object_accepts_iff.mp hv.accepts
    rw [conforms_object_iff] at hv ⊢
    intro q hq
    obtain ⟨hmem, heases⟩ := declared q hq
    rw [← heases.name_eq]
    exact heases.admits (fun w hw => ih q hq hw) (hv (origin q) hmem)
  | unfoldLeft d h ih => exact ih hv.2
  | unfoldRight d h ih =>
    have hc := ih hv
    exact ⟨hc.accepts, hc⟩

/-- Loosening a template never makes it refuse more, whether defaults are filled in or not, and whatever
defaults there are. -/
theorem loosening_accepts {t u : Template} (ht : t.Compiled) (hu : u.Compiled) (h : Loosens t u) (v : Json)
    (fill fill' : Bool) : (∃ w, t.check fill v = .ok w) → ∃ w, u.check fill' v = .ok w := by
  rw [passes_iff_conforms ht.wellFormed.namesDistinct, passes_iff_conforms hu.wellFormed.namesDistinct]
  exact h.conforms

def codeType : TypeDef Template := ⟨0, "code", .value .int none⟩

def ticketEdits : List Edit := [.defineType "types" "code" (.string ":int")]

def ticketWorkspace : Workspace := ⟨1, [("types", ⟨[("code", .defined codeType)]⟩)]⟩

theorem ticketWorkspace_reachable : History.Reachable ⟨ticketWorkspace, []⟩ := by
  have hw : ticketEdits.foldlM Workspace.apply {} = .ok ticketWorkspace := rfl
  exact History.Reachable.edits .refl (by simp [ticketEdits, History.Allows]) hw

def strictTicket : Json :=
  .object [("code required", .string ":code"), ("mark nullable", .string ":char"),
    ("rows", .array [.object [("at required", .string ":code")]])]

/-- Nothing is required any more, and there are defaults. -/
def easyTicket : Json :=
  .object [("rows", .array [.object [("at", .number (.int 0))]]), ("mark", .string "-"),
    ("code", .string ":any")]

theorem ticket_loosened : ∃ t u, (ticketWorkspace.get "types").compile strictTicket = .ok t ∧
    (ticketWorkspace.get "types").compile easyTicket = .ok u ∧ Loosens t u ∧
    ∃ v, (∃ w, t.check false v = .ok w) ∧ ∃ w, u.check true v = .ok w := by
  let row : Property Template := ⟨"at", true, false, .named codeType none⟩
  let code : Property Template := ⟨"code", true, false, .named codeType none⟩
  let mark : Property Template := ⟨"mark", false, true, .value .char none⟩
  let rows : Property Template := ⟨"rows", false, true, .array none (some (.object none [row]))⟩
  have ht : (ticketWorkspace.get "types").compile strictTicket = .ok (.object none [code, mark, rows]) := by
    with_unfolding_all rfl
  let easyRow : Property Template := ⟨"at", false, true, .value .number (some (.number (.int 0)))⟩
  let easyCode : Property Template := ⟨"code", false, true, .value .any none⟩
  let easyMark : Property Template := ⟨"mark", false, true, .value .string (some (.string "-"))⟩
  let easyRows : Property Template := ⟨"rows", false, true, .array none (some (.object none [easyRow]))⟩
  have hu : (ticketWorkspace.get "types").compile easyTicket =
      .ok (.object none [easyRows, easyMark, easyCode]) := by
    with_unfolding_all rfl
  have hrow : Loosens (.object none [row]) (.object none [easyRow]) := by
    refine loosens_object_iff.mpr (List.forall_mem_singleton.mpr ⟨row, List.mem_cons_self, ?_, ?_⟩)
    · exact ⟨rfl, fun _ => rfl, fun _ => rfl⟩
    · exact .unfoldLeft none (.value none _ .number)
  have hloosens : Loosens (.object none [code, mark, rows]) (.object none [easyRows, easyMark, easyCode]) := by
    refine loosens_object_iff.mpr (List.forall_mem_cons.mpr ⟨⟨rows, by simp, ?_, .items none none hrow⟩,
      List.forall_mem_cons.mpr ⟨⟨mark, by simp, ?_, .value none _ .string⟩,
        List.forall_mem_singleton.mpr ⟨code, by simp, ?_, .any _ none⟩⟩⟩)
    · exact ⟨rfl, id, id⟩
    · exact ⟨rfl, id, id⟩
    · exact ⟨rfl, fun _ => rfl, fun _ => rfl⟩
  let ticket : Json :=
    .object [("code", .number (.int 7)), ("rows", .array [.object [("at", .number (.int 1))]])]
  have hpass : ∃ w, (object none [code, mark, rows]).check false ticket = .ok w := ⟨ticket, rfl⟩
  exact ⟨_, _, ht, hu, hloosens, ticket, hpass,
    loosening_accepts (ticketWorkspace_reachable.compiled ht) (ticketWorkspace_reachable.compiled hu) hloosens
      ticket false true hpass⟩

end Template

end Stencil
