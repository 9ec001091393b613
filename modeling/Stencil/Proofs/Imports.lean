import Stencil.Proofs.Provenance

/-! Imports. An import of a whole namespace is one of all its names, in their order. What is imported comes
behind the names that were there, and can be imported again without a change. -/
namespace Stencil

namespace Namespace

variable {ns other ns' : Namespace} {names : Option (List String)}

/-- Entries are picked by their keys, if they are what the keys are bound to. -/
theorem pick_keys {es : Entries TypeRef} (h : ∀ e ∈ es, Entries.get? ns.bindings e.1 = some e.2) :
    ns.pick (Entries.keys es) = .ok es := by
  induction es with
  | nil => rfl
  | cons e es ih =>
    obtain ⟨he, hrest⟩ := List.forall_mem_cons.mp h
    rw [Entries.keys_cons, pick, he, ih hrest]
    rfl

theorem exists_pick {listed : List String} (h : ∀ name ∈ listed, name ∈ ns.names) :
    ∃ picked, ns.pick listed = .ok picked := by
  cases hp : ns.pick listed with
  | ok picked => exact ⟨picked, rfl⟩
  | error err =>
    obtain ⟨name, hfind, -⟩ := pick_eq_error_iff.mp hp
    have hfree : name ∉ ns.names := by simpa using List.find?_some hfind
    exact absurd (h name (List.mem_of_find?_eq_some hfind)) hfree

/-- The whole of a namespace is imported by the list of its names. -/
theorem importFrom_names (hd : Entries.Distinct other.bindings) :
    ns.importFrom other (some other.names) = ns.importFrom other none := by
  have hpick : other.pick other.names = .ok other.bindings := pick_keys fun _ he => Entries.get?_of_mem hd he
  exact Except.map_eq_ok_iff.mpr ⟨other.bindings, hpick, rfl⟩

theorem exists_importFrom {listed : List String} (h : ∀ name ∈ listed, name ∈ other.names) :
    ∃ ns', ns.importFrom other (some listed) = .ok ns' := by
  obtain ⟨picked, hp⟩ := exists_pick h
  exact ⟨_, Except.map_eq_ok_iff.mpr ⟨picked, hp, rfl⟩⟩

/-- An import leaves names in their places. New ones follow, each where it is first asked for. -/
theorem names_importFrom (h : ns.importFrom other names = .ok ns') :
    ns'.names = ns.names ++ ((other.offers names).filter (· ∉ ns.names)).eraseDups := by
  obtain ⟨more, rfl, hk, -⟩ := exists_insertAll_of_importFrom h
  rw [← hk]
  exact Entries.keys_insertAll ns.bindings more

/-- An import made again finds all its names bound to what it binds them to. -/
theorem importFrom_again (hd : Entries.Distinct other.bindings) (h : ns.importFrom other names = .ok ns') :
    ns'.importFrom other names = .ok ns' := by
  obtain ⟨more, hcopy, -, hmore⟩ := exists_copied h
  obtain rfl : ns' = ⟨Entries.insertAll ns.bindings more⟩ := Except.ok.inj (h.symm.trans (hcopy ns))
  have hbound : ∀ e ∈ more, Entries.get? (Entries.insertAll ns.bindings more) e.1 = some e.2 := by
    intro e he
    refine Entries.get?_insertAll_of_mem _ (List.mem_map_of_mem he) fun e' he' hkey => ?_
    exact Option.some.inj ((hmore hd e' he').symm.trans (hkey ▸ hmore hd e he))
  rw [hcopy, Entries.insertAll_eq_self hbound]

end Namespace

/-- A whole import is that of all names in their order. An import binds its names as the source does, and
changes nothing the second time. -/
theorem imports_agree (ns other : Namespace) (hd : Entries.Distinct other.bindings) :
    (∃ ns', ns.importFrom other none = .ok ns' ∧ ns.importFrom other (some other.names) = .ok ns') ∧
    (∀ listed : List String, (∀ name ∈ listed, name ∈ other.names) →
      ∃ ns', ns.importFrom other (some listed) = .ok ns' ∧
        ns'.names = ns.names ++ (listed.filter (· ∉ ns.names)).eraseDups ∧
        (∀ name ∈ listed, ∃ ref, other.resolve name = some ref ∧ ns'.resolve name = some ref) ∧
        ∀ name ∉ listed, ns'.resolve name = ns.resolve name) ∧
    (∀ names ns', ns.importFrom other names = .ok ns' → ns'.importFrom other names = .ok ns') ∧
    ∀ names, other.imported names = Namespace.importFrom {} other names := by
  refine ⟨⟨_, rfl, Namespace.importFrom_names hd⟩, fun listed hlisted => ?_,
    fun names ns' => Namespace.importFrom_again hd, fun names => rfl⟩
  obtain ⟨ns', h⟩ : ∃ ns', ns.importFrom other (some listed) = .ok ns' := Namespace.exists_importFrom hlisted
  refine ⟨ns', h, Namespace.names_importFrom h, fun name hname => ?_,
    fun name hname => Namespace.resolve_importFrom_of_notMem h hname⟩
  obtain ⟨ref, href⟩ := Namespace.mem_names_iff.mp (hlisted name hname)
  have hresolve : other.resolve name = some ref := by
    rw [Namespace.resolve_eq, href]
    rfl
  exact ⟨ref, hresolve, (Namespace.resolve_importFrom_of_mem h hd hname).trans hresolve⟩

/-- Two namespaces with a name in common; in one, `char` is another name for a built-in type. -/
def levelRun : List Edit :=
  [.defineAlias "here" "level" "number", .defineAlias "there" "char" "string",
    .defineType "there" "level" (.string ":int")]

theorem levels_imported : ∃ ns,
    ((Workspace.after levelRun).get "here").importFrom ((Workspace.after levelRun).get "there")
        (some ["char", "level", "char"]) = .ok ns ∧
      ns.names = ["level", "char"] ∧ ns.resolve "char" = some (.builtin .string) ∧
      ns.resolve "level" = ((Workspace.after levelRun).get "there").resolve "level" ∧
      ns.resolve "int" = some (.builtin .int) ∧
      ns.importFrom ((Workspace.after levelRun).get "there") (some ["char", "level", "char"]) = .ok ns := by
  have hhere : ((Workspace.after levelRun).get "here").names = ["level"] := rfl
  have hthere : ((Workspace.after levelRun).get "there").names = ["level", "char"] := rfl
  have hd := Workspace.distinct_after levelRun "there"
  obtain ⟨-, hnamed, hagain, -⟩ := imports_agree ((Workspace.after levelRun).get "here") _ hd
  obtain ⟨ns, hns, hnames, hlisted, hothers⟩ := hnamed ["char", "level", "char"] (by rw [hthere]; decide)
  obtain ⟨char, hchar, hchar'⟩ := hlisted "char" (by decide)
  obtain ⟨level, hlevel, hlevel'⟩ := hlisted "level" (by decide)
  refine ⟨ns, hns, ?_, hchar'.trans ?_, hlevel'.trans hlevel.symm, (hothers "int" (by decide)).trans rfl,
    hagain _ _ hns⟩
  · rw [hnames, hhere]
    decide
  · exact hchar.symm.trans rfl

end Stencil
