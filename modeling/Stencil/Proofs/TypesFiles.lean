import Stencil.Command.Run
import Stencil.Proofs.Histories
import Stencil.Proofs.RoundTrip

/-! Types files are read as they are written. They are histories: their types and aliases are edits of
one namespace, so a template that is loaded with one has been compiled like any other. -/
namespace Stencil

namespace Scan

open Ascii Json Utf8

variable {α : Type} {l : Layout}

theorem mapOf_readsAs {p : Reader α} {ms : List (String × Json)} {es : Entries α}
    (h : Gathers (binding p) l [] ms es) : ReadsAs (mapOf p) l (.object ms) es := by
  intro d rest _
  obtain ⟨r, hopen, hlt, hread⟩ := members_takes h d rest
  refine Takes.spaced ?_
  rw [hopen]
  refine ⟨Nat.lt_succ_of_lt hlt, ?_⟩
  change (fun x => x.behind openBrace) <$> members (binding p) [] r = _
  rw [hread]
  rfl

theorem stringOnly_readsAs (s : String) : ReadsAs stringOnly l (.string s) s := by
  intro d rest _
  obtain ⟨hlt, hread⟩ := string_takes s (encodeChars rest)
  refine Takes.spaced ?_
  change Takes _ (skipSpace (encodeChars (quoted s ++ rest))) _ _
  rw [encodeChars_quoted, skipSpace_cons (by decide)]
  refine ⟨Nat.lt_succ_of_lt hlt, ?_⟩
  change (fun x => x.behind quote) <$> string _ = _
  rw [hread]
  rfl

theorem typeMap_readsAs {ts : Entries Json} (hts : ∀ m ∈ ts, m.2.Legible (maxDepth - 2))
    (hk : (object ts).KeysDistinct) : ReadsAs (mapOf (value (maxDepth - 2))) l (.object ts) ts := by
  obtain ⟨hd, hvalues⟩ := keysDistinct_object_iff.mp hk
  exact mapOf_readsAs (gathers_values (fun m hm => readsBack (hts m hm) (hvalues m hm) l) hd)

theorem aliasMap_readsAs {as : Entries String} (hd : Entries.Distinct as) :
    ReadsAs (mapOf stringOnly) l (.object (as.map fun m => (m.1, .string m.2))) as :=
  mapOf_readsAs (gathers_binding (fun m _ => stringOnly_readsAs m.2) [] hd)

end Scan

namespace TypesFile

def toJson (f : TypesFile) : Json :=
  .object [("types", .object f.types), ("aliases", .object (f.aliases.map fun m => (m.1, .string m.2)))]

open Scan in
/-- In either layout, a types file is read as it is written. -/
theorem read_write {f : TypesFile} (htypes : ∀ m ∈ f.types, m.2.Legible (Json.maxDepth - 2))
    (hk : (Json.object f.types).KeysDistinct) (haliases : Entries.Distinct f.aliases) (l : Json.Layout) :
    read (Utf8.encode (String.ofList (f.toJson.write l 0 []))) = .ok f := by
  have haliasMember : Gathers typesMember l ⟨some f.types, none⟩
      [("aliases", .object (f.aliases.map fun m => (m.1, .string m.2)))] ⟨some f.types, some f.aliases⟩ :=
    .cons (fun d cs hcs => (valueOf_readsAs (aliasMap_readsAs haliases) "aliases" d hcs).map
      fun as => TypesDraft.mk (some f.types) (some as)) (.nil _)
  have hmembers : Gathers typesMember l {} [("types", .object f.types),
      ("aliases", .object (f.aliases.map fun m => (m.1, .string m.2)))] ⟨some f.types, some f.aliases⟩ :=
    .cons (fun d cs hcs => (valueOf_readsAs (typeMap_readsAs htypes hk) "types" d hcs).map
      fun ts => TypesDraft.mk (some ts) none) haliasMember
  obtain ⟨r, hopen, hlt, hread⟩ := members_takes hmembers 0 []
  rw [read, Utf8.encode_eq, String.toList_ofList, typesFile, toJson, hopen]
  change Except.mapError _ ((·.value.finish) <$> members typesMember {} r) = _
  rw [hread]
  rfl

def typeEdit (e : String × Json) : Edit := .defineType "types" e.1 e.2

def aliasEdit (e : String × String) : Edit := .defineAlias "types" e.1 e.2

/-- The edits that a types file asks for. -/
def edits (f : TypesFile) : List Edit := f.types.map typeEdit ++ f.aliases.map aliasEdit

theorem defineTypes_edits {es : Entries Json} {w : Workspace} {ns : Namespace}
    (h : defineTypes w.defined (w.get "types") es = .ok ns) :
    ∃ w', (es.map typeEdit).foldlM Workspace.apply w = .ok w' ∧ w'.get "types" = ns := by
  induction es generalizing w with
  | nil =>
    cases h
    exact ⟨w, rfl, rfl⟩
  | cons e es ih =>
    obtain ⟨name, d⟩ := e
    rw [defineTypes] at h
    obtain ⟨ns₁, h₁, h⟩ := Except.bind_eq_ok_iff.mp h
    have hd := Except.mapError_eq_ok_iff.mp h₁
    have happly : w.apply (typeEdit (name, d)) = .ok (w.count.put "types" ns₁) :=
      Except.map_eq_ok_iff.mpr ⟨ns₁, hd, rfl⟩
    rw [← Workspace.get_put_self w.count "types" ns₁] at h
    obtain ⟨w', hw', hget⟩ := ih (w := w.count.put "types" ns₁) h
    exact ⟨w', Workspace.foldlM_apply_cons_iff.mpr ⟨_, happly, hw'⟩, hget⟩

theorem defineAliases_edits {es : Entries String} {w : Workspace} {ns : Namespace}
    (h : defineAliases (w.get "types") es = .ok ns) :
    ∃ w', (es.map aliasEdit).foldlM Workspace.apply w = .ok w' ∧ w'.get "types" = ns := by
  induction es generalizing w with
  | nil =>
    cases h
    exact ⟨w, rfl, rfl⟩
  | cons e es ih =>
    obtain ⟨newName, name⟩ := e
    rw [defineAliases] at h
    obtain ⟨ns₁, h₁, h⟩ := Except.bind_eq_ok_iff.mp h
    have hd := Except.mapError_eq_ok_iff.mp h₁
    have happly : w.apply (aliasEdit (newName, name)) = .ok (w.put "types" ns₁) :=
      Except.map_eq_ok_iff.mpr ⟨ns₁, hd, rfl⟩
    rw [← Workspace.get_put_self w "types" ns₁] at h
    obtain ⟨w', hw', hget⟩ := ih h
    exact ⟨w', Workspace.foldlM_apply_cons_iff.mpr ⟨_, happly, hw'⟩, hget⟩

/-- The namespace of a types file is the one that its edits lead to. -/
theorem toNamespace_edits {f : TypesFile} {ns : Namespace} (h : f.toNamespace = .ok ns) :
    ∃ w, f.edits.foldlM Workspace.apply {} = .ok w ∧ w.get "types" = ns := by
  obtain ⟨ns₁, h₁, h₂⟩ := Except.bind_eq_ok_iff.mp h
  obtain ⟨w₁, hw₁, rfl⟩ := defineTypes_edits (w := {}) h₁
  obtain ⟨w₂, hw₂, rfl⟩ := defineAliases_edits h₂
  refine ⟨w₂, ?_, rfl⟩
  rw [edits, List.foldlM_append]
  exact Except.bind_eq_ok_iff.mpr ⟨w₁, hw₁, hw₂⟩

theorem edits_allowed (f : TypesFile) (s : History) : ∀ e ∈ f.edits, s.Allows e := by
  intro e he
  rcases List.mem_append.mp he with he | he
  · obtain ⟨_, -, rfl⟩ := List.mem_map.mp he
    trivial
  · obtain ⟨_, -, rfl⟩ := List.mem_map.mp he
    trivial

theorem toNamespace_reachable {f : TypesFile} {ns : Namespace} (h : f.toNamespace = .ok ns) :
    ∃ s : History, s.Reachable ∧ s.workspace.get "types" = ns := by
  obtain ⟨w, hw, hget⟩ := toNamespace_edits h
  exact ⟨⟨w, []⟩, History.Reachable.edits .refl (f.edits_allowed {}) hw, hget⟩

end TypesFile

namespace TemplateFiles

variable {f : TemplateFiles}

theorem typesNamespace_reachable {ns : Namespace} (h : f.typesNamespace = .ok ns) :
    ∃ s : History, s.Reachable ∧ s.workspace.get "types" = ns := by
  unfold typesNamespace at h
  split at h
  · cases h
    exact ⟨{}, .refl, rfl⟩
  · obtain ⟨bs, -, h⟩ := Except.bind_eq_ok_iff.mp h
    obtain ⟨types, -, h⟩ := Except.bind_eq_ok_iff.mp h
    exact TypesFile.toNamespace_reachable (Except.mapError_eq_ok_iff.mp h)

/-- What is loaded from a template and a types file has been compiled. -/
theorem toTemplate_compiled {t : Template} (h : f.toTemplate = .ok t) : t.Compiled := by
  obtain ⟨ns, hns, h⟩ := Except.bind_eq_ok_iff.mp h
  obtain ⟨bs, -, h⟩ := Except.bind_eq_ok_iff.mp h
  obtain ⟨d, -, h⟩ := Except.bind_eq_ok_iff.mp h
  obtain ⟨s, hs, rfl⟩ := typesNamespace_reachable hns
  exact hs.compiled (Except.mapError_eq_ok_iff.mp h)

end TemplateFiles

end Stencil
