import Stencil.Proofs.FilledText
import Stencil.Proofs.PartialOutput
import Stencil.Proofs.TypesFiles

/-! What a check reports. Every document that has been loaded has its entry, in order and under its label,
with the verdict on this document alone; the lines and the JSON reports say the same, and a run fails
if and only if one of them tells of a failure. -/
namespace Stencil

theorem Json.readAll_write {v : Json} (h : v.Legible maxDepth) (hk : v.KeysDistinct) (l : Layout)
    {ending : String} (he : Ending ending) :
    readAll (Utf8.encode (String.ofList (v.write l 0 []) ++ ending)) = .ok v := by
  have htext : Utf8.encode (String.ofList (v.write l 0 []) ++ ending) =
      Utf8.encodeChars (v.write l 0 ending.toList) := by
    rw [Utf8.encode_eq, String.toList_append, String.toList_ofList, ← write_append, List.nil_append]
  have hblank : Scan.skipSpace (Utf8.encodeChars ending.toList) = [] := by
    obtain rfl | rfl := he
    · rfl
    · rfl
  obtain ⟨hlt, hread⟩ := Scan.readsBack h hk l 0 ending.toList he.ends
  rw [htext, readAll, hread]
  simp only [hblank]

namespace TemplateFiles

/-- The template is compiled in the namespace that the types of the types file, and then its aliases,
lead to. -/
def Compiles (f : TemplateFiles) (t : Template) : Prop :=
  ∃ (types : TypesFile) (w : Workspace) (bs : Bytes) (definition : Json),
    (match f.types with
      | none => types = {}
      | some (_, contents) => ∃ bs, contents = .ok bs ∧ TypesFile.read bs = .ok types) ∧
    types.edits.foldlM Workspace.apply {} = .ok w ∧
    f.template.2 = .ok bs ∧ Json.readFirst bs = .ok definition ∧ (w.get "types").compile definition = .ok t

variable {f : TemplateFiles} {t : Template}

theorem compiles_of_toTemplate (h : f.toTemplate = .ok t) : f.Compiles t := by
  obtain ⟨ns, hns, h⟩ := Except.bind_eq_ok_iff.mp h
  obtain ⟨bs, hbs, h⟩ := Except.bind_eq_ok_iff.mp h
  obtain ⟨definition, hdefinition, h⟩ := Except.bind_eq_ok_iff.mp h
  have hbs := Except.mapError_eq_ok_iff.mp hbs
  have hread : Json.readFirst bs = .ok definition := Except.mapError_eq_ok_iff.mp hdefinition
  have ht := Except.mapError_eq_ok_iff.mp h
  obtain ⟨_ | ⟨path, contents⟩, template⟩ := f
  · cases hns
    exact ⟨{}, {}, bs, definition, rfl, rfl, hbs, hread, ht⟩
  · obtain ⟨typesBytes, hcontents, hns⟩ := Except.bind_eq_ok_iff.mp hns
    obtain ⟨types, htypes, hns⟩ := Except.bind_eq_ok_iff.mp hns
    have hcontents := Except.mapError_eq_ok_iff.mp hcontents
    have htypes := Except.mapError_eq_ok_iff.mp htypes
    obtain ⟨w, hw, rfl⟩ := TypesFile.toNamespace_edits (Except.mapError_eq_ok_iff.mp hns)
    exact ⟨types, w, bs, definition, ⟨typesBytes, hcontents, htypes⟩, hw, hbs, hread, ht⟩

end TemplateFiles

namespace Document

variable {o : InputOptions} {pointer : Option String} {source : String} {text : Bytes} {is : Inputs}
  {d : Document} {ds : List Document}

theorem source_of_ofText (h : ofText pointer source text = .ok d) : d.source = source := by
  unfold ofText at h
  split at h
  · cases h
  · split at h
    · cases h
      rfl
    · split at h
      · cases h
        rfl
      · cases h

/-- The texts of the documents in an input, under their labels; none if the input holds no text. -/
def inputParts (o : InputOptions) (input : String × Except SystemError Bytes) : List (String × Bytes) :=
  match sourceText input.1 input.2 with
  | .ok text => parts o input.1 text
  | .error _ => []

/-- The documents are those of all inputs, part by part. -/
def LoadedFrom (o : InputOptions) (is : Inputs) (ds : List Document) : Prop :=
  (∀ i ∈ is, ∃ text, sourceText i.1 i.2 = .ok text) ∧
    List.Forall₂ (fun p d => ofText o.pointer p.1 p.2 = .ok d ∧ d.source = p.1)
      (is.flatMap (inputParts o)) ds

theorem loadedFrom_of_ofInputs (h : ofInputs o is = .ok ds) : LoadedFrom o is ds := by
  induction is generalizing ds with
  | nil =>
    cases h
    exact ⟨nofun, .nil⟩
  | cons i is ih =>
    obtain ⟨path, contents⟩ := i
    obtain ⟨text, htext, h⟩ := Except.bind_eq_ok_iff.mp h
    obtain ⟨first, hfirst, h⟩ := Except.bind_eq_ok_iff.mp h
    obtain ⟨more, hmore, h⟩ := Except.bind_eq_ok_iff.mp h
    cases h
    obtain ⟨htexts, hparts⟩ := ih hmore
    have hinput : inputParts o (path, contents) = parts o path text := by
      rw [inputParts, htext]
    refine ⟨List.forall_mem_cons.mpr ⟨⟨text, htext⟩, htexts⟩, ?_⟩
    rw [List.flatMap_cons, hinput]
    exact List.rel_append ((ofSource_eq_ok_iff.mp hfirst).imp fun p d hd => ⟨hd, source_of_ofText hd⟩) hparts

end Document

section Reports

open Verdict (coloured)

/-- The entry and the JSON report of one document: whether the template accepts it, and if not, why. -/
inductive Reported (colour fill : Bool) (t : Template) (d : Document) : String × Json → Prop
  | ok {v : Json} (accepted : t.check fill d.value = .ok v) :
    Reported colour fill t d (coloured colour "32" "ok" ++ " " ++ d.source ++ "\n",
      .object [("source", .string d.source), ("ok", .bool true)])
  | failed {e : Violation} (refused : t.check fill d.value = .error e) :
    Reported colour fill t d
      (coloured colour "1;31" "FAIL" ++ " " ++ d.source ++ ": " ++ e.message ++ "\n",
        .object [("source", .string d.source), ("ok", .bool false), ("error", .string e.message)])

/-- Whether a JSON report tells of a failure. -/
def Json.tellsFailure (report : Json) : Bool :=
  match report.child? "ok" with
  | some (.bool ok) => !ok
  | _ => false

/-- The entry and the report that a verdict stands for. -/
def Verdict.row (colour : Bool) (v : Verdict) : String × Json := (v.line colour, v.toJson)

variable {colour fill : Bool} {t : Template} {d : Document} {ds : List Document} {row : String × Json}

theorem Verdict.reported (colour fill : Bool) (t : Template) (d : Document) :
    Reported colour fill t d ((ofDocument fill t d).row colour) := by
  cases h : t.check fill d.value with
  | ok v =>
    have hv : ofDocument fill t d = ⟨d.source, none⟩ := by rw [ofDocument, h]
    rw [hv]
    exact .ok h
  | error e =>
    have hv : ofDocument fill t d = ⟨d.source, some e⟩ := by rw [ofDocument, h]
    rw [hv]
    exact .failed h

theorem Reported.eq_row (h : Reported colour fill t d row) :
    row = ((Verdict.ofDocument fill t d).row colour) := by
  cases h with
  | ok h => rw [Verdict.ofDocument, h]; rfl
  | failed h => rw [Verdict.ofDocument, h]; rfl

/-- A document is reported the same when it is the only one. -/
theorem Reported.alone (h : Reported colour fill t d row) :
    (checkDocuments colour fill false t [d]).output = row.1 ∧
      (checkDocuments colour fill true t [d]).output = (Json.array [row.2]).pretty ++ "\n" := by
  rw [h.eq_row]
  refine ⟨?_, rfl⟩
  change String.join [_] = _
  simp [Verdict.row, String.join]

namespace Verdict

theorem toJson_legible (v : Verdict) (n : Nat) : v.toJson.Legible (n + 1) := by
  obtain ⟨source, _ | e⟩ := v
  · refine .object ?_
    simp only [List.forall_mem_cons, List.append_nil]
    exact ⟨.string _, .bool _, nofun⟩
  · refine .object ?_
    simp only [List.cons_append, List.nil_append, List.forall_mem_cons]
    exact ⟨.string _, .bool _, .string _, nofun⟩

theorem toJson_keysDistinct (v : Verdict) : v.toJson.KeysDistinct := by
  obtain ⟨source, _ | e⟩ := v
  · simp [toJson, Json.keysDistinct_object_iff, Entries.Distinct]
  · simp [toJson, Json.keysDistinct_object_iff, Entries.Distinct]

theorem tellsFailure_toJson (v : Verdict) : v.toJson.tellsFailure = v.failed := by
  obtain ⟨source, _ | e⟩ := v
  · rfl
  · rfl

theorem failed_ofDocument_iff :
    (ofDocument fill t d).failed = true ↔ ¬ ∃ v, t.check fill d.value = .ok v := by
  cases h : t.check fill d.value with
  | ok v => simp [ofDocument, h, failed]
  | error e => simp [ofDocument, h, failed]

end Verdict

theorem checkDocuments_succeeds_iff {json : Bool} :
    (checkDocuments colour fill json t ds).error? = none ↔ ∀ d ∈ ds, ∃ v, t.check fill d.value = .ok v := by
  have hnone : (checkDocuments colour fill json t ds).error? = none ↔
      (ds.map (Verdict.ofDocument fill t)).countP Verdict.failed = 0 := by
    simp only [checkDocuments]
    split
    · rename_i h
      exact iff_of_true rfl h
    · rename_i h
      exact iff_of_false nofun h
  rw [hnone, List.countP_eq_zero, List.forall_mem_map]
  refine forall₂_congr fun d _ => ?_
  rw [Verdict.failed_ofDocument_iff, not_not]

theorem checkDocuments_chain {json : Bool} {e : RunError}
    (h : (checkDocuments colour fill json t ds).error? = some e) :
    e.chain = [toString ((ds.map (Verdict.ofDocument fill t)).countP Verdict.failed) ++ " of " ++
      toString ds.length ++ " document(s) failed validation"] := by
  simp only [checkDocuments] at h
  split at h
  · cases h
  · cases h
    rw [RunError.chain, List.length_map]

/-- The JSON reports are read back as they are. -/
theorem readAll_report (vs : List Verdict) :
    Json.readAll (Utf8.encode (Verdict.report colour true vs)) = .ok (.array (vs.map Verdict.toJson)) := by
  have hlegible : (Json.array (vs.map Verdict.toJson)).Legible Json.maxDepth :=
    .array (List.forall_mem_map.mpr fun v _ => v.toJson_legible 125)
  have hdistinct : (Json.array (vs.map Verdict.toJson)).KeysDistinct :=
    Json.keysDistinct_array_iff.mpr (List.forall_mem_map.mpr fun v _ => v.toJson_keysDistinct)
  exact Json.readAll_write hlegible hdistinct .pretty (.inr rfl)

end Reports

namespace Command

variable {σ : Type} {fs : Files (StateM σ)} {s : σ} {o : TemplateOptions} {i : InputOptions} {fill : Bool}
  {t : Template} {ds : List Document}

/-- Every document is reported in order, as if it was checked alone. The run fails unless all are
accepted, and counts those that are not. -/
theorem check_report_faithful (h : (load fs (.check o i fill false) s).1 = .ok (t, ds)) (colour : Bool) :
    (readTemplate fs o s).1.Compiles t ∧
    (∃ paths, (expandAll fs i.inputs (readTemplate fs o s).2).1 = .ok paths ∧
      Document.LoadedFrom i (readInputs fs paths (expandAll fs i.inputs (readTemplate fs o s).2).2).1 ds) ∧
    ∃ (rows : List (String × Json)) (text : String) (error? : Option RunError),
      List.Forall₂ (fun d row => Reported colour fill t d row ∧
        (checkDocuments colour fill false t [d]).output = row.1 ∧
        (checkDocuments colour fill true t [d]).output = (Json.array [row.2]).pretty ++ "\n") ds rows ∧
      (run fs colour (.check o i fill false) s).1 = (String.join (rows.map (·.1)), error?) ∧
      (run fs colour (.check o i fill true) s).1 = (text, error?) ∧
      Json.readAll (Utf8.encode text) = .ok (.array (rows.map (·.2))) ∧
      (error? = none ↔ ∀ d ∈ ds, ∃ v, t.check fill d.value = .ok v) ∧
      ∀ e, error? = some e → e.chain =
        [toString (rows.countP (·.2.tellsFailure)) ++ " of " ++ toString ds.length ++
          " document(s) failed validation"] := by
  obtain ⟨ht, paths, hpaths, hds⟩ := (load_eq_ok_iff rfl).mp h
  refine ⟨TemplateFiles.compiles_of_toTemplate ht, ⟨paths, hpaths, Document.loadedFrom_of_ofInputs hds⟩, ?_⟩
  have hplain : run fs colour (.check o i fill false) s = (_, _) := run_of_ok h
  have hjson : run fs colour (.check o i fill true) s = (_, _) := run_of_ok h
  let vs := ds.map (Verdict.ofDocument fill t)
  have hlines : (vs.map (Verdict.row colour)).map (·.1) = vs.map (Verdict.line colour) := List.map_map
  have hreports : (vs.map (Verdict.row colour)).map (·.2) = vs.map Verdict.toJson := List.map_map
  refine ⟨vs.map (Verdict.row colour), Verdict.report colour true vs,
    (checkDocuments colour fill false t ds).error?, ?_, ?_, ?_, ?_, checkDocuments_succeeds_iff, ?_⟩
  · rw [List.map_map, List.forall₂_map_right_iff, List.forall₂_same]
    intro d _
    have hrow := Verdict.reported colour fill t d
    exact ⟨hrow, hrow.alone⟩
  · rw [hplain, hlines]
    rfl
  · rw [hjson]
    rfl
  · rw [readAll_report, hreports]
  · intro e he
    have hcount : (vs.map (Verdict.row colour)).countP (·.2.tellsFailure) = vs.countP Verdict.failed := by
      rw [List.countP_map]
      exact List.countP_congr fun v _ => by rw [← v.tellsFailure_toJson]; rfl
    rw [hcount]
    exact checkDocuments_chain he

/-- A type, and an alias of it. -/
def socketTypes : TypesFile := ⟨[("port", .string ":int")], [("socket", "port")]⟩

/-- A template that names the alias; the documents come from the standard input. -/
def pipedWorld : World :=
  World.ofWork (.directory [("types.json", .file (Utf8.encode socketTypes.toJson.compact)),
    ("socket.json", .file (Utf8.encode "\":socket\""))]) (Utf8.encode "80\n \n\"http\"\n")

def checkPiped (json : Bool) : Command :=
  .check ⟨"socket.json", some "types.json"⟩ ⟨true, none, ["-"]⟩ false json

/-- What the alias stands for. -/
def socket : Template := .named ⟨0, "port", .value .int none⟩ none

theorem pipedWorld_files :
    readTemplate World.files ⟨"socket.json", some "types.json"⟩ pipedWorld =
      (⟨some ("types.json", .ok (Utf8.encode socketTypes.toJson.compact)),
        ("socket.json", .ok (Utf8.encode "\":socket\""))⟩, pipedWorld) := by
  have htypes : pipedWorld.read "types.json" = .ok (Utf8.encode socketTypes.toJson.compact) :=
    World.read_plain (by decide +kernel) rfl
  have hsocket : pipedWorld.read "socket.json" = .ok (Utf8.encode "\":socket\"") :=
    World.read_plain (by decide +kernel) rfl
  rw [← htypes, ← hsocket]
  rfl

theorem socket_toTemplate :
    (TemplateFiles.mk (some ("types.json", .ok (Utf8.encode socketTypes.toJson.compact)))
      ("socket.json", .ok (Utf8.encode "\":socket\""))).toTemplate = .ok socket := by
  have hkeys : (Json.object socketTypes.types).KeysDistinct := by
    simp [socketTypes, Json.keysDistinct_object_iff, Entries.Distinct]
  have haliases : Entries.Distinct socketTypes.aliases := by
    simp [socketTypes, Entries.Distinct]
  have hread : TypesFile.read (Utf8.encode socketTypes.toJson.compact) = .ok socketTypes :=
    TypesFile.read_write (List.forall_mem_singleton.mpr (.string ":int")) hkeys haliases .compact
  have hnamespace : socketTypes.toNamespace = .ok ⟨[("port", .defined ⟨0, "port", .value .int none⟩),
      ("socket", .defined ⟨0, "port", .value .int none⟩)]⟩ := by
    with_unfolding_all rfl
  refine Except.bind_eq_ok_iff.mpr ⟨_, Except.bind_eq_ok_iff.mpr ⟨_, rfl, Except.bind_eq_ok_iff.mpr
    ⟨_, Except.mapError_eq_ok_iff.mpr hread, Except.mapError_eq_ok_iff.mpr hnamespace⟩⟩, ?_⟩
  with_unfolding_all rfl

theorem piped_documents :
    Document.ofInputs ⟨true, none, ["-"]⟩ [("-", .ok (Utf8.encode "80\n \n\"http\"\n"))] =
      .ok [⟨"-:1", .number (.int 80)⟩, ⟨"-:3", .string "http"⟩] := by
  have hlines : textLines "80\n \n\"http\"\n".toList = ["80".toList, " ".toList, "\"http\"".toList] := by
    with_unfolding_all rfl
  refine Document.ofInputs_single rfl ?_
  rw [Document.ofSource, if_pos rfl, hlines]
  with_unfolding_all rfl

theorem pipedWorld_loads :
    (load World.files (checkPiped false) pipedWorld).1 =
      .ok (socket, [⟨"-:1", .number (.int 80)⟩, ⟨"-:3", .string "http"⟩]) := by
  have hinputs : readInputs World.files ["-"] pipedWorld =
      ([("-", .ok (Utf8.encode "80\n \n\"http\"\n"))], { pipedWorld with input := [] }) := rfl
  exact congrArg Prod.fst
    (load_of_literals rfl (by decide) pipedWorld_files socket_toTemplate hinputs piped_documents)

theorem piped_reported :
    (load World.files (checkPiped false) pipedWorld).1 =
      .ok (socket, [⟨"-:1", .number (.int 80)⟩, ⟨"-:3", .string "http"⟩]) ∧
    (readTemplate World.files ⟨"socket.json", some "types.json"⟩ pipedWorld).1.Compiles socket ∧
    (run World.files false (checkPiped false) pipedWorld).1.1 =
      "ok -:1\nFAIL -:3: (root): expects int but got \"http\"\n" := by
  obtain ⟨hcompiles, -, rows, text, error?, hrows, hplain, -⟩ := check_report_faithful pipedWorld_loads false
  obtain ⟨first, more, ⟨hfirst, -⟩, hmore, rfl⟩ := List.forall₂_cons_left_iff.mp hrows
  obtain ⟨second, none, ⟨hsecond, -⟩, hnone, rfl⟩ := List.forall₂_cons_left_iff.mp hmore
  obtain rfl := List.forall₂_nil_left_iff.mp hnone
  refine ⟨pipedWorld_loads, hcompiles, ?_⟩
  rw [checkPiped, hplain, hfirst.eq_row, hsecond.eq_row]
  with_unfolding_all rfl

end Command

end Stencil
