import Stencil.Proofs.Loading
import Stencil.Proofs.Retention

/-! What a run that fails has printed and written: nothing, but for the report of a check. -/
namespace Stencil

/-- Filling goes through all documents, or stops at the first that is not valid. -/
theorem fillDocuments_eq_ok_iff_forall₂ {t : Template} {ds : List Document} {vs : List Json} :
    fillDocuments t ds = .ok vs ↔ List.Forall₂ (fun d v => t.check true d.value = .ok v) ds vs := by
  induction ds generalizing vs with
  | nil =>
    rw [fillDocuments, Except.ok.injEq, List.forall₂_nil_left_iff]
    exact eq_comm
  | cons d ds ih =>
    simp only [fillDocuments, Except.bind_eq_ok_iff, Except.mapError_eq_ok_iff, ih, Except.ok.injEq,
      List.forall₂_cons_left_iff]
    constructor
    · rintro ⟨v, hv, vs', hvs, rfl⟩
      exact ⟨v, vs', hv, hvs, rfl⟩
    · rintro ⟨v, vs', hv, hvs, rfl⟩
      exact ⟨v, hv, vs', hvs, rfl⟩

theorem fillDocuments_succeeds_iff {t : Template} {ds : List Document} :
    (∃ vs, fillDocuments t ds = .ok vs) ↔ ∀ d ∈ ds, ∃ v, t.check true d.value = .ok v := by
  simp only [fillDocuments_eq_ok_iff_forall₂]
  exact Document.exists_forall₂_iff

namespace Command

variable {σ γ : Type} {fs : Files (StateM σ)} {contents : σ → γ} {colour : Bool} {c : Command} {s : σ}

/-- All that the command works on can be loaded from `s`: the template, with its types, and every part
of every input. -/
def Loadable (fs : Files (StateM σ)) (c : Command) (s : σ) : Prop :=
  let files := readTemplate fs c.templateOptions s
  (∃ t, files.1.toTemplate = .ok t) ∧ ∀ o, c.inputOptions? = some o →
    let expanded := expandAll fs o.inputs files.2
    ∃ paths, expanded.1 = .ok paths ∧ ∀ i ∈ (readInputs fs paths expanded.2).1, Document.Readable o i

/-- Shows a text: on the standard output, or in the file that is asked for. -/
def deliver (fs : Files (StateM σ)) (out : Option String) (text : String) :
    StateM σ (String × Option RunError) :=
  match out with
  | none => return (text ++ "\n", none)
  | some path => do return ("", ← writeFile fs path text)

theorem deliver_file (path text : String) (s : σ) :
    deliver fs (some path) text s = (("", (writeFile fs path text s).1), (writeFile fs path text s).2) := by
  simp only [deliver, bind_apply, pure_apply]

section Loading

variable {t : Template} {ds : List Document}

/-- What has been loaded comes from the template files and from all inputs that the patterns stand for. -/
theorem load_eq_ok_iff {i : InputOptions} (hi : c.inputOptions? = some i) :
    let files := readTemplate fs c.templateOptions s
    let expanded := expandAll fs i.inputs files.2
    (load fs c s).1 = .ok (t, ds) ↔
      files.1.toTemplate = .ok t ∧ ∃ paths, expanded.1 = .ok paths ∧
        Document.ofInputs i (readInputs fs paths expanded.2).1 = .ok ds := by
  simp only [load, bind_apply, hi]
  generalize readTemplate fs c.templateOptions s = files
  cases files.1.toTemplate with
  | error e => exact iff_of_false nofun nofun
  | ok t' =>
    dsimp only
    rw [bind_apply]
    cases (expandAll fs i.inputs files.2).1 with
    | error e => exact iff_of_false nofun fun ⟨_, paths, hpaths, _⟩ => nomatch hpaths
    | ok paths =>
      refine Except.map_eq_ok_iff.trans ⟨fun ⟨ds', hds, hpair⟩ => ?_, fun ⟨ht, paths', hpaths, hds⟩ => ?_⟩
      · cases hpair
        exact ⟨rfl, paths, rfl, hds⟩
      · cases ht
        cases hpaths
        exact ⟨ds, hds, rfl⟩

/-- Inputs that are no patterns stand for themselves. -/
theorem expandAll_of_literals {inputs : List String} (h : ∀ p ∈ inputs, Glob.isPattern p = false) (s : σ) :
    expandAll fs inputs s = (.ok inputs, s) := by
  induction inputs with
  | nil => rfl
  | cons input inputs ih =>
    obtain ⟨hinput, hinputs⟩ := List.forall_mem_cons.mp h
    have hself : expand fs input s = (.ok [input], s) := by
      rw [expand, hinput]
      rfl
    rw [expandAll, bind_apply, hself]
    dsimp only
    rw [bind_apply, ih hinputs]
    rfl

theorem load_of_literals {i : InputOptions} {files : TemplateFiles} {is : Inputs} {s₁ s₂ : σ}
    (hi : c.inputOptions? = some i) (hliteral : ∀ p ∈ i.inputs, Glob.isPattern p = false)
    (hfiles : readTemplate fs c.templateOptions s = (files, s₁)) (ht : files.toTemplate = .ok t)
    (hinputs : readInputs fs i.inputs s₁ = (is, s₂)) (hds : Document.ofInputs i is = .ok ds) :
    load fs c s = (.ok (t, ds), s₂) := by
  simp only [load, bind_apply, hi, hfiles, ht, expandAll_of_literals hliteral, hinputs, pure_apply, hds]
  rfl

theorem load_eq_ok_iff_of_none (hi : c.inputOptions? = none) :
    (load fs c s).1 = .ok (t, ds) ↔
      (readTemplate fs c.templateOptions s).1.toTemplate = .ok t ∧ ds = [] := by
  simp only [load, bind_apply, hi]
  cases (readTemplate fs c.templateOptions s).1.toTemplate with
  | error e => exact iff_of_false nofun nofun
  | ok t' =>
    change Except.ok (t', []) = Except.ok (t, ds) ↔ _
    rw [Except.ok.injEq, Except.ok.injEq, Prod.mk.injEq, eq_comm (a := [])]

theorem load_succeeds_iff : (∃ r, (load fs c s).1 = .ok r) ↔ Loadable fs c s := by
  unfold Loadable
  cases hi : c.inputOptions? with
  | none =>
    constructor
    · rintro ⟨⟨t, ds⟩, h⟩
      exact ⟨⟨t, ((load_eq_ok_iff_of_none hi).mp h).1⟩, nofun⟩
    · rintro ⟨⟨t, ht⟩, -⟩
      exact ⟨(t, []), (load_eq_ok_iff_of_none hi).mpr ⟨ht, rfl⟩⟩
  | some i =>
    constructor
    · rintro ⟨⟨t, ds⟩, h⟩
      obtain ⟨ht, paths, hpaths, hds⟩ := (load_eq_ok_iff hi).mp h
      refine ⟨⟨t, ht⟩, fun o ho => ?_⟩
      cases ho
      exact ⟨paths, hpaths, Document.ofInputs_succeeds_iff.mp ⟨ds, hds⟩⟩
    · rintro ⟨⟨t, ht⟩, h⟩
      obtain ⟨paths, hpaths, hreadable⟩ := h i rfl
      obtain ⟨ds, hds⟩ := Document.ofInputs_succeeds_iff.mpr hreadable
      exact ⟨(t, ds), (load_eq_ok_iff hi).mpr ⟨ht, paths, hpaths, hds⟩⟩

end Loading

theorem run_of_error {e : RunError} (h : (load fs c s).1 = .error e) :
    run fs colour c s = (("", some e), (load fs c s).2) := by
  simp only [run, bind_apply]
  rw [h]
  rfl

theorem run_of_ok {t : Template} {ds : List Document} (h : (load fs c s).1 = .ok (t, ds)) :
    run fs colour c s =
      match (c.outcome colour t ds).file? with
      | none => (((c.outcome colour t ds).output, (c.outcome colour t ds).error?), (load fs c s).2)
      | some (path, text) =>
        (((c.outcome colour t ds).output, (writeFile fs path text (load fs c s).2).1),
          (writeFile fs path text (load fs c s).2).2) := by
  simp only [run, bind_apply]
  rw [h]
  dsimp only
  cases (c.outcome colour t ds).file? with
  | none => rfl
  | some f => simp only [bind_apply, pure_apply]

theorem run_keeps_of_noFile (h : fs.HoldStill contents)
    (hfile : ∀ t ds, (c.outcome colour t ds).file? = none) :
    contents (run fs colour c s).2 = contents s := by
  have hload := load_keeps h c s
  cases hr : (load fs c s).1 with
  | error e =>
    rw [run_of_error hr]
    exact hload
  | ok r =>
    obtain ⟨t, ds⟩ := r
    rw [run_of_ok hr, hfile]
    exact hload

variable {o : TemplateOptions} {i : InputOptions} {out : Option String} {t : Template}
  {ds : List Document}

theorem run_fill_of_ok (hr : (load fs (.fill o i out) s).1 = .ok (t, ds)) {vs : List Json}
    (hvs : fillDocuments t ds = .ok vs) :
    run fs colour (.fill o i out) s =
      deliver fs out (filledText i.ndjson vs) (load fs (.fill o i out) s).2 := by
  rw [run_of_ok hr]
  simp only [outcome, hvs]
  cases out with
  | none => rfl
  | some path => exact (deliver_file path _ _).symm

theorem run_fill_of_error (hr : (load fs (.fill o i out) s).1 = .ok (t, ds)) {e : RunError}
    (he : fillDocuments t ds = .error e) :
    run fs colour (.fill o i out) s = (("", some e), (load fs (.fill o i out) s).2) := by
  rw [run_of_ok hr]
  simp only [outcome, he]

theorem deliver_keeps (h : fs.HoldStill contents) {text : String}
    (he : (deliver fs out text s).1.2.isSome) :
    (deliver fs out text s).1.1 = "" ∧ contents (deliver fs out text s).2 = contents s := by
  cases out with
  | none => cases he
  | some path =>
    rw [deliver_file] at he ⊢
    obtain ⟨e, he⟩ := Option.isSome_iff_exists.mp he
    exact ⟨rfl, writeFile_keeps h he⟩

/-- Filling that fails prints nothing and changes no file, whatever it fails for. -/
theorem failed_fill (h : fs.HoldStill contents) (he : (run fs colour (.fill o i out) s).1.2.isSome) :
    (run fs colour (.fill o i out) s).1.1 = "" ∧
      contents (run fs colour (.fill o i out) s).2 = contents s := by
  have hload := load_keeps h (.fill o i out) s
  cases hr : (load fs (.fill o i out) s).1 with
  | error e =>
    rw [run_of_error hr]
    exact ⟨rfl, hload⟩
  | ok r =>
    obtain ⟨t, ds⟩ := r
    cases hvs : fillDocuments t ds with
    | error e =>
      rw [run_fill_of_error hr hvs]
      exact ⟨rfl, hload⟩
    | ok vs =>
      rw [run_fill_of_ok hr hvs] at he ⊢
      obtain ⟨houtput, hwrite⟩ := deliver_keeps h he
      exact ⟨houtput, hwrite.trans hload⟩

/-- A command that cannot load all that it works on prints nothing. -/
theorem failed_load (hc : ¬ Loadable fs c s) :
    (run fs colour c s).1.1 = "" ∧ (run fs colour c s).1.2.isSome := by
  cases hr : (load fs c s).1 with
  | error e =>
    rw [run_of_error hr]
    exact ⟨rfl, rfl⟩
  | ok r => exact absurd (load_succeeds_iff.mp ⟨r, hr⟩) hc

theorem failed_compile (he : (run fs colour (.compile o) s).1.2.isSome) :
    (run fs colour (.compile o) s).1.1 = "" := by
  cases hr : (load fs (.compile o) s).1 with
  | error e => rw [run_of_error hr]
  | ok r =>
    obtain ⟨t, ds⟩ := r
    rw [run_of_ok hr] at he
    cases he

/-- Filling that fails, for whatever reason, has printed nothing and changed no file, and checking and
compiling never change one. -/
theorem no_partial_output (h : fs.HoldStill contents) (colour : Bool) (s : σ) :
    (∀ o i out, (run fs colour (.fill o i out) s).1.2.isSome →
      (run fs colour (.fill o i out) s).1.1 = "" ∧
        contents (run fs colour (.fill o i out) s).2 = contents s) ∧
    (∀ c, ¬ Loadable fs c s → (run fs colour c s).1.1 = "" ∧ (run fs colour c s).1.2.isSome) ∧
    (∀ o, (run fs colour (.compile o) s).1.2.isSome → (run fs colour (.compile o) s).1.1 = "") ∧
    (∀ o i fill json, contents (run fs colour (.check o i fill json) s).2 = contents s) ∧
    (∀ o, contents (run fs colour (.compile o) s).2 = contents s) ∧
    ∀ o i out t ds, (load fs (.fill o i out) s).1 = .ok (t, ds) →
      ((∃ vs, fillDocuments t ds = .ok vs) ↔ ∀ d ∈ ds, ∃ v, t.check true d.value = .ok v) ∧
        match fillDocuments t ds with
        | .ok vs => run fs colour (.fill o i out) s =
            deliver fs out (filledText i.ndjson vs) (load fs (.fill o i out) s).2
        | .error e => run fs colour (.fill o i out) s = (("", some e), (load fs (.fill o i out) s).2) := by
  refine ⟨fun o i out => failed_fill h, fun c => failed_load, fun o => failed_compile,
    fun o i fill json => run_keeps_of_noFile h fun _ _ => rfl,
    fun o => run_keeps_of_noFile h fun _ _ => rfl, fun o i out t ds hr => ⟨fillDocuments_succeeds_iff, ?_⟩⟩
  split
  · rename_i vs hvs
    exact run_fill_of_ok hr hvs
  · rename_i e he
    exact run_fill_of_error hr he

/-- Two documents, of which the second is no integer, beside the outcome of an earlier run. -/
def portsWorld : World :=
  World.ofWork (.directory [("port.json", .file (Utf8.encode "\":int\"")), ("a.json", .file (Utf8.encode "80")),
    ("b.json", .file (Utf8.encode "\"http\"")), ("all.json", .file (Utf8.encode "null"))]) []

def fillPorts (inputs : List String) : Command :=
  .fill ⟨"port.json", none⟩ ⟨false, none, inputs⟩ (some "all.json")

theorem portsWorld_loads :
    load World.files (fillPorts ["a.json", "b.json"]) portsWorld =
      (.ok (.value .int none, [⟨"a.json", .number (.int 80)⟩, ⟨"b.json", .string "http"⟩]), portsWorld) := by
  have hport : portsWorld.read "port.json" = .ok (Utf8.encode "\":int\"") :=
    World.read_plain (by decide +kernel) rfl
  have ha : portsWorld.read "a.json" = .ok (Utf8.encode "80") := World.read_plain (by decide +kernel) rfl
  have hb : portsWorld.read "b.json" = .ok (Utf8.encode "\"http\"") := World.read_plain (by decide +kernel) rfl
  have hfiles : readTemplate World.files ⟨"port.json", none⟩ portsWorld =
      (⟨none, ("port.json", .ok (Utf8.encode "\":int\""))⟩, portsWorld) := by
    rw [← hport]
    rfl
  have hinputs : readInputs World.files ["a.json", "b.json"] portsWorld =
      ([("a.json", .ok (Utf8.encode "80")), ("b.json", .ok (Utf8.encode "\"http\""))], portsWorld) := by
    rw [← ha, ← hb]
    rfl
  refine load_of_literals rfl (by decide) hfiles ?_ hinputs ?_
  · with_unfolding_all rfl
  · with_unfolding_all rfl

/-- The files of a world, of which no directory may be listed. -/
def sealedFiles : Files (StateM World) :=
  { World.files with entries := fun _ w => (.error .accessDenied, w) }

theorem sealedFiles_holdStill : sealedFiles.HoldStill World.fileAt :=
  { World.files_holdStill with entries := fun _ _ => rfl }

theorem sealed_not_loadable : ¬ Loadable sealedFiles (fillPorts ["*.json"]) portsWorld := by
  have hlisting : (expandAll sealedFiles ["*.json"] portsWorld).1 =
      .error (.unlistable ⟨".", .accessDenied⟩) := by
    with_unfolding_all rfl
  intro h
  obtain ⟨paths, hpaths, -⟩ := h.2 ⟨false, none, ["*.json"]⟩ rfl
  cases hlisting.symm.trans hpaths

theorem fillPorts_changes_nothing :
    ((run World.files false (fillPorts ["a.json", "b.json"]) portsWorld).1.2.isSome ∧
      (run World.files false (fillPorts ["a.json", "b.json"]) portsWorld).1.1 = "" ∧
      World.fileAt (run World.files false (fillPorts ["a.json", "b.json"]) portsWorld).2 = portsWorld.fileAt) ∧
    (run sealedFiles false (fillPorts ["*.json"]) portsWorld).1.2.isSome ∧
      (run sealedFiles false (fillPorts ["*.json"]) portsWorld).1.1 = "" ∧
      World.fileAt (run sealedFiles false (fillPorts ["*.json"]) portsWorld).2 = portsWorld.fileAt := by
  obtain ⟨e, he⟩ : ∃ e, fillDocuments (.value .int none)
      [⟨"a.json", .number (.int 80)⟩, ⟨"b.json", .string "http"⟩] = .error e := ⟨_, rfl⟩
  have hfails : (run World.files false (fillPorts ["a.json", "b.json"]) portsWorld).1.2.isSome := by
    rw [fillPorts, run_fill_of_error (congrArg Prod.fst portsWorld_loads) he]
    rfl
  obtain ⟨hfill, -⟩ := no_partial_output World.files_holdStill false portsWorld
  obtain ⟨hsealed, hload, -⟩ := no_partial_output sealedFiles_holdStill false portsWorld
  obtain ⟨-, hunlisted⟩ := hload _ sealed_not_loadable
  exact ⟨⟨hfails, hfill _ _ _ hfails⟩, hunlisted, hsealed _ _ _ hunlisted⟩

end Command

end Stencil
