import Stencil.Command.FileTree
import Stencil.Proofs.TypesFiles
import Stencil.Proofs.Verdicts

/-! The check command reports the same whether defaults are applied or not. -/
namespace Stencil

open Except (Alike)

theorem Verdict.ofDocument_of_alike {t : Template} {d : Document}
    (h : Alike (t.check true d.value) (t.check false d.value)) :
    Verdict.ofDocument true t d = Verdict.ofDocument false t d := by
  unfold Verdict.ofDocument
  generalize t.check true d.value = x at h ⊢
  generalize t.check false d.value = y at h ⊢
  cases h <;> rfl

theorem checkDocuments_applyDefaults {t : Template} (ht : t.NamesDistinct) (colour json : Bool)
    (ds : List Document) :
    checkDocuments colour true json t ds = checkDocuments colour false json t ds := by
  have hv : ds.map (Verdict.ofDocument true t) = ds.map (Verdict.ofDocument false t) :=
    List.map_congr_left fun d _ => Verdict.ofDocument_of_alike (Template.check_alike ht d.value)
  unfold checkDocuments
  rw [hv]

namespace Command

variable {m : Type → Type} [Monad m]

/-- Loads the documents for a template that has been loaded. -/
def loadDocuments (fs : Files m) (c : Command) : m (Except RunError (List Document)) :=
  match c.inputOptions? with
  | none => return .ok []
  | some o => do
    match ← expandAll fs o.inputs with
    | .error e => return .error e
    | .ok paths => return Document.ofInputs o (← readInputs fs paths)

/-- What comes of a command once its template has been loaded. -/
def runWith (fs : Files m) (colour : Bool) (c : Command) (t : Template) :
    m (String × Option RunError) := do
  match ← loadDocuments fs c with
  | .error e => return ("", some e)
  | .ok ds =>
    let o := c.outcome colour t ds
    match o.file? with
    | none => return (o.output, o.error?)
    | some (path, text) => return (o.output, ← writeFile fs path text)

theorem load_eq [LawfulMonad m] (fs : Files m) (c : Command) :
    load fs c = readTemplate fs c.templateOptions >>= fun f =>
      match f.toTemplate with
      | .error e => pure (.error e)
      | .ok t => loadDocuments fs c >>= fun r => pure (r.map (t, ·)) := by
  unfold load loadDocuments
  refine bind_congr fun f => ?_
  cases f.toTemplate with
  | error e => rfl
  | ok t =>
    dsimp only
    cases c.inputOptions? with
    | none => rw [pure_bind]; rfl
    | some o =>
      dsimp only
      rw [bind_assoc]
      refine bind_congr fun r => ?_
      cases r with
      | error e => rw [pure_bind]; rfl
      | ok paths => rw [bind_assoc]; simp only [pure_bind]

theorem run_eq [LawfulMonad m] (fs : Files m) (colour : Bool) (c : Command) :
    run fs colour c = readTemplate fs c.templateOptions >>= fun f =>
      match f.toTemplate with
      | .error e => pure ("", some e)
      | .ok t => runWith fs colour c t := by
  unfold run
  rw [load_eq, bind_assoc]
  refine bind_congr fun f => ?_
  cases f.toTemplate with
  | error e => rw [pure_bind]
  | ok t =>
    dsimp only
    rw [bind_assoc, runWith]
    refine bind_congr fun r => ?_
    rw [pure_bind]
    cases r <;> rfl

theorem runWith_applyDefaults [LawfulMonad m] (fs : Files m) (colour json : Bool)
    (o : TemplateOptions) (i : InputOptions) {t : Template} (ht : t.NamesDistinct) :
    runWith fs colour (check o i true json) t = runWith fs colour (check o i false json) t := by
  unfold runWith
  refine bind_congr fun r => ?_
  cases r with
  | error e => rfl
  | ok ds =>
    dsimp only [outcome]
    rw [checkDocuments_applyDefaults ht]

theorem run_applyDefaults [LawfulMonad m] (fs : Files m) (colour json : Bool) (o : TemplateOptions)
    (i : InputOptions) :
    run fs colour (check o i true json) = run fs colour (check o i false json) := by
  rw [run_eq, run_eq]
  refine bind_congr fun f => ?_
  -- all that has been read before is the same; only the template decides
  cases hf : f.toTemplate with
  | error e => rfl
  | ok t =>
    have ht := (TemplateFiles.toTemplate_compiled hf).wellFormed
    exact runWith_applyDefaults fs colour json o i ht.namesDistinct

end Command

/-- Filling in defaults changes no verdict and no reason for one, if the template declares no name twice;
compiled templates never do. -/
theorem defaults_never_change_verdicts :
    (∀ t : Template, t.NamesDistinct → ∀ v, Alike (t.check true v) (t.check false v)) ∧
      (∀ t : Template, t.Compiled → t.NamesDistinct) ∧
        ∀ (m : Type → Type) [Monad m] [LawfulMonad m] (fs : Files m) (colour json : Bool)
          (o : TemplateOptions) (i : InputOptions),
          Command.run fs colour (.check o i true json) =
            Command.run fs colour (.check o i false json) := by
  refine ⟨fun t ht v => Template.check_alike ht v, fun t ht => ht.wellFormed.namesDistinct, ?_⟩
  intro m _ _ fs colour json o i
  exact Command.run_applyDefaults fs colour json o i

def orderDefinition : Json :=
  .object [("status", .string "open"), ("lines", .array [.object [("count", .bool true),
    ("sku required", .string ":string")]])]

def partialOrder : Json := .object [("lines", .array [.object [("sku", .string "A-1")], .object []])]

theorem partialOrder_refused_alike :
    ∃ t, Template.compile TypeRef.builtin? orderDefinition = .ok t ∧
      t.check true partialOrder = .error (.missing ["lines", "1", "sku"]) ∧
        ∀ i, Command.run World.files false (.check ⟨"order", none⟩ i true false) =
          Command.run World.files false (.check ⟨"order", none⟩ i false false) := by
  obtain ⟨t, ht, he⟩ : ∃ t, Template.compile TypeRef.builtin? orderDefinition = .ok t ∧
    t.check false partialOrder = .error (.missing ["lines", "1", "sku"]) := ⟨_, rfl, rfl⟩
  obtain ⟨hverdict, hnames, hrun⟩ := defaults_never_change_verdicts
  have h := hverdict t (hnames t (History.compiled_of_builtin ht)) partialOrder
  rw [he] at h
  exact ⟨t, ht, h.eq_error, hrun (StateM World) World.files false false _⟩

end Stencil
