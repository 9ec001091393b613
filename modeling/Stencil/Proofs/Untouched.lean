import Stencil.Command.FileTree
import Stencil.Command.Run
import Stencil.Proofs.Entries
import Stencil.Proofs.Results

/-! What a run leaves as it is. Loading looks at files and changes none; making directories changes no
file; so files are left alone by all but a write that succeeds. -/
namespace Stencil

/-- A step that changes nothing of what `view` shows of the state. -/
def Keeps {σ γ α : Type} (view : σ → γ) (act : StateM σ α) : Prop := ∀ s, view (act s).2 = view s

/-- Files that hold still: only a write changes them, and one that fails does not. -/
structure Files.HoldStill {σ γ : Type} (fs : Files (StateM σ)) (contents : σ → γ) : Prop where
  input : Keeps contents fs.input
  read : ∀ path, Keeps contents (fs.read path)
  kind? : ∀ path, Keeps contents (fs.kind? path)
  entries : ∀ path, Keeps contents (fs.entries path)
  makeDirectory : ∀ path, Keeps contents (fs.makeDirectory path)
  /-- A write happens entirely or not at all. -/
  write : ∀ path bytes s e, (fs.write path bytes s).1 = .error e →
    contents (fs.write path bytes s).2 = contents s

variable {σ γ α β : Type} {view : σ → γ} {fs : Files (StateM σ)} {contents : σ → γ}

theorem bind_apply (act : StateM σ α) (f : α → StateM σ β) (s : σ) :
    (act >>= f) s = f (act s).1 (act s).2 := rfl

theorem pure_apply (a : α) (s : σ) : (Pure.pure a : StateM σ α) s = (a, s) := rfl

namespace Keeps

theorem pure (a : α) : Keeps view (Pure.pure a : StateM σ α) := fun _ => rfl

theorem bind {act : StateM σ α} {f : α → StateM σ β} (h : Keeps view act)
    (hf : ∀ a, Keeps view (f a)) : Keeps view (act >>= f) := by
  intro s
  exact (hf _ _).trans (h s)

theorem mapM {f : α → StateM σ β} (h : ∀ a, Keeps view (f a)) (as : List α) :
    Keeps view (as.mapM f) := by
  induction as with
  | nil => exact pure []
  | cons a as ih =>
    rw [List.mapM_cons]
    exact (h a).bind fun b => ih.bind fun bs => pure _

section Failing

variable {ε : Type}

/-- A step that may fail goes on only if it has not. -/
theorem bindExcept {act : ExceptT ε (StateM σ) α} {f : α → ExceptT ε (StateM σ) β}
    (h : Keeps view act.run) (hf : ∀ a, Keeps view (f a).run) : Keeps view (act >>= f).run := by
  rw [ExceptT.run_bind]
  refine h.bind fun r => ?_
  cases r with
  | error e => exact pure _
  | ok a => exact hf a

theorem lift {act : StateM σ α} (h : Keeps view act) : Keeps view (ExceptT.lift act : ExceptT ε _ α).run :=
  h.bind fun _ => pure _

theorem flatMapM {f : α → ExceptT ε (StateM σ) (List β)} (h : ∀ a, Keeps view (f a).run) (as : List α) :
    Keeps view (as.flatMapM f).run := by
  induction as with
  | nil => exact pure _
  | cons a as ih =>
    rw [List.flatMapM_cons]
    exact (h a).bindExcept fun bs => ih.bindExcept fun cs => pure _

end Failing

end Keeps

open Keeps (pure)

namespace Files.HoldStill

theorem isDirectory (h : fs.HoldStill contents) (path : String) : Keeps contents (fs.isDirectory path) :=
  (h.kind? path).bind fun _ => pure _

theorem settle (h : fs.HoldStill contents) (path : String) : Keeps contents (fs.settle path) := by
  refine (h.makeDirectory path).bind fun r => ?_
  cases r with
  | ok _ => exact pure _
  | error e =>
    refine (h.isDirectory path).bind fun b => ?_
    cases b
    · exact pure _
    · exact pure _

theorem makeDirectories (h : fs.HoldStill contents) (paths : List String) :
    Keeps contents (fs.makeDirectories paths) := by
  induction paths with
  | nil => exact pure _
  | cons path around ih =>
    rw [Files.makeDirectories]
    split
    · exact pure _
    · refine (h.settle path).bind fun r => ?_
      split
      · split
        · exact pure _
        · refine ih.bind fun r => ?_
          cases r with
          | ok _ => exact h.settle path
          | error e => exact pure _
      · exact pure _

end Files.HoldStill

namespace Glob

namespace Spot

theorem entry?_keeps (h : fs.HoldStill contents) (p : Spot) (name : String) :
    Keeps contents (p.entry? fs name) :=
  (h.kind? _).bind fun _ => pure _

theorem dots_keeps (h : fs.HoldStill contents) (p : Spot) (seg : Segment) :
    Keeps contents (p.dots fs seg) :=
  Keeps.mapM (fun _ => (h.isDirectory _).bind fun _ => pure _) _

theorem entries_keeps (h : fs.HoldStill contents) (p : Spot) : Keeps contents (p.entries fs).run := by
  refine (Keeps.lift (h.entries p.path)).bindExcept fun r => ?_
  cases r with
  | error e => exact pure _
  | ok es => exact pure _

end Spot

/-- Looking for the matches of a pattern changes no file, whether it succeeds or not. -/
theorem walk_keeps (h : fs.HoldStill contents) (only : Bool) (fuel : Nat) (segments : List Segment)
    (p : Spot) : Keeps contents (walk fs only fuel segments p).run := by
  induction fuel generalizing segments p with
  | zero =>
    cases segments with
    | nil => exact pure _
    | cons seg rest => exact pure _
  | succ fuel ih =>
    cases segments with
    | nil => exact pure _
    | cons seg rest =>
      rw [walk]
      split
      · refine (Keeps.lift (Spot.entry?_keeps h p _)).bindExcept fun q => ?_
        cases q with
        | none => exact pure _
        | some q => exact ih rest q
      · split
        · exact pure _
        · refine (Spot.entries_keeps h p).bindExcept fun entries => ?_
          refine (Keeps.lift (Spot.dots_keeps h p seg)).bindExcept fun dots => ?_
          refine (Keeps.flatMapM (ih rest) dots).bindExcept fun above => ?_
          refine (Keeps.flatMapM (fun q => ?_) entries).bindExcept fun below => pure _
          exact Keeps.flatMapM (fun segments => ih segments q) _

theorem Pattern.paths_keeps (h : fs.HoldStill contents) (g : Pattern) : Keeps contents (g.paths fs).run :=
  walk_keeps h _ _ _ _

end Glob

namespace Command

theorem readTemplate_keeps (h : fs.HoldStill contents) (o : TemplateOptions) :
    Keeps contents (readTemplate fs o) := by
  unfold readTemplate
  cases o.types with
  | none => exact (pure _).bind fun _ => (h.read _).bind fun _ => pure _
  | some path =>
    exact (h.read path).bind fun _ => (pure _).bind fun _ => (h.read _).bind fun _ => pure _

theorem expand_keeps (h : fs.HoldStill contents) (input : String) : Keeps contents (expand fs input) := by
  unfold expand
  split
  · exact pure _
  · split
    · exact pure _
    · rename_i g _
      refine (g.paths_keeps h).bind fun r => ?_
      split
      · exact pure _
      · exact pure _
      · exact pure _

theorem expandAll_keeps (h : fs.HoldStill contents) (inputs : List String) :
    Keeps contents (expandAll fs inputs) := by
  induction inputs with
  | nil => exact pure _
  | cons input inputs ih =>
    refine (expand_keeps h input).bind fun r => ?_
    cases r with
    | error e => exact pure _
    | ok paths =>
      refine ih.bind fun r => ?_
      cases r
      · exact pure _
      · exact pure _

theorem readInputs_keeps (h : fs.HoldStill contents) (paths : List String) :
    Keeps contents (readInputs fs paths) := by
  induction paths with
  | nil => exact pure _
  | cons path paths ih =>
    rw [readInputs]
    split
    · exact h.input.bind fun _ => ih.bind fun _ => pure _
    · exact (h.read path).bind fun _ => ih.bind fun _ => pure _

/-- Nothing is changed before all has been loaded. -/
theorem load_keeps (h : fs.HoldStill contents) (c : Command) : Keeps contents (load fs c) := by
  refine (readTemplate_keeps h _).bind fun f => ?_
  cases f.toTemplate with
  | error e => exact pure _
  | ok t =>
    cases c.inputOptions? with
    | none => exact pure _
    | some o =>
      refine (expandAll_keeps h _).bind fun r => ?_
      cases r with
      | error e => exact pure _
      | ok paths => exact (readInputs_keeps h paths).bind fun _ => pure _

/-- A file that could not be written is as it was. -/
theorem writeFile_keeps (h : fs.HoldStill contents) {path text : String} {s : σ} {e : RunError}
    (he : (writeFile fs path text s).1 = some e) :
    contents (writeFile fs path text s).2 = contents s := by
  have hmake := h.makeDirectories (PathName.ancestors path) s
  simp only [writeFile, bind_apply] at he ⊢
  cases hdir : (fs.makeDirectories (PathName.ancestors path) s).1 with
  | error e => exact hmake
  | ok _ =>
    simp only [hdir, bind_apply] at he ⊢
    cases hwrite : (fs.write path (Utf8.encode text) (fs.makeDirectories (PathName.ancestors path) s).2).1 with
    | error e => exact (h.write _ _ _ _ hwrite).trans hmake
    | ok _ =>
      rw [hwrite] at he
      cases he

end Command

namespace FileTree

/-- What the file at the end of a way down holds, if there is one. -/
def fileAt (t : FileTree) (way : List String) : Option Bytes :=
  match t.at? way with
  | some (file c) => some c
  | _ => none

theorem fileAt_directory_cons (es : List (String × FileTree)) (name : String) (way : List String) :
    (directory es).fileAt (name :: way) = (Entries.get? es name).elim none (·.fileAt way) := by
  unfold fileAt
  rw [at?]
  cases Entries.get? es name <;> rfl

/-- A directory that takes no place away changes no file. -/
theorem fileAt_put_directory {t : FileTree} {way : List String} (h : t.at? way = none)
    (other : List String) : (t.put way (directory [])).fileAt other = t.fileAt other := by
  induction way generalizing t other with
  | nil => cases h
  | cons name way ih =>
    cases t with
    | file c => rw [put]
    | directory es =>
      have hplace : ∀ u : FileTree, (∀ ss, u.fileAt ss = (Entries.get? es name).elim none (·.fileAt ss)) →
          (directory (Entries.insert es name u)).fileAt other = (directory es).fileAt other := by
        intro u hu
        cases other with
        | nil => rfl
        | cons s ss =>
          rw [fileAt_directory_cons, fileAt_directory_cons, Entries.get?_insert]
          split
          · rename_i hs
            exact hs ▸ hu ss
          · rfl
      cases hget : Entries.get? es name with
      | none =>
        cases way with
        | nil =>
          rw [put]
          refine hplace _ fun ss => ?_
          rw [hget]
          cases ss with
          | nil => rfl
          | cons s ss => exact fileAt_directory_cons [] s ss
        | cons s ss => simp only [put, hget]
      | some u =>
        rw [at?, hget] at h
        cases way with
        | nil => cases h
        | cons s ss =>
          simp only [put, hget]
          refine hplace _ fun other => ?_
          rw [hget]
          exact ih h other

end FileTree

/-- What the files of a world hold. -/
def World.fileAt (w : World) : List String → Option Bytes := w.tree.fileAt

namespace World

variable {f : World → Except SystemError World} {w w' : World}

theorem change_of_ok (h : f w = .ok w') : change f w = (.ok (), w') := by
  unfold change
  rw [h]

theorem change_of_error {e : SystemError} (h : f w = .error e) : change f w = (.error e, w) := by
  unfold change
  rw [h]

theorem fileAt_makeDirectory {path : String} (h : w.makeDirectory path = .ok w') :
    w'.fileAt = w.fileAt := by
  obtain ⟨way, -, h⟩ := Except.bind_eq_ok_iff.mp h
  split at h
  · cases h
  · rename_i hfree
    cases h
    exact funext (FileTree.fileAt_put_directory hfree)

/-- The files of a world hold still. -/
theorem files_holdStill : files.HoldStill fileAt where
  input _ := rfl
  read _ _ := rfl
  kind? _ _ := rfl
  entries _ _ := rfl
  makeDirectory path w := by
    change fileAt (change (·.makeDirectory path) w).2 = w.fileAt
    cases h : w.makeDirectory path with
    | error e => rw [@change_of_error (·.makeDirectory path) w e h]
    | ok w' =>
      rw [@change_of_ok (·.makeDirectory path) w w' h]
      exact fileAt_makeDirectory h
  write path bytes w e he := by
    change fileAt (change (·.write path bytes) w).2 = w.fileAt
    cases h : w.write path bytes with
    | error e => rw [@change_of_error (·.write path bytes) w e h]
    | ok w' =>
      have hok : files.write path bytes w = (.ok (), w') := @change_of_ok (·.write path bytes) w w' h
      rw [hok] at he
      cases he

end World

end Stencil
