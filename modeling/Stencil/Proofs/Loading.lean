import Mathlib.Data.List.Forall2
import Stencil.Command.Run
import Stencil.Proofs.Results

/-! The documents of an input, part by part. Loading all inputs succeeds exactly when every part of
every one of them can be read by itself. -/
namespace Stencil.Document

/-- The lines from the `n`-th on that are not blank, under the labels that they are reported with. -/
def numberedLines (path : String) (n : Nat) (ls : List (List Char)) : List (String × Bytes) :=
  ((ls.zipIdx n).filter fun l => !l.1.all isBlank).map fun l =>
    (path ++ ":" ++ toString l.2, Utf8.encode (String.ofList l.1))

/-- The texts of the documents in an input: its lines, or all of it. -/
def parts (o : InputOptions) (path text : String) : List (String × Bytes) :=
  if o.ndjson then numberedLines path 1 (textLines text.toList) else [(path, Utf8.encode text)]

/-- The input holds text, and in every part of it there is a document. -/
def Readable (o : InputOptions) (input : String × Except SystemError Bytes) : Prop :=
  ∃ text, sourceText input.1 input.2 = .ok text ∧
    ∀ p ∈ parts o input.1 text, ∃ d, ofText o.pointer p.1 p.2 = .ok d

variable {o : InputOptions} {path text : String} {pointer : Option String} {ds : List Document}

theorem numberedLines_cons (path : String) (n : Nat) (l : List Char) (ls : List (List Char)) :
    numberedLines path n (l :: ls) =
      if l.all isBlank then numberedLines path (n + 1) ls
      else (path ++ ":" ++ toString n, Utf8.encode (String.ofList l)) :: numberedLines path (n + 1) ls := by
  unfold numberedLines
  rw [List.zipIdx_cons]
  split
  · rename_i h
    rw [List.filter_cons_of_neg (by simpa using h)]
  · rename_i h
    rw [List.filter_cons_of_pos (by simpa using h), List.map_cons]

theorem ofLines_eq_ok_iff {n : Nat} {ls : List (List Char)} :
    ofLines pointer path n ls = .ok ds ↔
      List.Forall₂ (fun p d => ofText pointer p.1 p.2 = .ok d) (numberedLines path n ls) ds := by
  induction ls generalizing n ds with
  | nil =>
    rw [ofLines, Except.ok.injEq]
    exact eq_comm.trans List.forall₂_nil_left_iff.symm
  | cons l ls ih =>
    rw [ofLines, numberedLines_cons]
    split
    · exact ih
    · simp only [Except.bind_eq_ok_iff, ih, Except.ok.injEq, List.forall₂_cons_left_iff]
      constructor
      · rintro ⟨d, hd, ds', hds, rfl⟩
        exact ⟨d, ds', hd, hds, rfl⟩
      · rintro ⟨d, ds', hd, hds, rfl⟩
        exact ⟨d, hd, ds', hds, rfl⟩

theorem ofSource_eq_ok_iff :
    ofSource o path text = .ok ds ↔
      List.Forall₂ (fun p d => ofText o.pointer p.1 p.2 = .ok d) (parts o path text) ds := by
  unfold ofSource parts
  split
  · exact ofLines_eq_ok_iff
  · rw [Except.map_eq_ok_iff, List.forall₂_cons_left_iff]
    constructor
    · rintro ⟨d, hd, rfl⟩
      exact ⟨d, [], hd, .nil, rfl⟩
    · rintro ⟨d, ds', hd, hnil, rfl⟩
      rw [List.forall₂_nil_left_iff.mp hnil]
      exact ⟨d, hd, rfl⟩

theorem exists_forall₂_iff {α β : Type} {R : α → β → Prop} {as : List α} :
    (∃ bs, List.Forall₂ R as bs) ↔ ∀ a ∈ as, ∃ b, R a b := by
  induction as with
  | nil => exact iff_of_true ⟨[], .nil⟩ nofun
  | cons a as ih =>
    rw [List.forall_mem_cons, ← ih]
    constructor
    · rintro ⟨bs, h⟩
      obtain ⟨b, bs, hb, hbs, -⟩ := List.forall₂_cons_left_iff.mp h
      exact ⟨⟨b, hb⟩, bs, hbs⟩
    · rintro ⟨⟨b, hb⟩, bs, hbs⟩
      exact ⟨b :: bs, .cons hb hbs⟩

/-- One part that cannot be read is enough for nothing to be loaded. -/
theorem ofInputs_succeeds_iff {is : Inputs} :
    (∃ ds, ofInputs o is = .ok ds) ↔ ∀ i ∈ is, Readable o i := by
  induction is with
  | nil => exact iff_of_true ⟨[], rfl⟩ nofun
  | cons i is ih =>
    obtain ⟨path, contents⟩ := i
    rw [List.forall_mem_cons, ← ih]
    simp only [ofInputs, Except.bind_eq_ok_iff, Readable, ← exists_forall₂_iff, ← ofSource_eq_ok_iff]
    constructor
    · rintro ⟨_, text, htext, ds, hds, es, hes, -⟩
      exact ⟨⟨text, htext, ds, hds⟩, es, hes⟩
    · rintro ⟨⟨text, htext, ds, hds⟩, es, hes⟩
      exact ⟨_, text, htext, ds, hds, es, hes, rfl⟩

end Stencil.Document
