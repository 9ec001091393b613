import Stencil.Proofs.Untouched

/-! Files that are read after they have been written. Writing changes no way down to a directory, so the
path that has been written leads to the same place again, and what was put there is found. -/
namespace Stencil

/-- What has been written to a file is read from it. -/
def Files.Retains {σ : Type} (fs : Files (StateM σ)) : Prop :=
  ∀ path bytes s, (fs.write path bytes s).1 = .ok () → (fs.read path (fs.write path bytes s).2).1 = .ok bytes

/-- After a file has been written without an error, it holds the text. -/
theorem Command.read_writeFile {σ : Type} {fs : Files (StateM σ)} (h : fs.Retains) {path text : String} {s : σ}
    (hw : (writeFile fs path text s).1 = none) :
    (fs.read path (writeFile fs path text s).2).1 = .ok (Utf8.encode text) := by
  simp only [writeFile, bind_apply] at hw ⊢
  cases hdir : (fs.makeDirectories (PathName.ancestors path) s).1 with
  | error e =>
    rw [hdir] at hw
    cases hw
  | ok _ =>
    simp only [hdir, bind_apply] at hw ⊢
    generalize (fs.makeDirectories (PathName.ancestors path) s).2 = s' at hw ⊢
    cases hwrite : (fs.write path (Utf8.encode text) s').1 with
    | error e =>
      rw [hwrite] at hw
      cases hw
    | ok _ => exact h path (Utf8.encode text) s' hwrite

/-- A name by which a file is found in the working directory. -/
def PathName.Plain (name : String) : Prop :=
  segments name = [name] ∧ name ∉ ["", ".", ".."] ∧ '\x00' ∉ name.toList ∧ name.utf8ByteSize ≤ 255 ∧
    name.startsWith "/" = false ∧ name.endsWith "/" = false

instance (name : String) : Decidable (PathName.Plain name) := inferInstanceAs (Decidable (_ ∧ _))

theorem PathName.Plain.noSlash {name : String} (h : Plain name) : name.endsWith "/" = false := h.2.2.2.2.2

namespace FileTree

variable {t u : FileTree} {es : List (String × FileTree)} {name : String} {way other : List String}

/-- There is a directory at the end of a way down. -/
def DirectoryAt (t : FileTree) (way : List String) : Prop := ∃ es, t.at? way = some (directory es)

theorem directoryAt_directory_nil (es : List (String × FileTree)) : (directory es).DirectoryAt [] := ⟨es, rfl⟩

theorem directoryAt_directory_cons :
    (directory es).DirectoryAt (name :: way) ↔ ∃ u, Entries.get? es name = some u ∧ u.DirectoryAt way := by
  unfold DirectoryAt
  rw [at?]
  cases Entries.get? es name with
  | none => simp
  | some u => simp

/-- Every way down sets out from a directory, if it ends at one. -/
theorem DirectoryAt.exists_eq (h : t.DirectoryAt way) : ∃ es, t = directory es := by
  obtain ⟨es, h⟩ := h
  cases t with
  | directory es => exact ⟨es, rfl⟩
  | file c =>
    cases way with
    | nil => cases h
    | cons name way => cases h

theorem DirectoryAt.dropLast (h : t.DirectoryAt way) : t.DirectoryAt way.dropLast := by
  induction way generalizing t with
  | nil => exact h
  | cons name way ih =>
    obtain ⟨es, rfl⟩ := h.exists_eq
    cases way with
    | nil => exact directoryAt_directory_nil es
    | cons next way =>
      obtain ⟨u, hu, h⟩ := directoryAt_directory_cons.mp h
      exact directoryAt_directory_cons.mpr ⟨u, hu, ih h⟩

/-- A directory stays where it is when something is put where none was. -/
theorem DirectoryAt.put (h : t.DirectoryAt other) (hway : ¬ t.DirectoryAt way) :
    (t.put way u).DirectoryAt other := by
  induction way generalizing t other with
  | nil =>
    obtain ⟨es, rfl⟩ := h.exists_eq
    exact absurd (directoryAt_directory_nil es) hway
  | cons name way ih =>
    obtain ⟨es, rfl⟩ := h.exists_eq
    -- in either case one entry is exchanged, and what it holds of the way to `other` is kept
    have hplace : ∀ v : FileTree, (∀ t' ss, Entries.get? es name = some t' → t'.DirectoryAt ss → v.DirectoryAt ss) →
        (directory (Entries.insert es name v)).DirectoryAt other := by
      intro v hv
      cases other with
      | nil => exact directoryAt_directory_nil _
      | cons s ss =>
        obtain ⟨t', ht, hss⟩ := directoryAt_directory_cons.mp h
        rw [directoryAt_directory_cons, Entries.get?_insert]
        split
        · rename_i hs
          exact ⟨v, rfl, hv t' ss (hs ▸ ht) hss⟩
        · exact ⟨t', ht, hss⟩
    cases way with
    | nil =>
      refine hplace u fun t' ss ht h => absurd ?_ hway
      obtain ⟨es', rfl⟩ := h.exists_eq
      exact directoryAt_directory_cons.mpr ⟨_, ht, directoryAt_directory_nil es'⟩
    | cons next way =>
      cases hget : Entries.get? es name with
      | none =>
        simp only [FileTree.put, hget]
        exact h
      | some t' =>
        simp only [FileTree.put, hget]
        refine hplace _ fun t'' ss ht h => ?_
        cases hget.symm.trans ht
        exact ih h fun hnext => hway (directoryAt_directory_cons.mpr ⟨t', hget, hnext⟩)

/-- There is a directory around whatever there is. -/
theorem directoryAt_of_at? (h : t.at? (way ++ [name]) = some u) : t.DirectoryAt way := by
  induction way generalizing t with
  | nil =>
    cases t with
    | directory es => exact directoryAt_directory_nil es
    | file c => cases h
  | cons next way ih =>
    cases t with
    | file c => cases h
    | directory es =>
      obtain ⟨t', ht, h⟩ := Option.bind_eq_some_iff.mp h
      exact directoryAt_directory_cons.mpr ⟨t', ht, ih h⟩

/-- What is put into a directory is found there. -/
theorem at?_put_self (h : way = [] ∨ t.DirectoryAt way.dropLast) : (t.put way u).at? way = some u := by
  induction way generalizing t with
  | nil =>
    rw [put]
    rfl
  | cons name way ih =>
    have h : t.DirectoryAt (name :: way).dropLast := h.resolve_left (List.cons_ne_nil name way)
    obtain ⟨es, rfl⟩ := h.exists_eq
    cases way with
    | nil =>
      rw [put, at?, Entries.get?_insert_self]
      rfl
    | cons next way =>
      obtain ⟨t', hget, h⟩ := directoryAt_directory_cons.mp h
      simp only [put, hget]
      rw [at?, Entries.get?_insert_self]
      exact ih (.inr h)

end FileTree

namespace World

open FileTree

variable {w w' : World} {path s : String} {names start way : List String} {contents : Bytes}

theorem directoryAt_of_step (h : w.step start s = .ok way) : w.tree.DirectoryAt start := by
  unfold step at h
  split at h
  · cases h
  · cases h
  · rename_i es hes
    exact ⟨es, hes⟩

/-- A step that ends at no directory goes down by a name. -/
theorem dropLast_of_step (h : w.step start s = .ok way) (hway : ¬ w.tree.DirectoryAt way) :
    way.dropLast = start := by
  have hstart := directoryAt_of_step h
  unfold step at h
  split at h
  · cases h
  · cases h
  · split at h
    · cases h
      exact absurd hstart hway
    · split at h
      · cases h
        exact absurd hstart.dropLast hway
      · split at h
        · cases h
        · cases h
          exact List.dropLast_concat

theorem step_put (h : w.step start s = .ok way) {place : List String} (hplace : ¬ w.tree.DirectoryAt place)
    (t : FileTree) : (w.put place t).step start s = .ok way := by
  have hstart := directoryAt_of_step h
  obtain ⟨es, hes⟩ := hstart
  obtain ⟨es', hes'⟩ : (w.tree.put place t).DirectoryAt start := DirectoryAt.put ⟨es, hes⟩ hplace
  unfold step at h ⊢
  rw [hes] at h
  rw [put, hes']
  exact h

theorem foldlM_step_put (h : names.foldlM w.step start = .ok way) {place : List String}
    (hplace : ¬ w.tree.DirectoryAt place) (t : FileTree) :
    names.foldlM (w.put place t).step start = .ok way := by
  induction names generalizing start with
  | nil => exact h
  | cons name names ih =>
    rw [List.foldlM_cons] at h ⊢
    obtain ⟨next, hnext, h⟩ := Except.bind_eq_ok_iff.mp h
    exact Except.bind_eq_ok_iff.mpr ⟨next, step_put hnext hplace t, ih h⟩

/-- A way that passes names and ends at no directory has a directory around its end. -/
theorem directoryAt_dropLast (h : names.foldlM w.step start = .ok way) (hne : names ≠ [])
    (hway : ¬ w.tree.DirectoryAt way) : w.tree.DirectoryAt way.dropLast := by
  induction names generalizing start with
  | nil => exact absurd rfl hne
  | cons name names ih =>
    rw [List.foldlM_cons] at h
    obtain ⟨next, hnext, h⟩ := Except.bind_eq_ok_iff.mp h
    cases names with
    | nil =>
      cases h
      rw [dropLast_of_step hnext hway]
      exact directoryAt_of_step hnext
    | cons _ _ => exact ih h (List.cons_ne_nil _ _)

theorem pieces_cons_of_ne {c sep : Char} (hc : c ≠ sep) (cs : List Char) :
    ∃ p ps, pieces sep (c :: cs) = (c :: p) :: ps := by
  rw [pieces, if_neg hc]
  cases pieces sep cs with
  | nil => exact ⟨[], [], rfl⟩
  | cons p ps => exact ⟨p, ps, rfl⟩

/-- A path that names nothing is made of slashes, and leads to the root. -/
theorem route_eq_nil (h : w.route path = .ok (start, [])) : start = [] := by
  unfold route at h
  split at h
  · cases h
  · rename_i hne
    split at h
    · cases h
    · split at h
      · cases h
      · obtain ⟨hstart, hnames⟩ := Prod.mk.inj (Except.ok.inj h)
        split at hstart
        · exact hstart.symm
        · rename_i hroot
          obtain ⟨c, cs, hcs⟩ := List.exists_cons_of_ne_nil (mt String.toList_eq_nil_iff.mp hne)
          have hc : c ≠ '/' := by
            rintro rfl
            exact hroot (String.startsWith_string_iff.mpr ⟨cs, hcs.symm⟩)
          obtain ⟨p, ps, hps⟩ := pieces_cons_of_ne hc cs
          have hfirst : String.ofList (c :: p) ∈ PathName.segments path := by
            rw [PathName.segments, hcs, hps]
            exact List.mem_cons_self
          have hempty := List.filter_eq_nil_iff.mp hnames _ hfirst
          simp at hempty

theorem write_eq_ok (h : w.write path contents = .ok w') :
    path.endsWith "/" = false ∧ ∃ way, w.way path = .ok way ∧ ¬ w.tree.DirectoryAt way ∧
      w' = w.put way (file contents) := by
  unfold write at h
  split at h
  · obtain ⟨_, -, h⟩ := Except.bind_eq_ok_iff.mp h
    cases h
  · rename_i hslash
    obtain ⟨way, hway, h⟩ := Except.bind_eq_ok_iff.mp h
    refine ⟨Bool.eq_false_iff.mpr hslash, way, hway, ?_⟩
    split at h
    · cases h
    · rename_i hfree
      cases h
      exact ⟨fun ⟨es, hes⟩ => hfree es hes, rfl⟩

theorem read_of_way (hway : w.way path = .ok way) (hslash : path.endsWith "/" = false)
    (h : w.tree.at? way = some (file contents)) : w.read path = .ok contents := by
  have hlookup : w.lookup path = .ok (file contents) := by
    rw [lookup, hway, hslash, Except.ok_bind, if_neg Bool.false_ne_true, Except.ok_bind]
    dsimp only
    rw [h]
  rw [read, hlookup]
  rfl

theorem read_write (h : w.write path contents = .ok w') : w'.read path = .ok contents := by
  obtain ⟨hslash, place, hway, hplace, rfl⟩ := write_eq_ok h
  obtain ⟨⟨start, names⟩, hroute, hnames⟩ := Except.bind_eq_ok_iff.mp hway
  have hagain : (w.put place (file contents)).way path = .ok place :=
    Except.bind_eq_ok_iff.mpr ⟨(start, names), hroute, foldlM_step_put hnames hplace _⟩
  have haround : place = [] ∨ w.tree.DirectoryAt place.dropLast := by
    cases names with
    | nil =>
      cases hnames
      exact .inl (route_eq_nil hroute)
    | cons name names => exact .inr (directoryAt_dropLast hnames (List.cons_ne_nil name names) hplace)
  exact read_of_way hagain hslash (at?_put_self haround)

/-- The files of a world keep what is written to them. -/
theorem files_retains : files.Retains := by
  intro path bytes w hok
  change (change (·.write path bytes) w).1 = .ok () at hok
  change (files.read path (change (·.write path bytes) w).2).1 = .ok bytes
  cases h : w.write path bytes with
  | ok w' =>
    rw [@change_of_ok (·.write path bytes) w w' h]
    exact read_write h
  | error e =>
    rw [@change_of_error (·.write path bytes) w e h] at hok
    cases hok

section Plain

variable {name : String} (hname : PathName.Plain name)
include hname

theorem way_plain (hhome : w.tree.DirectoryAt w.home) : w.way name = .ok (w.home ++ [name]) := by
  obtain ⟨hsegments, hdots, hnul, hshort, hroot, -⟩ := hname
  simp only [List.mem_cons, List.not_mem_nil, or_false, not_or] at hdots
  obtain ⟨hne, hdot, hup⟩ := hdots
  have hroute : w.route name = .ok (w.home, [name]) := by
    have hzero : name.contains '\x00' = false := by simpa using hnul
    have hkept : (PathName.segments name).filter (· ≠ "") = [name] := by
      rw [hsegments, List.filter_cons_of_pos (by simpa using hne), List.filter_nil]
    rw [route, if_neg hne, hzero, if_neg Bool.false_ne_true, if_neg (by omega), hroot, hkept,
      if_neg Bool.false_ne_true]
  have hstep : w.step w.home name = .ok (w.home ++ [name]) := by
    obtain ⟨es, hes⟩ := hhome
    unfold step
    rw [hes]
    dsimp only
    rw [if_neg hdot, if_neg hup, if_neg (by omega)]
  rw [way, hroute, Except.ok_bind]
  exact Except.bind_eq_ok_iff.mpr ⟨_, hstep, rfl⟩

theorem read_plain (h : w.tree.at? (w.home ++ [name]) = some (file contents)) :
    w.read name = .ok contents :=
  read_of_way (way_plain hname (directoryAt_of_at? h)) hname.noSlash h

theorem write_plain (hhome : w.tree.DirectoryAt w.home) (hfree : ¬ w.tree.DirectoryAt (w.home ++ [name])) :
    w.write name contents = .ok (w.put (w.home ++ [name]) (file contents)) := by
  rw [write, hname.noSlash, if_neg Bool.false_ne_true, way_plain hname hhome, Except.ok_bind]
  split
  · rename_i es hes
    exact absurd ⟨es, hes⟩ hfree
  · rfl

theorem writeFile_plain (haround : PathName.ancestors name = [""]) (hhome : w.tree.DirectoryAt w.home)
    (hfree : ¬ w.tree.DirectoryAt (w.home ++ [name])) (text : String) :
    (Command.writeFile files name text w).1 = none := by
  have hwrite : (files.write name (Utf8.encode text) w).1 = .ok () :=
    congrArg Prod.fst (@change_of_ok (·.write name (Utf8.encode text)) w _ (write_plain hname hhome hfree))
  have hmake : files.makeDirectories [""] w = (.ok (), w) := rfl
  simp only [Command.writeFile, haround, bind_apply, hmake, hwrite]
  rfl

end Plain

end World

end Stencil
