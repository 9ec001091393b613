import Stencil.Command.Run
import Stencil.Proofs.Framing

/-! Text behind a document. The reader of all of a text refuses it unless it is white space; the reader that
files and inputs go through does not look at it. -/
namespace Stencil

namespace Scan

open Ascii

variable {α : Type} {s t r x : Bytes} {f : TypesFile}

section TypesFiles

theorem refuse_ne_ok {expected : String} {a : α} : refuse expected s ≠ .ok a := by
  intro h
  unfold refuse at h
  cases s with
  | nil => cases h
  | cons b r =>
    dsimp only at h
    split_ifs at h
    all_goals first
      | cases h
      | obtain ⟨_, -, h⟩ := Except.bind_eq_ok_iff.mp h
        cases h

theorem stringOnly_framed : Framed Anyhow stringOnly := by
  refine Framed.spaced ?_
  rintro s text t ⟨hlt, h⟩
  cases s with
  | nil => cases h
  | cons b r =>
    dsimp only at h
    split at h
    · rename_i hb
      obtain ⟨⟨c, u, hu⟩, hstring, h⟩ := Except.map_eq_ok_iff.mp h
      cases h
      obtain ⟨front, rfl, htake⟩ := string_framed ⟨hu, hstring⟩
      refine ⟨b :: front, rfl, fun t' _ => ?_⟩
      obtain ⟨hu', hstring'⟩ := htake t' trivial
      refine ⟨Nat.lt_succ_of_lt hu', ?_⟩
      dsimp only [List.cons_append]
      rw [if_pos hb, hstring']
      rfl
    · exact absurd h refuse_ne_ok

theorem mapOf_framed {p : Reader α} (h : Framed BeginAlike p) : Framed Anyhow (mapOf p) := by
  refine Framed.spaced ?_
  rintro s es t ⟨hlt, hread⟩
  cases s with
  | nil => cases hread
  | cons b r =>
    dsimp only at hread
    split at hread
    · rename_i hb
      obtain ⟨⟨c, u, hu⟩, hmembers, hread⟩ := Except.map_eq_ok_iff.mp hread
      cases hread
      obtain ⟨front, rfl, htake⟩ := members_framed (binding_framed h) [] ⟨hu, hmembers⟩
      refine ⟨b :: front, rfl, fun t' _ => ?_⟩
      obtain ⟨hu', hmembers'⟩ := htake t' trivial
      refine ⟨Nat.lt_succ_of_lt hu', ?_⟩
      dsimp only [List.cons_append]
      rw [if_pos hb, hmembers']
      rfl
    · exact absurd hread refuse_ne_ok

theorem typeMap_framed : Framed Anyhow typeMap := mapOf_framed (value_delimited _).framed

theorem aliasMap_framed : Framed Anyhow aliasMap := mapOf_framed stringOnly_framed.weaken

theorem typesMember_types {d : TypesDraft} (h : d.types? = none) (s : Bytes) :
    typesMember d "types" s =
      (·.map fun ts => { d with types? := some ts }) <$> valueOf "types" typeMap s := by
  simp only [typesMember, h]

theorem typesMember_aliases {d : TypesDraft} (h : d.aliases? = none) (s : Bytes) :
    typesMember d "aliases" s =
      (·.map fun as => { d with aliases? := some as }) <$> valueOf "aliases" aliasMap s := by
  simp only [typesMember, h]

theorem typesMember_framed (d : TypesDraft) (key : String) : Framed Anyhow (typesMember d key) := by
  rintro s d' t ⟨hlt, h⟩
  unfold typesMember at h
  split at h
  · rename_i htypes
    obtain ⟨⟨ts, u, hu⟩, hvalue, h⟩ := Except.map_eq_ok_iff.mp h
    cases h
    obtain ⟨front, rfl, htake⟩ := valueOf_framed typeMap_framed ⟨hu, hvalue⟩
    refine ⟨front, rfl, fun t' _ => ?_⟩
    obtain ⟨hu', hvalue'⟩ := htake t' trivial
    refine ⟨hu', ?_⟩
    rw [typesMember_types htypes, hvalue']
    rfl
  · rename_i haliases
    obtain ⟨⟨as, u, hu⟩, hvalue, h⟩ := Except.map_eq_ok_iff.mp h
    cases h
    obtain ⟨front, rfl, htake⟩ := valueOf_framed aliasMap_framed ⟨hu, hvalue⟩
    refine ⟨front, rfl, fun t' _ => ?_⟩
    obtain ⟨hu', hvalue'⟩ := htake t' trivial
    refine ⟨hu', ?_⟩
    rw [typesMember_aliases haliases, hvalue']
    rfl
  · cases h
  · cases h
  · cases h

theorem beginAlike_append_right (h : t ≠ []) (x : Bytes) : BeginAlike t (t ++ x) := by
  cases t with
  | nil => exact absurd rfl h
  | cons b t => rfl

theorem listEnd_append (h : listEnd s = .ok ()) (x : Bytes) : listEnd (s ++ x) = .ok () := by
  unfold listEnd at h
  split at h
  · cases h
  · rename_i b r hs
    obtain ⟨gap, -, rfl, hgap⟩ := skipSpace_eq_cons hs
    split at h
    · rename_i hb
      rw [listEnd, List.append_assoc, List.cons_append, hgap]
      exact if_pos hb
    · split at h
      · split at h
        · cases h
        · cases h
      · cases h

variable {u w v : Bytes} {ts : Entries Json} {as : Entries String}

theorem typesList_types (hfirst : firstItem s = .ok (true, r)) (ht : Takes typeMap r ts u)
    (hnext : nextItem u = .ok (false, w)) : typesList s = .ok { types := ts } := by
  obtain ⟨_, ht⟩ := ht
  simp only [typesList, hfirst, Except.ok_bind, ht, inside_ok, hnext]
  rfl

theorem typesList_both (hfirst : firstItem s = .ok (true, r)) (ht : Takes typeMap r ts u)
    (hnext : nextItem u = .ok (true, w)) (ha : Takes aliasMap w as v) (hend : listEnd v = .ok ()) :
    typesList s = .ok ⟨ts, as⟩ := by
  obtain ⟨_, ht⟩ := ht
  obtain ⟨_, ha⟩ := ha
  simp only [typesList, hfirst, Except.ok_bind, ht, inside_ok, hnext, ha, hend]
  rfl

theorem firstItem_append {more : Bool} (h : firstItem s = .ok (more, r)) (hr : more = true → r ≠ [])
    (x : Bytes) : firstItem (s ++ x) = .ok (more, r ++ x) := by
  obtain ⟨front, rfl, htake⟩ := firstItem_off h
  rw [List.append_assoc]
  exact htake _ fun hmore => beginAlike_append_right (hr hmore) x

theorem nextItem_append {more : Bool} (h : nextItem s = .ok (more, r)) (hr : more = true → r ≠ [])
    (x : Bytes) : nextItem (s ++ x) = .ok (more, r ++ x) := by
  obtain ⟨front, rfl, htake⟩ := nextItem_off h
  rw [List.append_assoc]
  exact htake _ fun hmore => beginAlike_append_right (hr hmore) x

theorem Framed.append {p : Reader α} (h : Framed Anyhow p) {a : α} (hread : Takes p s a t) (x : Bytes) :
    Takes p (s ++ x) a (t ++ x) := by
  obtain ⟨front, rfl, htake⟩ := h hread
  rw [List.append_assoc]
  exact htake _ trivial

/-- The parts of a types file in a list, and whatever stands behind the list. -/
theorem typesList_append (h : typesList s = .ok f) (x : Bytes) : typesList (s ++ x) = .ok f := by
  obtain ⟨⟨more, r⟩, hfirst, h⟩ := Except.bind_eq_ok_iff.mp h
  cases more with
  | false =>
    cases h
    rw [typesList, firstItem_append hfirst nofun x]
    rfl
  | true =>
    obtain ⟨⟨ts, u, hu⟩, htypes, h⟩ := Except.bind_eq_ok_iff.mp h
    have htypes : Takes typeMap r ts u := ⟨hu, Except.mapError_eq_ok_iff.mp htypes⟩
    have hfirst' := firstItem_append hfirst (fun _ => htypes.ne_nil) x
    have htypes' := typeMap_framed.append htypes x
    obtain ⟨⟨more, w⟩, hnext, h⟩ := Except.bind_eq_ok_iff.mp h
    cases more with
    | false =>
      cases h
      exact typesList_types hfirst' htypes' (nextItem_append hnext nofun x)
    | true =>
      obtain ⟨⟨as, v, hv⟩, haliases, h⟩ := Except.bind_eq_ok_iff.mp h
      have haliases : Takes aliasMap w as v := ⟨hv, Except.mapError_eq_ok_iff.mp haliases⟩
      obtain ⟨⟨⟩, hend, h⟩ := Except.bind_eq_ok_iff.mp h
      cases h
      exact typesList_both hfirst' htypes' (nextItem_append hnext (fun _ => haliases.ne_nil) x)
        (aliasMap_framed.append haliases x) (listEnd_append hend x)

/-- Whatever stands behind a types file makes no difference. -/
theorem typesFile_append (h : typesFile s = .ok f) (x : Bytes) : typesFile (s ++ x) = .ok f := by
  rw [typesFile] at h
  split at h
  · cases h
  · rename_i b r hs
    obtain ⟨gap, -, rfl, hgap⟩ := skipSpace_eq_cons hs
    rw [typesFile, List.append_assoc, List.cons_append, hgap]
    dsimp only
    split at h
    · rename_i hb
      obtain ⟨⟨d, u, hu⟩, hmembers, h⟩ := Except.map_eq_ok_iff.mp h
      cases h
      have hframed := members_framed (fun d key => (typesMember_framed d key).weaken) {}
      obtain ⟨_, hmembers⟩ := hframed.append ⟨hu, hmembers⟩ x
      rw [if_pos hb, hmembers]
      rfl
    · rename_i hbrace
      split at h
      · rename_i hb
        rw [if_neg hbrace, if_pos hb]
        exact typesList_append h x
      · exact absurd h refuse_ne_ok

end TypesFiles

section Rests

variable {v : Json} {front : Bytes}

theorem skipSpace_eq_nil_iff : skipSpace t = [] ↔ ∀ b ∈ t, isSpace b = true := List.dropWhile_eq_nil_iff

theorem detached_nil : Detached v front [] := fun _ => ⟨nofun, nofun⟩

/-- White space goes on with nothing. -/
theorem detached_space {b : UInt8} (hb : isSpace b = true) (t : Bytes) : Detached v front (b :: t) := by
  obtain ⟨hpoint, hmark⟩ := neutral_of_isSpace hb
  have hdigit : isDigit b = false := Bool.eq_false_iff.mpr fun hd =>
    absurd hb (Bool.eq_false_iff.mp (isSpace_of_isDigit hd))
  refine fun _ => ⟨?_, fun h => absurd (Option.some.inj h) hpoint⟩
  rintro c ⟨⟩
  exact ⟨hdigit, fun hm => absurd hm (Bool.eq_false_iff.mp hmark)⟩

theorem detached_blank_append (hw : ∀ b ∈ t, isSpace b = true) (h : t = [] → Detached v front r) :
    Detached v front (t ++ r) := by
  cases t with
  | nil => exact h rfl
  | cons b t => exact detached_space (hw b List.mem_cons_self) _

end Rests

end Scan

namespace Json

open Ascii Scan

variable {s doc rest : Bytes} {v : Json}

theorem readFirst_eq_ok_iff_takes : readFirst s = .ok v ↔ ∃ t, Takes (value maxDepth) s v t := by
  unfold readFirst
  constructor
  · intro h
    split at h
    · rename_i r hr
      cases h
      exact ⟨r.rest, r.shorter, hr⟩
    · cases h
  · rintro ⟨t, hlt, h⟩
    rw [h]

theorem readAll_eq_ok_iff_takes :
    readAll s = .ok v ↔ ∃ t, Takes (value maxDepth) s v t ∧ ∀ b ∈ t, isSpace b = true := by
  unfold readAll
  constructor
  · intro h
    split at h
    · rename_i r hr
      split at h
      · rename_i hblank
        cases h
        exact ⟨r.rest, ⟨r.shorter, hr⟩, skipSpace_eq_nil_iff.mp hblank⟩
      · cases h
    · cases h
  · rintro ⟨t, ⟨hlt, h⟩, hblank⟩
    simp only [h, skipSpace_eq_nil_iff.mpr hblank]

theorem readFirst_of_readAll (h : readAll s = .ok v) : readFirst s = .ok v := by
  obtain ⟨t, ht, -⟩ := readAll_eq_ok_iff_takes.mp h
  exact readFirst_eq_ok_iff_takes.mpr ⟨t, ht⟩

/-- A text that is a document is taken for it in front of any rest that does not go on with it. -/
theorem takes_of_readAll (h : readAll doc = .ok v) (hrest : Detached v doc rest) :
    ∃ blank, (∀ b ∈ blank, isSpace b = true) ∧ Takes (value maxDepth) (doc ++ rest) v (blank ++ rest) := by
  obtain ⟨blank, hread, hblank⟩ := readAll_eq_ok_iff_takes.mp h
  obtain ⟨front, rfl, -, htake⟩ := value_delimited maxDepth hread
  refine ⟨blank, hblank, ?_⟩
  rw [List.append_assoc]
  refine htake _ (detached_blank_append hblank ?_)
  rintro rfl
  rwa [List.append_nil] at hrest

theorem exists_front (h : Takes (value maxDepth) s v rest) :
    ∃ doc, s = doc ++ rest ∧ readAll doc = .ok v ∧ Detached v doc rest := by
  obtain ⟨front, rfl, hrest, htake⟩ := value_delimited maxDepth h
  have hwhole := htake [] detached_nil
  rw [List.append_nil] at hwhole
  exact ⟨front, rfl, readAll_eq_ok_iff_takes.mpr ⟨[], hwhole, nofun⟩, hrest⟩

theorem readFirst_append (h : readAll doc = .ok v) (hrest : Detached v doc rest) :
    readFirst (doc ++ rest) = .ok v := by
  obtain ⟨blank, -, hread⟩ := takes_of_readAll h hrest
  exact readFirst_eq_ok_iff_takes.mpr ⟨_, hread⟩

theorem readAll_append (h : readAll doc = .ok v) (hrest : Detached v doc rest)
    (hdirt : ∃ b ∈ rest, isSpace b = false) :
    ∃ e, readAll (doc ++ rest) = .error e ∧ e.cause = .trailingCharacters := by
  obtain ⟨blank, -, hlt, hread⟩ := takes_of_readAll h hrest
  obtain ⟨b, hb, hspace⟩ := hdirt
  rw [readAll, hread]
  dsimp only
  split
  · rename_i hnil
    have hall := skipSpace_eq_nil_iff.mp hnil b (List.mem_append_right blank hb)
    exact absurd hall (Bool.eq_false_iff.mp hspace)
  · exact ⟨_, rfl, rfl⟩

/-- The readers agree on a text unless a document stands at its front and something else than white space
behind it. -/
theorem readers_agree_iff :
    (readFirst s = .ok v ↔ readAll s = .ok v) ↔
      ∀ doc rest, s = doc ++ rest → readAll doc = .ok v → Detached v doc rest →
        ∀ b ∈ rest, isSpace b = true := by
  constructor
  · rintro hagree doc rest rfl hdoc hrest
    by_contra hdirt
    push Not at hdirt
    obtain ⟨b, hb, hspace⟩ := hdirt
    obtain ⟨e, he, -⟩ := readAll_append hdoc hrest ⟨b, hb, by simpa using hspace⟩
    exact nomatch he.symm.trans (hagree.mp (readFirst_append hdoc hrest))
  · refine fun hblank => ⟨fun hfirst => ?_, readFirst_of_readAll⟩
    obtain ⟨rest, hread⟩ := readFirst_eq_ok_iff_takes.mp hfirst
    obtain ⟨doc, hs, hdoc, hrest⟩ := exists_front hread
    exact readAll_eq_ok_iff_takes.mpr ⟨rest, hread, hblank doc rest hs hdoc hrest⟩

/-- Two arrays on two lines, the text of no document. -/
def twoLines : Bytes := Utf8.encode "[1]\n[2]"

theorem readers_disagree : ¬ ∀ s v, readFirst s = .ok v ↔ readAll s = .ok v := by
  intro h
  have hfirst : readFirst twoLines = .ok (.array [.number (.int 1)]) := by
    with_unfolding_all rfl
  have hall : (readAll twoLines).toOption.isNone = true := by
    with_unfolding_all rfl
  rw [(h _ _).mp hfirst] at hall
  cases hall

end Json

section Uses

open Ascii Scan

variable {doc rest : Bytes} {v : Json}

theorem Document.ofText_append (h : Json.readAll doc = .ok v) (hrest : Detached v doc rest)
    (pointer : Option String) (source : String) :
    ofText pointer source (doc ++ rest) = ofText pointer source doc := by
  rw [ofText, ofText, Json.readFirst_append h hrest, Json.readFirst_of_readAll h]

theorem TemplateFiles.toTemplate_append (h : Json.readAll doc = .ok v) (hrest : Detached v doc rest)
    (types : Option (String × Except SystemError Bytes)) (path : String) :
    toTemplate ⟨types, (path, .ok (doc ++ rest))⟩ = toTemplate ⟨types, (path, .ok doc)⟩ := by
  have hread : (Json.readFirst (doc ++ rest)) = Json.readFirst doc := by
    rw [Json.readFirst_append h hrest, Json.readFirst_of_readAll h]
  unfold toTemplate
  simp only [Except.mapError, Except.ok_bind, hread]
  rfl

theorem TypesFile.read_append {s : Bytes} {f : TypesFile} (h : read s = .ok f) (rest : Bytes) :
    read (s ++ rest) = .ok f :=
  Except.mapError_eq_ok_iff.mpr (typesFile_append (Except.mapError_eq_ok_iff.mp h) rest)

/-- The readers agree on a text if and only if nothing but white space stands behind its document;
otherwise only one refuses it. -/
theorem rest_not_looked_at (s : Bytes) (v : Json) :
    ((Json.readFirst s = .ok v ↔ Json.readAll s = .ok v) ↔
      ∀ doc rest, s = doc ++ rest → Json.readAll doc = .ok v → Detached v doc rest →
        ∀ b ∈ rest, isSpace b = true) ∧
    (Json.readAll s = .ok v → Json.readFirst s = .ok v) ∧
    (∀ doc rest, s = doc ++ rest → Json.readAll doc = .ok v → Detached v doc rest →
      ((∃ b ∈ rest, isSpace b = false) →
        ∃ e, Json.readAll s = .error e ∧ e.cause = .trailingCharacters) ∧
      (∀ pointer source, Document.ofText pointer source s = Document.ofText pointer source doc) ∧
      ∀ types path, TemplateFiles.toTemplate ⟨types, (path, .ok s)⟩ =
        TemplateFiles.toTemplate ⟨types, (path, .ok doc)⟩) ∧
    ∀ f rest, TypesFile.read s = .ok f → TypesFile.read (s ++ rest) = .ok f := by
  refine ⟨Json.readers_agree_iff, Json.readFirst_of_readAll, ?_, fun f rest h => TypesFile.read_append h rest⟩
  rintro doc rest rfl h hrest
  exact ⟨Json.readAll_append h hrest, Document.ofText_append h hrest,
    TemplateFiles.toTemplate_append h hrest⟩

theorem second_line_not_looked_at :
    Json.readAll (Utf8.encode "[1]") = .ok (.array [.number (.int 1)]) ∧
    Document.ofText none "all.json" Json.twoLines = .ok ⟨"all.json", .array [.number (.int 1)]⟩ ∧
    ∃ e, Json.readAll Json.twoLines = .error e ∧ e.cause = .trailingCharacters := by
  have hdoc : Json.readAll (Utf8.encode "[1]") = .ok (.array [.number (.int 1)]) := by
    with_unfolding_all rfl
  have hrest : Detached (.array [.number (.int 1)]) (Utf8.encode "[1]") (Utf8.encode "\n[2]") :=
    .of_ne_number fun _ h => nomatch h
  have hlines : Json.twoLines = Utf8.encode "[1]" ++ Utf8.encode "\n[2]" := by
    simp only [Json.twoLines, Utf8.encode_eq, ← Utf8.encodeChars_append, ← String.toList_append]
    rfl
  have hdirt : ∃ b ∈ Utf8.encode "\n[2]", isSpace b = false := ⟨0x5B, by decide, by decide⟩
  obtain ⟨-, -, hbehind, -⟩ := rest_not_looked_at Json.twoLines (.array [.number (.int 1)])
  obtain ⟨hrefused, htext, -⟩ := hbehind _ _ hlines hdoc hrest
  refine ⟨hdoc, ?_, hrefused hdirt⟩
  rw [htext none "all.json", Document.ofText, Json.readFirst_of_readAll hdoc]

end Uses

end Stencil
