import Stencil.Proofs.DistinctKeys
import Stencil.Proofs.PartialOutput
import Stencil.Proofs.Written

/-! What a run that fills documents prints or writes can be read back: line by line when they stand on
lines, and as one document otherwise. -/
namespace Stencil

section Lines

open Json

variable {l : List Char} {c : Char}

theorem textLines_newline (cs : List Char) : textLines ('\n' :: cs) = [] :: textLines cs := by
  rw [textLines]

theorem textLines_cons (hc : 0x20 ≤ c.toNat) (cs : List Char) :
    textLines (c :: cs) =
      match textLines cs with
      | [] => [[c]]
      | l :: ls => (c :: l) :: ls := by
  have hfeed : c ≠ '\n' := by
    rintro rfl
    exact absurd hc (by decide)
  have hreturn : c ≠ '\r' := by
    rintro rfl
    exact absurd hc (by decide)
  rw [textLines.eq_def]
  split
  · rename_i h
    cases h
  · rename_i h
    exact absurd (List.cons.inj h).1 hreturn
  · rename_i h
    exact absurd (List.cons.inj h).1 hfeed
  · rename_i h
    cases h
    rfl

/-- A line without control characters ends at the line feed behind it. -/
theorem textLines_append (hl : Printable l) (cs : List Char) :
    textLines (l ++ '\n' :: cs) = l :: textLines cs := by
  induction l with
  | nil => exact textLines_newline cs
  | cons c l ih =>
    obtain ⟨hc, hl⟩ := List.forall_mem_cons.mp hl
    rw [List.cons_append, textLines_cons hc, ih hl]

theorem textLines_of_printable (hl : Printable l) (hne : l ≠ []) : textLines l = [l] := by
  induction l with
  | nil => exact absurd rfl hne
  | cons c l ih =>
    obtain ⟨hc, hl⟩ := List.forall_mem_cons.mp hl
    rw [textLines_cons hc]
    cases l with
    | nil => rfl
    | cons d l => rw [ih hl (List.cons_ne_nil d l)]

/-- It makes no difference whether the last line ends with a line feed or with the text. -/
theorem textLines_intercalate {ls : List (List Char)} (hls : ∀ l ∈ ls, Printable l ∧ l ≠ [])
    {ending : List Char} (hne : ls ≠ []) (he : ending = [] ∨ ending = ['\n']) :
    textLines (['\n'].intercalate ls ++ ending) = ls := by
  induction ls with
  | nil => exact absurd rfl hne
  | cons l ls ih =>
    obtain ⟨⟨hl, hvisible⟩, hls⟩ := List.forall_mem_cons.mp hls
    cases ls with
    | nil =>
      rw [List.intercalate_singleton]
      obtain rfl | rfl := he
      · rw [List.append_nil, textLines_of_printable hl hvisible]
      · rw [textLines_append hl, textLines]
    | cons l' ls =>
      rw [List.intercalate_cons_cons, List.append_assoc, List.append_assoc, List.singleton_append,
        textLines_append hl, ih hls (List.cons_ne_nil l' ls)]

end Lines

variable {v : Json} {vs : List Json} {o : InputOptions} {path ending : String}

/-- What stands behind a filled text: a line feed where it is printed, nothing where it is written to a
file. -/
def Ending (s : String) : Prop := s = "" ∨ s = "\n"

theorem Ending.toList (he : Ending ending) : ending.toList = [] ∨ ending.toList = ['\n'] := by
  obtain rfl | rfl := he
  · exact .inl rfl
  · exact .inr rfl

theorem Ending.ends (he : Ending ending) : Scan.Ends (Utf8.encodeChars ending.toList) := by
  obtain h | h := he.toList
  · rw [h]
    exact nofun
  · rw [h]
    exact Scan.ends_ascii (.inr (.inr (.inr rfl))) []

theorem Json.readFirst_write (h : v.Legible maxDepth) (hk : v.KeysDistinct) (l : Layout) {ending : String}
    (he : Ending ending) : readFirst (Utf8.encode (String.ofList (v.write l 0 []) ++ ending)) = .ok v := by
  have htext : Utf8.encode (String.ofList (v.write l 0 []) ++ ending) =
      Utf8.encodeChars (v.write l 0 ending.toList) := by
    rw [Utf8.encode_eq, String.toList_append, String.toList_ofList, ← write_append, List.nil_append]
  obtain ⟨hlt, hread⟩ := Scan.readsBack h hk l 0 ending.toList he.ends
  rw [htext, readFirst, hread]

namespace Document

/-- Documents under the labels of the lines that they stand on, one on each. -/
def numbered (path : String) (vs : List Json) : List Document :=
  (vs.zipIdx 1).map fun v => ⟨path ++ ":" ++ toString v.2, v.1⟩

theorem numberedLines_of_visible {ls : List (List Char)} (hls : ∀ l ∈ ls, l.all isBlank = false)
    (path : String) (n : Nat) : numberedLines path n ls =
      (ls.zipIdx n).map fun l => (path ++ ":" ++ toString l.2, Utf8.encode (String.ofList l.1)) := by
  rw [numberedLines, List.filter_eq_self.mpr]
  intro l hl
  simp [hls l.1 (List.fst_mem_of_mem_zipIdx hl)]

theorem textLines_filledText (hvs : ∀ v ∈ vs, v.Legible Json.maxDepth) (hne : vs ≠ []) (he : Ending ending) :
    textLines (filledText true vs ++ ending).toList = vs.map fun v => v.write .compact 0 [] := by
  have hlines : (filledText true vs).toList = ['\n'].intercalate (vs.map fun v => v.write .compact 0 []) := by
    change ("\n".intercalate (vs.map Json.compact)).toList = _
    rw [String.toList_intercalate, List.map_map]
    exact congrArg _ (List.map_congr_left fun v _ => String.toList_ofList)
  rw [String.toList_append, hlines]
  refine textLines_intercalate ?_ (by simpa using hne) he.toList
  intro l hl
  obtain ⟨v, hv, rfl⟩ := List.mem_map.mp hl
  obtain ⟨c, cs, hcs, -⟩ := Json.write_begins (hvs v hv) .compact 0 []
  exact ⟨Json.write_printable (hvs v hv) 0 nofun, hcs ▸ List.cons_ne_nil c cs⟩

theorem parts_filledText (ho : o.ndjson = true) (hvs : ∀ v ∈ vs, v.Legible Json.maxDepth) (path : String)
    (he : Ending ending) : parts o path (filledText true vs ++ ending) =
      (vs.zipIdx 1).map fun v => (path ++ ":" ++ toString v.2, Utf8.encode v.1.compact) := by
  rw [parts, if_pos ho]
  cases vs with
  | nil =>
    obtain rfl | rfl := he
    · rfl
    · rfl
  | cons v vs =>
    rw [textLines_filledText hvs (List.cons_ne_nil v vs) he, numberedLines_of_visible, List.zipIdx_map,
      List.map_map]
    · rfl
    · intro l hl
      obtain ⟨v, hv, rfl⟩ := List.mem_map.mp hl
      obtain ⟨c, cs, hcs, hc⟩ := Json.write_begins (hvs v hv) .compact 0 []
      rw [hcs, List.all_cons, hc, Bool.false_and]

theorem ofInputs_single {bs : Bytes} {text : String} (hbs : bs = Utf8.encode text) {ds : List Document}
    (h : ofSource o path text = .ok ds) : ofInputs o [(path, .ok bs)] = .ok ds := by
  have htext : sourceText path (.ok bs) = .ok text := by
    refine Except.mapError_eq_ok_iff.mpr (Except.bind_eq_ok_iff.mpr ⟨bs, rfl, ?_⟩)
    rw [hbs, Utf8.decode?_encode]
  rw [ofInputs, htext, Except.ok_bind, h, Except.ok_bind, ofInputs, Except.ok_bind, List.append_nil]

theorem ofInputs_cons {i : String × Except SystemError Bytes} {is : Inputs} {ds es : List Document}
    (h : ofInputs o [i] = .ok ds) (his : ofInputs o is = .ok es) : ofInputs o (i :: is) = .ok (ds ++ es) := by
  obtain ⟨path, contents⟩ := i
  obtain ⟨text, htext, h⟩ := Except.bind_eq_ok_iff.mp h
  obtain ⟨ds', hds, h⟩ := Except.bind_eq_ok_iff.mp h
  cases h
  rw [ofInputs, htext, Except.ok_bind, hds, Except.ok_bind, his, Except.ok_bind, List.append_nil]

/-- Documents printed on lines are loaded from these lines. -/
theorem ofInputs_filledText (ho : o.ndjson = true) (hp : o.pointer = none)
    (hvs : ∀ v ∈ vs, v.Legible Json.maxDepth) (hk : ∀ v ∈ vs, v.KeysDistinct) (path : String)
    (he : Ending ending) :
    ofInputs o [(path, .ok (Utf8.encode (filledText true vs ++ ending)))] = .ok (numbered path vs) := by
  refine ofInputs_single rfl (ofSource_eq_ok_iff.mpr ?_)
  rw [parts_filledText ho hvs path he, numbered, List.forall₂_map_left_iff, List.forall₂_map_right_iff,
    List.forall₂_same]
  intro v hv
  have hmem : v.1 ∈ vs := List.fst_mem_of_mem_zipIdx hv
  have hread := Json.readFirst_write (hvs v.1 hmem) (hk v.1 hmem) .compact (.inl rfl)
  rw [String.append_empty] at hread
  rw [ofText, Json.compact, hread, hp]

end Document

/-- Documents as one: a single one by itself, else an array of all of them. -/
def Json.gathered : List Json → Json
  | [v] => v
  | vs => .array vs

theorem filledText_false : ∀ vs, filledText false vs = (Json.gathered vs).pretty
  | [] => rfl
  | [_] => rfl
  | _ :: _ :: _ => rfl

theorem Json.gathered_keysDistinct (hk : ∀ v ∈ vs, v.KeysDistinct) : (gathered vs).KeysDistinct := by
  unfold gathered
  split
  · exact hk _ List.mem_cons_self
  · exact keysDistinct_array_iff.mpr hk

theorem Json.readFirst_filledText (hvs : (gathered vs).Legible maxDepth) (hk : ∀ v ∈ vs, v.KeysDistinct)
    (he : Ending ending) : readFirst (Utf8.encode (filledText false vs ++ ending)) = .ok (gathered vs) := by
  rw [filledText_false]
  exact readFirst_write hvs (gathered_keysDistinct hk) .pretty he

/-- The text of documents that stand on no lines is loaded as one document. -/
theorem Document.ofInputs_gathered (ho : o.ndjson = false) (hp : o.pointer = none)
    (hvs : (Json.gathered vs).Legible Json.maxDepth) (hk : ∀ v ∈ vs, v.KeysDistinct) (path : String)
    (he : Ending ending) :
    ofInputs o [(path, .ok (Utf8.encode (filledText false vs ++ ending)))] =
      .ok [⟨path, Json.gathered vs⟩] := by
  refine ofInputs_single rfl ?_
  rw [ofSource, ho, if_neg Bool.false_ne_true, ofText, Json.readFirst_filledText hvs hk he, hp]
  rfl

namespace Command

variable {σ : Type} {fs : Files (StateM σ)} {s : σ} {template : Template} {ds : List Document}

/-- What a run has delivered: what it has printed, or what is read from the file that it was to write. -/
def delivered (fs : Files (StateM σ)) (out : Option String) (result : (String × Option RunError) × σ) :
    Except SystemError Bytes :=
  match out with
  | none => .ok (Utf8.encode result.1.1)
  | some path => (fs.read path result.2).1

theorem delivered_deliver {out : Option String} (hfs : out ≠ none → fs.Retains) {text : String}
    (h : (deliver fs out text s).1.2 = none) :
    ∃ ending, Ending ending ∧
      delivered fs out (deliver fs out text s) = .ok (Utf8.encode (text ++ ending)) := by
  cases out with
  | none => exact ⟨"\n", .inr rfl, rfl⟩
  | some path =>
    rw [deliver_file] at h ⊢
    refine ⟨"", .inl rfl, ?_⟩
    rw [String.append_empty]
    exact read_writeFile (hfs nofun) h

/-- A run that fills its documents fails only if they cannot be written, and what it prints or writes is
read back as they are. -/
theorem filled_text_reads_back (colour : Bool) (t : TemplateOptions) (i : InputOptions)
    (out : Option String) (hfs : out ≠ none → fs.Retains)
    (hload : (load fs (.fill t i out) s).1 = .ok (template, ds))
    (hfill : fillDocuments template ds = .ok vs) :
    let result := run fs colour (.fill t i out) s
    (∀ v ∈ vs, v.KeysDistinct) ∧
    result.1.2 = out.bind (fun path =>
      (writeFile fs path (filledText i.ndjson vs) (load fs (.fill t i out) s).2).1) ∧
    (result.1.2 = none →
      (i.ndjson = true → (∀ v ∈ vs, v.Legible Json.maxDepth) →
        ∀ (o : InputOptions) (path : String), o.ndjson = true → o.pointer = none →
          Document.ofInputs o [(path, delivered fs out result)] = .ok (Document.numbered path vs)) ∧
      (i.ndjson = false → (Json.gathered vs).Legible Json.maxDepth →
        (delivered fs out result).map Json.readFirst = .ok (.ok (Json.gathered vs)))) := by
  obtain ⟨ht, paths, -, hds⟩ := (load_eq_ok_iff rfl).mp hload
  have hk : ∀ v ∈ vs, v.KeysDistinct :=
    fillDocuments_keysDistinct (TemplateFiles.toTemplate_defaultsDistinct ht)
      (Document.ofInputs_keysDistinct hds) hfill
  dsimp only
  rw [run_fill_of_ok hload hfill]
  refine ⟨hk, ?_, fun hdone => ?_⟩
  · cases out with
    | none => rfl
    | some path => rw [deliver_file, Option.bind_some]
  · obtain ⟨ending, he, htext⟩ := delivered_deliver hfs hdone
    rw [htext]
    refine ⟨fun hlines hvs o path ho hp => ?_, fun hlines hvs => ?_⟩
    · rw [hlines]
      exact Document.ofInputs_filledText ho hp hvs hk path he
    · rw [hlines]
      exact congrArg Except.ok (Json.readFirst_filledText hvs hk he)

/-- A document with empty containers, with line breaks and quotes in its strings, and with the least
integer. -/
def ledger : Json :=
  .object [("to \"sum\"", .array [.number (.int (-9223372036854775808)), .object [], .array []]),
    ("a\\b\r\n", .string "\x00\t\u2028é")]

theorem ledgers_keysDistinct : ∀ v ∈ [ledger, .null], v.KeysDistinct := by
  simp [ledger, Json.keysDistinct_object_iff, Json.keysDistinct_array_iff, Entries.Distinct]

theorem ledger_legible (n : Nat) : ledger.Legible (n + 3) := by
  have hitems : ∀ v ∈ [Json.number (.int (-9223372036854775808)), .object [], .array []],
      v.Legible (n + 1) := by
    simp only [List.forall_mem_cons]
    exact ⟨.int ⟨by decide, by decide⟩, .object nofun, .array nofun, nofun⟩
  refine .object ?_
  simp only [List.forall_mem_cons]
  exact ⟨.array hitems, .string _, nofun⟩

theorem ledgers_legible (n : Nat) : ∀ v ∈ [ledger, .null], v.Legible (n + 3) := by
  simp only [List.forall_mem_cons]
  exact ⟨ledger_legible n, .null, nofun⟩

/-- Files with the ledger and a null, each in one of them and both on the lines of another. -/
def ledgerWorld : World :=
  World.ofWork (.directory [("any.json", .file (Utf8.encode "\":any\"")),
    ("a.json", .file (Utf8.encode (filledText false [ledger] ++ "\n"))),
    ("b.json", .file (Utf8.encode (filledText false [.null] ++ "\n"))),
    ("in.ndjson", .file (Utf8.encode (filledText true [ledger, .null] ++ "\n")))]) []

def fillLedger (lines : Bool) (inputs : List String) (out : Option String) : Command :=
  .fill ⟨"any.json", none⟩ ⟨lines, none, inputs⟩ out

theorem ledgerWorld_loads {lines : Bool} {inputs : List String} {out : Option String} {is : Inputs}
    (hliteral : ∀ p ∈ inputs, Glob.isPattern p = false)
    (hinputs : readInputs World.files inputs ledgerWorld = (is, ledgerWorld))
    (hds : Document.ofInputs ⟨lines, none, inputs⟩ is = .ok ds) :
    load World.files (fillLedger lines inputs out) ledgerWorld = (.ok (.value .any none, ds), ledgerWorld) := by
  have hany : ledgerWorld.read "any.json" = .ok (Utf8.encode "\":any\"") :=
    World.read_plain (by decide +kernel) rfl
  have hfiles : readTemplate World.files ⟨"any.json", none⟩ ledgerWorld =
      (⟨none, ("any.json", .ok (Utf8.encode "\":any\""))⟩, ledgerWorld) := by
    rw [← hany]
    rfl
  refine load_of_literals rfl hliteral hfiles ?_ hinputs hds
  with_unfolding_all rfl

theorem ledgerWorld_loads_lines (out : Option String) :
    load World.files (fillLedger true ["in.ndjson"] out) ledgerWorld =
      (.ok (.value .any none, Document.numbered "in.ndjson" [ledger, .null]), ledgerWorld) := by
  have hin : ledgerWorld.read "in.ndjson" = .ok (Utf8.encode (filledText true [ledger, .null] ++ "\n")) :=
    World.read_plain (by decide +kernel) rfl
  have hinputs : readInputs World.files ["in.ndjson"] ledgerWorld =
      ([("in.ndjson", .ok (Utf8.encode (filledText true [ledger, .null] ++ "\n")))], ledgerWorld) := by
    rw [← hin]
    rfl
  exact ledgerWorld_loads (by decide) hinputs
    (Document.ofInputs_filledText rfl rfl (ledgers_legible 124) ledgers_keysDistinct "in.ndjson" (.inr rfl))

theorem ledgerWorld_loads_whole (out : Option String) :
    load World.files (fillLedger false ["a.json", "b.json"] out) ledgerWorld =
      (.ok (.value .any none, [⟨"a.json", ledger⟩, ⟨"b.json", .null⟩]), ledgerWorld) := by
  have ha : ledgerWorld.read "a.json" = .ok (Utf8.encode (filledText false [ledger] ++ "\n")) :=
    World.read_plain (by decide +kernel) rfl
  have hb : ledgerWorld.read "b.json" = .ok (Utf8.encode (filledText false [.null] ++ "\n")) :=
    World.read_plain (by decide +kernel) rfl
  have hinputs : readInputs World.files ["a.json", "b.json"] ledgerWorld =
      ([("a.json", .ok (Utf8.encode (filledText false [ledger] ++ "\n"))),
        ("b.json", .ok (Utf8.encode (filledText false [.null] ++ "\n")))], ledgerWorld) := by
    rw [← ha, ← hb]
    rfl
  obtain ⟨hledger, hnull⟩ := List.forall_mem_cons.mp ledgers_keysDistinct
  have hlegible : (Json.gathered [ledger]).Legible Json.maxDepth := ledger_legible 124
  have hlegible' : (Json.gathered [.null]).Legible Json.maxDepth := .null
  exact ledgerWorld_loads (by decide) hinputs (Document.ofInputs_cons
    (Document.ofInputs_gathered rfl rfl hlegible (by simpa using hledger) "a.json" (.inr rfl))
    (Document.ofInputs_gathered rfl rfl hlegible' hnull "b.json" (.inr rfl)))

theorem ledger_reads_back :
    (∃ result, run World.files false (fillLedger true ["in.ndjson"] (some "all.ndjson")) ledgerWorld = result ∧
      result.1.2 = none ∧
      Document.ofInputs ⟨true, none, []⟩ [("all.ndjson", delivered World.files (some "all.ndjson") result)] =
        .ok [⟨"all.ndjson:1", ledger⟩, ⟨"all.ndjson:2", .null⟩]) ∧
    ∃ result, run World.files false (fillLedger false ["a.json", "b.json"] none) ledgerWorld = result ∧
      result.1.2 = none ∧
      (delivered World.files none result).map Json.readFirst = .ok (.ok (.array [ledger, .null])) := by
  have hlines := ledgerWorld_loads_lines (some "all.ndjson")
  have hwhole := ledgerWorld_loads_whole none
  have hfillLines : fillDocuments (.value .any none) (Document.numbered "in.ndjson" [ledger, .null]) =
      .ok [ledger, .null] := rfl
  have hfillWhole : fillDocuments (.value .any none) [⟨"a.json", ledger⟩, ⟨"b.json", .null⟩] =
      .ok [ledger, .null] := rfl
  obtain ⟨-, hfile, hback⟩ :=
    filled_text_reads_back false _ _ _ (fun _ => World.files_retains) (congrArg Prod.fst hlines) hfillLines
  obtain ⟨-, hprinted, hback'⟩ :=
    filled_text_reads_back false _ _ _ (fun h => absurd rfl h) (congrArg Prod.fst hwhole) hfillWhole
  have hwritten : (run World.files false (fillLedger true ["in.ndjson"] (some "all.ndjson"))
      ledgerWorld).1.2 = none := by
    refine hfile.trans ?_
    rw [Option.bind_some, ← fillLedger, hlines]
    have hfree : ¬ ledgerWorld.tree.DirectoryAt ["all.ndjson"] := fun ⟨_, h⟩ => nomatch h
    exact World.writeFile_plain (by decide +kernel) (by decide +kernel) ⟨_, rfl⟩ hfree _
  exact ⟨⟨_, rfl, hwritten, (hback hwritten).1 rfl (ledgers_legible 124) _ _ rfl rfl⟩, _, rfl, hprinted,
    (hback' hprinted).2 rfl (.array (ledgers_legible 123))⟩

end Command

end Stencil
