import Mathlib.Data.List.TakeWhile
import Stencil.Template.Key
import Stencil.Proofs.Results

/-! Words without spaces, and what is known of a key that could be read. -/
namespace Stencil

namespace Words

/-- Stripping drops a front part and an end. -/
theorem strip_prefix (cs : List Char) : strip cs <+: cs.dropWhile isSpace := by
  have h : (cs.dropWhile isSpace).reverse.dropWhile isSpace <:+ (cs.dropWhile isSpace).reverse :=
    List.dropWhile_suffix _
  rw [← List.reverse_prefix, List.reverse_reverse] at h
  exact h

/-- What has been stripped does not begin with a space. -/
theorem isSpace_of_strip {cs r : List Char} {c : Char} (h : strip cs = c :: r) : isSpace c = false := by
  obtain ⟨t, ht⟩ := strip_prefix cs
  rw [h, List.cons_append] at ht
  have hd := List.head?_dropWhile_not isSpace cs
  rw [← ht] at hd
  simpa using hd

/-- The first word of a line has characters, none of them a space. -/
theorem current_ofString_next {s word : String} (h : (ofString s).next.current = some word) :
    word ≠ "" ∧ ' ' ∉ word.toList := by
  have hr : (ofString s).rest = strip s.toList := rfl
  rw [next, hr] at h
  cases hs : strip s.toList with
  | nil => simp [hs] at h
  | cons c r =>
    have hc := isSpace_of_strip hs
    rw [hs] at h
    have hw : String.ofList ((c :: r).takeWhile (!isSpace ·)) = word := by simpa using h
    constructor
    · intro he
      rw [he, List.takeWhile_cons, hc] at hw
      simp at hw
    · rw [← hw, String.toList_ofList]
      intro hm
      have := List.mem_takeWhile_imp hm
      simp [isSpace] at this

end Words

namespace PropertyKey

theorem modifiers_eq_ok {name : String} {w : Words} {key : PropertyKey}
    (h : modifiers name w = .ok key) :
    key.name = name ∧ (key.required = false → key.nullable = true) := by
  have hn : ∀ required nullable : Bool, required = false → (nullable || !required) = true := by
    intro required nullable hr
    rw [hr]
    exact Bool.or_true nullable
  unfold modifiers at h
  dsimp only at h
  split at h
  · cases h
    exact ⟨rfl, hn _ _⟩
  · obtain ⟨v, -, rfl⟩ := Except.map_eq_ok_iff.mp h
    exact ⟨rfl, hn _ _⟩
  · cases h

theorem read_of_name {s name : String} (h : (Words.ofString s).next.current = some name) :
    read s = modifiers name (Words.ofString s).next.next := by
  unfold read
  simp only [h]

/-- A key that can be read has a name, and modifiers behind it. -/
theorem read_eq_ok_iff_modifiers {s : String} {key : PropertyKey} :
    read s = .ok key ↔ ∃ name, (Words.ofString s).next.current = some name ∧
      modifiers name (Words.ofString s).next.next = .ok key := by
  cases hname : (Words.ofString s).next.current with
  | none => simp [read, hname]
  | some name => simp [read_of_name hname]

/-- A key that could be read has a name without spaces, and a property that need not be there may be
null. -/
theorem read_eq_ok {s : String} {key : PropertyKey} (h : read s = .ok key) :
    key.name ≠ "" ∧ ' ' ∉ key.name.toList ∧ (key.required = false → key.nullable = true) := by
  obtain ⟨name, hname, h⟩ := read_eq_ok_iff_modifiers.mp h
  obtain ⟨rfl, hn⟩ := modifiers_eq_ok h
  obtain ⟨hne, hsp⟩ := Words.current_ofString_next hname
  exact ⟨hne, hsp, hn⟩

end PropertyKey

end Stencil
