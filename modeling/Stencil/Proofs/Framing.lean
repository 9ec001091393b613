import Stencil.Proofs.NumeralEnds
import Stencil.Proofs.RoundTrip

/-! What a reader takes is the front of a text, and it would take the same in front of another rest: any
other, or one that begins alike where the reader looks at one byte more than it takes. -/
namespace Stencil.Scan

open Ascii

variable {α β σ : Type} {K : Bytes → Bytes → Prop} {p : Reader α} {s t t' r : Bytes} {a : α}
  {b : UInt8}

/-- Another rest that is related to the one left makes no difference to what `p` takes. -/
def Framed (K : Bytes → Bytes → Prop) (p : Reader α) : Prop :=
  ∀ ⦃s a t⦄, Takes p s a t → ∃ front, s = front ++ t ∧ ∀ t', K t t' → Takes p (front ++ t') a t'

/-- Any two rests. -/
def Anyhow (_ _ : Bytes) : Prop := True

/-- Rests that begin with the same byte, or that are both empty. -/
def BeginAlike (t t' : Bytes) : Prop := t.head? = t'.head?

theorem Framed.weaken (h : Framed Anyhow p) : Framed K p := by
  intro s a t hread
  obtain ⟨front, rfl, htake⟩ := h hread
  exact ⟨front, rfl, fun t' _ => htake t' trivial⟩

/-- A reader takes something. -/
theorem Takes.front_ne_nil {front : Bytes} (h : Takes p (front ++ t) a t) : front ≠ [] := by
  rintro rfl
  obtain ⟨hlt, -⟩ := h
  exact absurd hlt (Nat.lt_irrefl _)

theorem Takes.ne_nil (h : Takes p s a t) : s ≠ [] := by
  rintro rfl
  obtain ⟨hlt, -⟩ := h
  exact absurd hlt (Nat.not_lt_zero _)

theorem beginAlike_append {front : Bytes} (h : front ≠ []) (t t' : Bytes) :
    BeginAlike (front ++ t) (front ++ t') := by
  cases front with
  | nil => exact absurd rfl h
  | cons b front => rfl

section Space

theorem skipSpace_eq_cons (h : skipSpace s = b :: r) :
    ∃ gap, (∀ c ∈ gap, isSpace c = true) ∧ s = gap ++ b :: r ∧
      ∀ r', skipSpace (gap ++ b :: r') = b :: r' := by
  have hb : isSpace b = false := by
    have := List.head?_dropWhile_not isSpace s
    rw [show s.dropWhile isSpace = b :: r from h] at this
    simpa using this
  have hgap : ∀ c ∈ s.takeWhile isSpace, isSpace c = true := List.all_eq_true.mp List.all_takeWhile
  refine ⟨s.takeWhile isSpace, hgap, ?_, fun r' => ?_⟩
  · rw [← h]
    exact List.takeWhile_append_dropWhile.symm
  · rw [skipSpace_append hgap, skipSpace_cons hb]

theorem Framed.spaced (h : Framed K p) : Framed K (spaced p) := by
  intro s a t hread
  have hread := takes_spaced_iff.mp hread
  obtain ⟨front, hs, htake⟩ := h hread
  cases front with
  | nil =>
    have hread : Takes p ([] ++ t) a t := hs ▸ hread
    exact absurd rfl hread.front_ne_nil
  | cons b front =>
    obtain ⟨gap, -, rfl, hgap⟩ := skipSpace_eq_cons hs
    refine ⟨gap ++ b :: front, by simp, fun t' ht' => ?_⟩
    rw [takes_spaced_iff, List.append_assoc, List.cons_append, hgap]
    exact htake t' ht'

end Space

section Strings

theorem hex4_framed : Framed Anyhow hex4 := by
  rintro s n t ⟨hlt, h⟩
  unfold hex4 at h
  split at h
  · rename_i a b c d r
    split at h
    · rename_i ha hb hc hd
      cases h
      have hlt' : ∀ t' : Bytes, t'.length < (a :: b :: c :: d :: t').length := fun t' => by
        simp only [List.length_cons]
        omega
      refine ⟨[a, b, c, d], rfl, fun t' _ => ⟨hlt' t', ?_⟩⟩
      simp only [List.cons_append, List.nil_append, hex4, ha, hb, hc, hd]
    · cases h
  · cases h

theorem trailingEscape_framed : Framed Anyhow trailingEscape := by
  rintro s n t ⟨hlt, h⟩
  unfold trailingEscape at h
  split at h
  · cases h
  · rename_i b r
    split at h
    · rename_i hb
      split at h
      · cases h
      · rename_i c u
        split at h
        · rename_i hc
          obtain ⟨⟨m, v, hv⟩, hhex, h⟩ := Except.bind_eq_ok_iff.mp h
          dsimp only at h
          split at h
          · rename_i htrailing
            cases h
            obtain ⟨front, rfl, htake⟩ := hex4_framed ⟨hv, hhex⟩
            refine ⟨b :: c :: front, rfl, fun t' _ => ?_⟩
            obtain ⟨hv', hhex'⟩ := htake t' trivial
            refine ⟨Nat.lt_succ_of_lt (Nat.lt_succ_of_lt hv'), ?_⟩
            simp only [List.cons_append, trailingEscape, hb, hc, if_true, hhex', Except.ok_bind, htrailing]
          · cases h
        · cases h
    · cases h

theorem unicodeEscape_framed : Framed Anyhow unicodeEscape := by
  rintro s c t ⟨hlt, h⟩
  obtain ⟨⟨n, r, hr⟩, hhex, h⟩ := Except.bind_eq_ok_iff.mp h
  obtain ⟨front, rfl, htake⟩ := hex4_framed ⟨hr, hhex⟩
  dsimp only at h
  split at h
  · cases h
  · rename_i htrailing
    split at h
    · rename_i hleading
      obtain ⟨⟨m, u, hu⟩, hescape, h⟩ := Except.bind_eq_ok_iff.mp h
      obtain ⟨rfl, rfl⟩ := (Read.mk.injEq ..).mp (Except.ok.inj h)
      obtain ⟨back, rfl, htake'⟩ := trailingEscape_framed ⟨hu, hescape⟩
      refine ⟨front ++ back, by rw [List.append_assoc], fun t' _ => ?_⟩
      obtain ⟨hu', hescape'⟩ := htake' t' trivial
      obtain ⟨hr', hhex'⟩ := htake (back ++ t') trivial
      rw [List.append_assoc]
      refine ⟨Nat.lt_trans hu' hr', ?_⟩
      simp only [unicodeEscape, hhex', Except.ok_bind, htrailing, hleading, if_true, hescape']
      rfl
    · rename_i hleading
      obtain ⟨rfl, rfl⟩ := (Read.mk.injEq ..).mp (Except.ok.inj h)
      refine ⟨front, rfl, fun t' _ => ?_⟩
      obtain ⟨hr', hhex'⟩ := htake t' trivial
      refine ⟨hr', ?_⟩
      simp only [unicodeEscape, hhex', Except.ok_bind, htrailing, hleading]
      rfl

theorem escape_framed : Framed Anyhow escape := by
  rintro s c t ⟨hlt, h⟩
  unfold escape at h
  split at h
  · cases h
  · rename_i b r
    split at h
    · rename_i c hletter
      cases h
      exact ⟨[b], rfl, fun t' _ => escape_letter hletter t'⟩
    · rename_i hletter
      split at h
      · rename_i hb
        obtain ⟨⟨c, u, hu⟩, hescape, h⟩ := Except.map_eq_ok_iff.mp h
        cases h
        obtain ⟨front, rfl, htake⟩ := unicodeEscape_framed ⟨hu, hescape⟩
        refine ⟨b :: front, rfl, fun t' _ => ?_⟩
        obtain ⟨hu', hescape'⟩ := htake t' trivial
        refine ⟨Nat.lt_succ_of_lt hu', ?_⟩
        simp only [List.cons_append, escape, hb, if_true, hescape', Except.ok_map]
        rfl
      · cases h

theorem stringBytes_framed : Framed Anyhow stringBytes := by
  rintro s bs t ⟨hlt, h⟩
  fun_induction stringBytes s generalizing bs t with
  | case1 => cases h
  | case2 r =>
    cases h
    exact ⟨[quote], rfl, fun t' _ => stringBytes_end t'⟩
  | case3 r hquote ih =>
    obtain ⟨⟨c, u, hu⟩, hescape, h⟩ := Except.bind_eq_ok_iff.mp h
    obtain ⟨⟨cs, v, hv⟩, hmore, h⟩ := Except.bind_eq_ok_iff.mp h
    cases h
    obtain ⟨front, rfl, htake⟩ := escape_framed ⟨hu, hescape⟩
    obtain ⟨back, rfl, htake'⟩ := ih u hu hv hmore
    refine ⟨backslash :: front ++ back, by simp, fun t' _ => ?_⟩
    rw [List.append_assoc]
    exact stringBytes_escape (htake _ trivial) (htake' t' trivial)
  | case4 => cases h
  | case5 b r hquote hslash hlow ih =>
    obtain ⟨⟨cs, v, hv⟩, hmore, h⟩ := Except.map_eq_ok_iff.mp h
    cases h
    obtain ⟨front, rfl, htake⟩ := ih hv hmore
    exact ⟨b :: front, rfl, fun t' _ => stringBytes_plain hquote hslash hlow (htake t' trivial)⟩

/-- What follows the closing quote is not looked at. -/
theorem string_framed : Framed Anyhow string := by
  rintro s text t ⟨hlt, h⟩
  obtain ⟨⟨bs, r, hr⟩, hbytes, h⟩ := Except.bind_eq_ok_iff.mp h
  dsimp only at h
  split at h
  · rename_i cs hcs
    cases h
    obtain ⟨front, rfl, htake⟩ := stringBytes_framed ⟨hr, hbytes⟩
    refine ⟨front, rfl, fun t' _ => ?_⟩
    obtain ⟨hr', hbytes'⟩ := htake t' trivial
    refine ⟨hr', ?_⟩
    simp only [string, hbytes', Except.ok_bind, hcs]
  · cases h

end Strings

section Punctuation

variable {more : Bool}

/-- The byte that an item begins with is looked at and left. -/
theorem firstItem_off (h : firstItem s = .ok (more, r)) :
    ∃ front, s = front ++ r ∧
      ∀ r', (more = true → BeginAlike r r') → firstItem (front ++ r') = .ok (more, r') := by
  rw [firstItem] at h
  split at h
  · cases h
  · rename_i b u hs
    obtain ⟨gap, -, rfl, hgap⟩ := skipSpace_eq_cons hs
    split at h
    · rename_i hb
      cases h
      refine ⟨gap ++ [b], by simp, fun r' _ => firstItem_bracket ?_⟩
      rw [List.append_assoc, List.singleton_append, hgap, hb]
    · rename_i hb
      cases h
      refine ⟨gap, rfl, fun r' hr' => ?_⟩
      cases r' with
      | nil => cases hr' rfl
      | cons c r' =>
        obtain rfl := Option.some.inj (hr' rfl)
        exact firstItem_begins (hgap r') hb

theorem nextItem_off (h : nextItem s = .ok (more, r)) :
    ∃ front, s = front ++ r ∧
      ∀ r', (more = true → BeginAlike r r') → nextItem (front ++ r') = .ok (more, r') := by
  rw [nextItem] at h
  split at h
  · cases h
  · rename_i b u hs
    obtain ⟨gap, -, rfl, hgap⟩ := skipSpace_eq_cons hs
    split at h
    · rename_i hb
      cases h
      refine ⟨gap ++ [b], by simp, fun r' _ => nextItem_bracket ?_⟩
      rw [List.append_assoc, List.singleton_append, hgap, hb]
    · split at h
      · rename_i hcomma
        split at h
        · cases h
        · rename_i c v hu
          obtain ⟨gap', -, rfl, hgap'⟩ := skipSpace_eq_cons hu
          split at h
          · cases h
          · rename_i hc
            cases h
            refine ⟨gap ++ b :: gap', by simp, fun r' hr' => ?_⟩
            cases r' with
            | nil => cases hr' rfl
            | cons d r' =>
              obtain rfl := Option.some.inj (hr' rfl)
              refine nextItem_comma ?_ (hgap' r') hc
              rw [List.append_assoc, List.cons_append, hgap, hcomma]
      · cases h

/-- The quote in front of a key is taken, too. -/
theorem firstMember_off (h : firstMember s = .ok (more, r)) :
    ∃ front, s = front ++ r ∧ ∀ r', firstMember (front ++ r') = .ok (more, r') := by
  rw [firstMember] at h
  split at h
  · cases h
  · rename_i b u hs
    obtain ⟨gap, -, rfl, hgap⟩ := skipSpace_eq_cons hs
    have hsplit : ∀ r', skipSpace (gap ++ [b] ++ r') = b :: r' := fun r' => by
      rw [List.append_assoc, List.singleton_append, hgap]
    split at h
    · rename_i hb
      cases h
      exact ⟨gap ++ [b], by simp, fun r' => firstMember_brace (by rw [hsplit, hb])⟩
    · split at h
      · rename_i hb
        cases h
        exact ⟨gap ++ [b], by simp, fun r' => firstMember_quote (by rw [hsplit, hb])⟩
      · cases h

theorem nextMember_off (h : nextMember s = .ok (more, r)) :
    ∃ front, s = front ++ r ∧ ∀ r', nextMember (front ++ r') = .ok (more, r') := by
  rw [nextMember] at h
  split at h
  · cases h
  · rename_i b u hs
    obtain ⟨gap, -, rfl, hgap⟩ := skipSpace_eq_cons hs
    split at h
    · rename_i hb
      cases h
      refine ⟨gap ++ [b], by simp, fun r' => nextMember_brace ?_⟩
      rw [List.append_assoc, List.singleton_append, hgap, hb]
    · split at h
      · rename_i hcomma
        split at h
        · cases h
        · rename_i c v hu
          obtain ⟨gap', -, rfl, hgap'⟩ := skipSpace_eq_cons hu
          split at h
          · rename_i hc
            cases h
            refine ⟨gap ++ b :: (gap' ++ [c]), by simp, fun r' => ?_⟩
            have hbegin : skipSpace (gap ++ b :: (gap' ++ [c]) ++ r') = comma :: (gap' ++ c :: r') := by
              rw [List.append_assoc, List.cons_append, hgap, hcomma, List.append_assoc, List.singleton_append]
            exact nextMember_comma hbegin (by rw [hgap', hc])
          · cases h
      · cases h

end Punctuation

section Containers

variable {item : Reader α} {m : Member σ}

/-- What is read behind `p` stands between it and the rest: `p` looks at its first byte at most. -/
theorem Framed.followed {q : Reader β} {u : Bytes} {c : β} (h : Framed BeginAlike p) (hp : Takes p r a u)
    (hq : Takes q u c t) (hback : ∃ back, u = back ++ t ∧ ∀ t', Anyhow t t' → Takes q (back ++ t') c t') :
    ∃ front, r = front ++ t ∧
      ∀ t', BeginAlike r (front ++ t') ∧ ∃ u', Takes p (front ++ t') a u' ∧ Takes q u' c t' := by
  obtain ⟨body, rfl, hbody⟩ := h hp
  obtain ⟨back, rfl, hback⟩ := hback
  have hbackne := hq.front_ne_nil
  have hbodyne := hp.front_ne_nil
  refine ⟨body ++ back, by rw [List.append_assoc], fun t' => ?_⟩
  rw [List.append_assoc]
  exact ⟨beginAlike_append hbodyne _ _, _, hbody _ (beginAlike_append hbackne _ _), hback t' trivial⟩

/-- The bracket or the comma behind an item is the one byte that the reader of the item may look at. -/
theorem moreItems_framed (h : Framed BeginAlike item) (i : Nat) : Framed Anyhow (moreItems item i) := by
  rintro s as t ⟨hlt, hread⟩
  fun_induction moreItems item i s generalizing as t with
  | case1 => cases hread
  | case2 i s r hnext =>
    cases hread
    obtain ⟨front, rfl, hfront⟩ := nextItem_off hnext
    exact ⟨front, rfl, fun t' _ => moreItems_end (hfront t' fun hmore => absurd hmore Bool.false_ne_true)⟩
  | case3 i s r hnext ih =>
    obtain ⟨⟨x, u, hu⟩, hitem, hread⟩ := Except.bind_eq_ok_iff.mp hread
    obtain ⟨⟨xs, v, hv⟩, hmore, hread⟩ := Except.bind_eq_ok_iff.mp hread
    cases hread
    have hitem : Takes item r x u := ⟨hu, Except.mapError_eq_ok_iff.mp hitem⟩
    obtain ⟨front, rfl, hfront⟩ := nextItem_off hnext
    obtain ⟨behind, rfl, hbehind⟩ := h.followed hitem ⟨hv, hmore⟩ (ih u hu hv hmore)
    refine ⟨front ++ behind, by rw [List.append_assoc], fun t' _ => ?_⟩
    obtain ⟨halike, u', hitem', hmore'⟩ := hbehind t'
    rw [List.append_assoc]
    exact moreItems_next (hfront _ fun _ => halike) hitem' hmore'

theorem items_framed (h : Framed BeginAlike item) : Framed Anyhow (items item) := by
  rintro s as t ⟨hlt, hread⟩
  unfold items at hread
  split at hread
  · cases hread
  · rename_i r hfirst
    cases hread
    obtain ⟨front, rfl, hfront⟩ := firstItem_off hfirst
    exact ⟨front, rfl, fun t' _ => items_end (hfront t' fun hmore => absurd hmore Bool.false_ne_true)⟩
  · rename_i r hfirst
    obtain ⟨⟨x, u, hu⟩, hitem, hread⟩ := Except.bind_eq_ok_iff.mp hread
    obtain ⟨⟨xs, v, hv⟩, hmore, hread⟩ := Except.bind_eq_ok_iff.mp hread
    cases hread
    have hitem : Takes item r x u := ⟨hu, Except.mapError_eq_ok_iff.mp hitem⟩
    have hmore : Takes (moreItems item 1) u xs t := ⟨hv, hmore⟩
    obtain ⟨front, rfl, hfront⟩ := firstItem_off hfirst
    obtain ⟨behind, rfl, hbehind⟩ := h.followed hitem hmore (moreItems_framed h 1 hmore)
    refine ⟨front ++ behind, by rw [List.append_assoc], fun t' _ => ?_⟩
    obtain ⟨halike, u', hitem', hmore'⟩ := hbehind t'
    rw [List.append_assoc]
    exact items_first (hfront _ fun _ => halike) hitem' hmore'

theorem takes_valueOf {key : String} (h : Takes (valueOf key p) s a t) :
    ∃ r, skipSpace s = colon :: r ∧ Takes p r a t := by
  have hspaced := takes_spaced_iff.mp h
  generalize skipSpace s = u at hspaced
  obtain ⟨hlt, hread⟩ := hspaced
  cases u with
  | nil => cases hread
  | cons b r =>
    dsimp only at hread
    split at hread
    · rename_i hb
      obtain ⟨⟨x, u, hu⟩, hvalue, hread⟩ := Except.map_eq_ok_iff.mp hread
      cases hread
      exact ⟨r, by rw [hb], hu, Except.mapError_eq_ok_iff.mp hvalue⟩
    · cases hread

theorem valueOf_framed {key : String} (h : Framed K p) : Framed K (valueOf key p) := by
  intro s a t hread
  obtain ⟨r, hs, hvalue⟩ := takes_valueOf hread
  obtain ⟨gap, -, rfl, hgap⟩ := skipSpace_eq_cons hs
  obtain ⟨front, rfl, htake⟩ := h hvalue
  refine ⟨gap ++ colon :: front, by simp, fun t' ht' => valueOf_takes (r := front ++ t') ?_ (htake t' ht')⟩
  rw [List.append_assoc, List.cons_append, hgap]

theorem binding_framed (h : Framed K p) (es : Entries α) (key : String) : Framed K (binding p es key) := by
  rintro s es' t ⟨hlt, hread⟩
  obtain ⟨⟨x, u, hu⟩, hvalue, hread⟩ := Except.map_eq_ok_iff.mp hread
  cases hread
  obtain ⟨front, rfl, htake⟩ := valueOf_framed h ⟨hu, hvalue⟩
  exact ⟨front, rfl, fun t' ht' => binding_takes (htake t' ht')⟩

variable (h : ∀ acc key, Framed BeginAlike (m acc key))
include h

theorem member_framed (acc : σ) : Framed BeginAlike (member m acc) := by
  rintro s acc' t ⟨hlt, hread⟩
  obtain ⟨⟨key, r, hr⟩, hkey, hread⟩ := Except.bind_eq_ok_iff.mp hread
  obtain ⟨⟨x, u, hu⟩, hvalue, hread⟩ := Except.map_eq_ok_iff.mp hread
  cases hread
  obtain ⟨front, rfl, hfront⟩ := string_framed ⟨hr, Except.mapError_eq_ok_iff.mp hkey⟩
  obtain ⟨back, rfl, hback⟩ := h acc key ⟨hu, hvalue⟩
  refine ⟨front ++ back, by rw [List.append_assoc], fun t' ht' => ?_⟩
  rw [List.append_assoc]
  exact member_takes (hfront _ trivial) (hback t' ht')

theorem moreMembers_framed (acc : σ) : Framed Anyhow (moreMembers m acc) := by
  rintro s acc' t ⟨hlt, hread⟩
  fun_induction moreMembers m acc s generalizing acc' t with
  | case1 => cases hread
  | case2 acc s r hnext =>
    cases hread
    obtain ⟨front, rfl, hfront⟩ := nextMember_off hnext
    exact ⟨front, rfl, fun t' _ => moreMembers_end (hfront t')⟩
  | case3 acc s r hnext ih =>
    obtain ⟨⟨x, u, hu⟩, hmember, hread⟩ := Except.bind_eq_ok_iff.mp hread
    obtain ⟨⟨xs, v, hv⟩, hmore, hread⟩ := Except.bind_eq_ok_iff.mp hread
    cases hread
    obtain ⟨front, rfl, hfront⟩ := nextMember_off hnext
    obtain ⟨behind, rfl, hbehind⟩ :=
      (member_framed h acc).followed ⟨hu, hmember⟩ ⟨hv, hmore⟩ (ih x u hu hv hmore)
    refine ⟨front ++ behind, by rw [List.append_assoc], fun t' _ => ?_⟩
    obtain ⟨-, u', hmember', hmore'⟩ := hbehind t'
    rw [List.append_assoc]
    exact moreMembers_next (hfront _) hmember' hmore'

theorem members_framed (acc : σ) : Framed Anyhow (members m acc) := by
  rintro s acc' t ⟨hlt, hread⟩
  unfold members at hread
  split at hread
  · cases hread
  · rename_i r hfirst
    cases hread
    obtain ⟨front, rfl, hfront⟩ := firstMember_off hfirst
    exact ⟨front, rfl, fun t' _ => members_end (hfront t')⟩
  · rename_i r hfirst
    obtain ⟨⟨x, u, hu⟩, hmember, hread⟩ := Except.bind_eq_ok_iff.mp hread
    obtain ⟨⟨xs, v, hv⟩, hmore, hread⟩ := Except.bind_eq_ok_iff.mp hread
    cases hread
    have hmore : Takes (moreMembers m x) u acc' t := ⟨hv, hmore⟩
    obtain ⟨front, rfl, hfront⟩ := firstMember_off hfirst
    obtain ⟨behind, rfl, hbehind⟩ :=
      (member_framed h acc).followed ⟨hu, hmember⟩ hmore (moreMembers_framed h x hmore)
    refine ⟨front ++ behind, by rw [List.append_assoc], fun t' _ => ?_⟩
    obtain ⟨-, u', hmember', hmore'⟩ := hbehind t'
    rw [List.append_assoc]
    exact members_first (hfront _) hmember' hmore'

end Containers

section Documents

variable {v : Json} {inner : Option (Reader Json)} {front : Bytes}

/-- The text behind a document does not go on with it: only a number can go on. -/
def Detached (v : Json) (front rest : Bytes) : Prop := (∃ n, v = .number n) → EndsNumeral front rest

theorem Detached.of_ne_number (hv : ∀ n, v ≠ .number n) : Detached v front t := fun ⟨n, hn⟩ =>
  absurd hn (hv n)

theorem EndsNumeral.of_beginAlike (h : EndsNumeral front t) (ht : BeginAlike t t') :
    EndsNumeral front t' := by
  obtain ⟨hfloat, hpoint⟩ := h
  unfold EndsFloat at hfloat
  rw [ht] at hfloat hpoint
  exact ⟨hfloat, hpoint⟩

theorem neutral_of_isSpace (hb : isSpace b = true) : Neutral b := by
  constructor
  · rintro rfl
    cases hb
  · refine Bool.eq_false_iff.mpr fun hm => ?_
    simp only [isExponentMark, Bool.or_eq_true, beq_iff_eq] at hm
    obtain rfl | rfl := hm
    · cases hb
    · cases hb

theorem word_off {w : Bytes} {u : { r : Bytes // r.length ≤ s.length }} (h : word w s = .ok u) :
    s = w ++ u.1 := by
  fun_induction word w s with
  | case1 => cases h; rfl
  | case2 => cases h
  | case3 w c r ih =>
    obtain ⟨u', hu, rfl⟩ := Except.map_eq_ok_iff.mp h
    exact congrArg (c :: ·) (ih hu)
  | case4 => cases h

theorem constant_off {w : Json} {letters : String} {x : Read Json (b :: r)}
    (h : constant w letters b r = .ok x) : x.value = w ∧ r = Utf8.encode letters ++ x.rest := by
  obtain ⟨u, hu, rfl⟩ := Except.map_eq_ok_iff.mp h
  exact ⟨rfl, word_off hu⟩

/-- What a document that begins with the byte `b` is made of, `r` being behind it and `rest` left. -/
inductive Made (inner : Option (Reader Json)) (rest : Bytes) : UInt8 → Bytes → Json → Prop
  | null : Made inner rest letterN (Utf8.encode "ull" ++ rest) .null
  | true : Made inner rest letterT (Utf8.encode "rue" ++ rest) (.bool true)
  | false : Made inner rest letterF (Utf8.encode "alse" ++ rest) (.bool false)
  | negative {r : Bytes} {n : Number} (h : Takes (numeral Bool.true) r n rest) :
    Made inner rest minus r (.number n)
  | numeral {b : UInt8} {r : Bytes} {n : Number} (hb : isDigit b = Bool.true)
    (h : Takes (numeral Bool.false) (b :: r) n rest) : Made inner rest b r (.number n)
  | string {r : Bytes} {text : String} (h : Takes string r text rest) : Made inner rest quote r (.string text)
  | array {r : Bytes} {vs : List Json} {p : Reader Json} (hp : p ∈ inner) (h : Takes (items p) r vs rest) :
    Made inner rest openBracket r (.array vs)
  | object {r : Bytes} {ms : List (String × Json)} {p : Reader Json} (hp : p ∈ inner)
    (h : Takes (members (binding p) []) r ms rest) : Made inner rest openBrace r (.object ms)

theorem made_of_takes (h : Takes (document inner) s v t) :
    ∃ b r, skipSpace s = b :: r ∧ Made inner t b r v := by
  have hspaced := takes_spaced_iff.mp h
  generalize skipSpace s = u at hspaced
  obtain ⟨hlt, hread⟩ := hspaced
  cases u with
  | nil => cases hread
  | cons b r =>
    refine ⟨b, r, rfl, ?_⟩
    dsimp only at hread
    split_ifs at hread with hn ht hf hm hd hq hb hB
    · obtain ⟨hv, hr⟩ := constant_off hread
      obtain rfl : v = .null := hv
      exact hn ▸ hr ▸ .null
    · obtain ⟨hv, hr⟩ := constant_off hread
      obtain rfl : v = .bool true := hv
      exact ht ▸ hr ▸ .true
    · obtain ⟨hv, hr⟩ := constant_off hread
      obtain rfl : v = .bool false := hv
      exact hf ▸ hr ▸ .false
    · obtain ⟨⟨x, u, hu⟩, hnumeral, hread⟩ := Except.map_eq_ok_iff.mp hread
      cases hread
      exact hm ▸ .negative ⟨hu, hnumeral⟩
    · obtain ⟨⟨x, u, hu⟩, hnumeral, hread⟩ := Except.map_eq_ok_iff.mp hread
      cases hread
      exact .numeral hd ⟨hu, hnumeral⟩
    · obtain ⟨⟨x, u, hu⟩, hstring, hread⟩ := Except.map_eq_ok_iff.mp hread
      cases hread
      exact hq ▸ .string ⟨hu, hstring⟩
    · cases inner with
      | none => cases hread
      | some p =>
        obtain ⟨⟨x, u, hu⟩, harray, hread⟩ := Except.map_eq_ok_iff.mp hread
        obtain ⟨⟨xs, w, hw⟩, hitems, harray⟩ := Except.map_eq_ok_iff.mp harray
        cases harray
        cases hread
        exact hb ▸ .array rfl ⟨hw, hitems⟩
    · cases inner with
      | none => cases hread
      | some p =>
        obtain ⟨⟨x, u, hu⟩, hobject, hread⟩ := Except.map_eq_ok_iff.mp hread
        obtain ⟨⟨ms, w, hw⟩, hmembers, hobject⟩ := Except.map_eq_ok_iff.mp hobject
        cases hobject
        cases hread
        exact hB ▸ .object rfl ⟨hw, hmembers⟩
    · cases hread

theorem takes_of_made {b : UInt8} (hs : skipSpace s = b :: r) (h : Made inner t b r v) :
    Takes (document inner) s v t := by
  cases h with
  | null => exact document_null hs
  | true => exact document_true hs
  | false => exact document_false hs
  | negative h => exact document_negative hs h
  | numeral hb h => exact document_numeral hb hs h
  | string h => exact document_string hs h
  | array hp h =>
    obtain rfl := hp
    exact document_array hs h
  | object hp h =>
    obtain rfl := hp
    exact document_object hs h

theorem Made.off (h : ∀ p ∈ inner, Framed BeginAlike p) (hmade : Made inner t b r v) :
    ∃ back, r = back ++ t ∧ Detached v (b :: back) t ∧
      ∀ t', Detached v (b :: back) t' → Made inner t' b (back ++ t') v := by
  cases hmade with
  | null => exact ⟨_, rfl, .of_ne_number (fun _ hv => nomatch hv), fun _ _ => .null⟩
  | true => exact ⟨_, rfl, .of_ne_number (fun _ hv => nomatch hv), fun _ _ => .true⟩
  | false => exact ⟨_, rfl, .of_ne_number (fun _ hv => nomatch hv), fun _ _ => .false⟩
  | negative hread =>
    obtain ⟨back, rfl, ht, htake⟩ := numeral_off hread
    have hminus : ∀ c ∈ [minus], Neutral c := List.forall_mem_singleton.mpr ⟨by decide, by decide⟩
    refine ⟨back, rfl, fun _ => ht.append [minus], fun t' ht' => .negative (htake t' ?_)⟩
    exact (ht' ⟨_, rfl⟩).of_append hminus
  | numeral hb hread =>
    obtain ⟨front, hr, ht, htake⟩ := numeral_off hread
    cases front with
    | nil =>
      have hread : Takes (Scan.numeral Bool.false) ([] ++ t) _ t := hr ▸ hread
      exact absurd rfl hread.front_ne_nil
    | cons c back =>
      obtain ⟨rfl, rfl⟩ := List.cons.inj hr
      exact ⟨back, rfl, fun _ => ht, fun t' ht' => .numeral hb (htake t' (ht' ⟨_, rfl⟩))⟩
  | string hread =>
    obtain ⟨back, rfl, htake⟩ := string_framed hread
    exact ⟨back, rfl, .of_ne_number (fun _ hv => nomatch hv), fun t' _ => .string (htake t' trivial)⟩
  | array hp hread =>
    obtain ⟨back, rfl, htake⟩ := items_framed (h _ hp) hread
    exact ⟨back, rfl, .of_ne_number (fun _ hv => nomatch hv), fun t' _ => .array hp (htake t' trivial)⟩
  | object hp hread =>
    obtain ⟨back, rfl, htake⟩ := members_framed (binding_framed (h _ hp)) [] hread
    exact ⟨back, rfl, .of_ne_number (fun _ hv => nomatch hv), fun t' _ => .object hp (htake t' trivial)⟩

/-- A document is taken off the front of a text whatever stands behind it, as long as this does not go on
with a number. -/
def Delimited (p : Reader Json) : Prop :=
  ∀ ⦃s v t⦄, Takes p s v t → ∃ front, s = front ++ t ∧ Detached v front t ∧
    ∀ t', Detached v front t' → Takes p (front ++ t') v t'

theorem Delimited.framed {p : Reader Json} (h : Delimited p) : Framed BeginAlike p := by
  intro s v t hread
  obtain ⟨front, rfl, ht, htake⟩ := h hread
  exact ⟨front, rfl, fun t' halike => htake t' fun hv => (ht hv).of_beginAlike halike⟩

theorem document_delimited (h : ∀ p ∈ inner, Delimited p) : Delimited (document inner) := by
  intro s v t hread
  obtain ⟨b, r, hs, hmade⟩ := made_of_takes hread
  obtain ⟨gap, hgap, rfl, hskip⟩ := skipSpace_eq_cons hs
  obtain ⟨back, rfl, ht, htake⟩ := hmade.off fun p hp => (h p hp).framed
  refine ⟨gap ++ b :: back, by simp, fun hv => (ht hv).append gap, fun t' ht' => ?_⟩
  have hback : Detached v (b :: back) t' := fun hv =>
    (ht' hv).of_append fun c hc => neutral_of_isSpace (hgap c hc)
  refine takes_of_made ?_ (htake t' hback)
  rw [List.append_assoc, List.cons_append, hskip]

theorem value_delimited (n : Nat) : Delimited (value n) := by
  induction n with
  | zero => exact document_delimited nofun
  | succ n ih => exact document_delimited fun p hp => Option.some.inj hp ▸ ih

end Documents

end Stencil.Scan
