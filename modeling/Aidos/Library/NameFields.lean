import Mathlib.Data.List.DropRight
import Mathlib.Data.List.TakeWhile
import Mathlib.Data.Nat.Notation
import Mathlib.Tactic.Common

/-!
# Names in padded fields

A name may have an extension: what stands behind its first separator. A directory keeps the two
parts in fields of fixed width, cut to size or filled up with blanks, and after a folding of the
letters (`encode`). Reading the fields back, without the blanks behind each part, gives a name again
(`display`).

The two are not inverse to each other. `fold_display_encode_iff` says which names survive the fields
up to the folding, and `encode_eq_iff` which fields are those of the names they are displayed as.
-/

namespace Aidos.NameFields

variable {α : Type*} [DecidableEq α]

/-! ### Padded fields -/

/-- A text in a field of `w` places: cut to size, or filled up with blanks. -/
def pad (blank : α) (w : ℕ) (l : List α) : List α := (l.take w).rightpad w blank

/-- A text without the blanks behind it. -/
def trim (blank : α) (l : List α) : List α := l.rdropWhile (· == blank)

/-- A text that a field of `w` places gives back as it is. -/
def Fits (blank : α) (w : ℕ) (l : List α) : Prop := l.length ≤ w ∧ trim blank l = l

instance (blank : α) (w : ℕ) (l : List α) : Decidable (Fits blank w l) :=
  inferInstanceAs (Decidable (_ ∧ _))

variable {sep blank : α} {w : ℕ} {l : List α}

theorem trim_prefixes : trim blank l <+: l := List.rdropWhile_prefix _ _

theorem trim_append_replicate (n : ℕ) :
    trim blank (l ++ List.replicate n blank) = trim blank l := by
  induction n with
  | zero => rw [List.replicate_zero, List.append_nil]
  | succ n ih =>
    have hblank : (blank == blank) = true := beq_self_eq_true blank
    rw [List.replicate_succ', ← List.append_assoc, trim,
      List.rdropWhile_concat_pos (· == blank) _ _ hblank]
    exact ih

theorem trim_pad : trim blank (pad blank w l) = trim blank (l.take w) := by
  rw [pad, List.rightpad]
  exact trim_append_replicate _

/-- A full field is its text with the blanks put back. -/
theorem pad_trim (h : l.length = w) : pad blank w (trim blank l) = l := by
  have hsplit : trim blank l ++ l.rtakeWhile (· == blank) = l := List.rdropWhile_append_rtakeWhile
  have hblank : l.rtakeWhile (· == blank) =
      List.replicate (l.rtakeWhile (· == blank)).length blank :=
    List.eq_replicate_of_mem fun c hc ↦
      beq_iff_eq.1 (List.mem_rtakeWhile_imp (p := (· == blank)) hc)
  have hlength := congrArg List.length hsplit
  rw [List.length_append] at hlength
  have hcount : w - (trim blank l).length = (l.rtakeWhile (· == blank)).length := by omega
  rw [pad, List.take_of_length_le (by omega), List.rightpad, hcount, ← hblank, hsplit]

theorem trim_take_eq_iff : trim blank (l.take w) = l ↔ Fits blank w l := by
  constructor
  · intro h
    have hle : l.length ≤ w := by
      have hprefix : (trim blank (l.take w)).length ≤ (l.take w).length := trim_prefixes.length_le
      rw [h, List.length_take] at hprefix
      omega
    rw [List.take_of_length_le hle] at h
    exact ⟨hle, h⟩
  · rintro ⟨hle, h⟩
    rw [List.take_of_length_le hle, h]

/-! ### A name and its extension -/

/-- What stands before the first separator. -/
def stem (sep : α) (l : List α) : List α := l.takeWhile (· != sep)

/-- What stands behind it. -/
def extension (sep : α) (l : List α) : List α := (l.dropWhile (· != sep)).tail

/-- Two parts as one name. An empty extension is left out with its separator. -/
def join (sep : α) (a b : List α) : List α := if b = [] then a else a ++ sep :: b

theorem sep_notMem_stem : sep ∉ stem sep l := by
  intro h
  simpa using List.mem_takeWhile_imp h

theorem stem_eq_self (h : sep ∉ l) : stem sep l = l := by
  rw [stem, List.takeWhile_eq_self_iff]
  intro c hc
  simp only [bne_iff_ne]
  exact fun heq ↦ h (heq ▸ hc)

theorem dropWhile_eq_nil (h : sep ∉ l) : l.dropWhile (· != sep) = [] := by
  rw [List.dropWhile_eq_nil_iff]
  intro c hc
  simp only [bne_iff_ne]
  exact fun heq ↦ h (heq ▸ hc)

theorem extension_eq_nil (h : sep ∉ l) : extension sep l = [] := by
  rw [extension, dropWhile_eq_nil h, List.tail_nil]

theorem stem_append {a b : List α} (h : sep ∉ a) : stem sep (a ++ sep :: b) = a := by
  have ha := stem_eq_self h
  rw [stem] at ha ⊢
  rw [List.takeWhile_append, ha, if_pos rfl, List.takeWhile_cons_of_neg (by simp), List.append_nil]

theorem extension_append {a b : List α} (h : sep ∉ a) : extension sep (a ++ sep :: b) = b := by
  rw [extension, List.dropWhile_append, dropWhile_eq_nil h, List.isEmpty_nil, if_pos rfl,
    List.dropWhile_cons_of_neg (by simp), List.tail_cons]

/-- A name with a separator is its two parts around it. -/
theorem stem_append_extension (h : sep ∈ l) : stem sep l ++ sep :: extension sep l = l := by
  obtain ⟨a, b, rfl, ha⟩ := List.eq_append_cons_of_mem h
  rw [stem_append ha, extension_append ha]

/-- The names that two parts make up. -/
theorem join_eq_iff {a b : List α} (ha : sep ∉ a) :
    join sep a b = l ↔ stem sep l = a ∧ extension sep l = b ∧ (sep ∈ l → b ≠ []) := by
  constructor
  · rintro rfl
    rw [join]
    split
    · next hb => exact ⟨stem_eq_self ha, hb ▸ extension_eq_nil ha, fun hmem ↦ absurd hmem ha⟩
    · next hb => exact ⟨stem_append ha, extension_append ha, fun _ ↦ hb⟩
  · rintro ⟨rfl, rfl, hsep⟩
    rw [join]
    split
    · next hb =>
      have hnot : sep ∉ l := fun hmem ↦ hsep hmem hb
      exact stem_eq_self hnot
    · next hb =>
      have hmem : sep ∈ l := by
        by_contra hnot
        exact hb (extension_eq_nil hnot)
      exact stem_append_extension hmem

/-! ### Folding the letters -/

/-- A folding of letters leaves separators and blanks alone, and nothing else becomes one. -/
structure Folding (f : α → α) (sep blank : α) : Prop where
  /-- Folding twice is folding once. -/
  idem : ∀ c, f (f c) = f c
  /-- The separator is folded to itself, and only it. -/
  sep_iff : ∀ c, f c = sep ↔ c = sep
  /-- The blank is folded to itself, and only it. -/
  blank_iff : ∀ c, f c = blank ↔ c = blank
  /-- The two differ. -/
  ne : blank ≠ sep

section Fold

variable {f : α → α} {w₁ w₂ : ℕ}

theorem map_stem (hf : Folding f sep blank) : (stem sep l).map f = stem sep (l.map f) := by
  have hcomp : (fun c ↦ c != sep) ∘ f = fun c ↦ c != sep := by
    funext c
    exact Bool.eq_iff_iff.2 (by simp [hf.sep_iff])
  rw [stem, stem, List.takeWhile_map, hcomp]

theorem map_extension (hf : Folding f sep blank) :
    (extension sep l).map f = extension sep (l.map f) := by
  have hcomp : (fun c ↦ c != sep) ∘ f = fun c ↦ c != sep := by
    funext c
    exact Bool.eq_iff_iff.2 (by simp [hf.sep_iff])
  rw [extension, extension, List.dropWhile_map, hcomp, List.map_tail]

theorem map_trim (hf : Folding f sep blank) : (trim blank l).map f = trim blank (l.map f) := by
  have hcomp : (fun c ↦ c == blank) ∘ f = fun c ↦ c == blank := by
    funext c
    exact Bool.eq_iff_iff.2 (by simp [hf.blank_iff])
  rw [trim, trim, List.rdropWhile, List.rdropWhile, ← List.map_reverse, List.dropWhile_map, hcomp,
    List.map_reverse]

omit [DecidableEq α] in
theorem map_join (hf : Folding f sep blank) {a b : List α} :
    (join sep a b).map f = join sep (a.map f) (b.map f) := by
  simp only [join, List.map_eq_nil_iff]
  split
  · rfl
  · rw [List.map_append, List.map_cons, (hf.sep_iff sep).2 rfl]

omit [DecidableEq α] in
theorem map_pad (hf : Folding f sep blank) : (pad blank w l).map f = pad blank w (l.map f) := by
  rw [pad, pad, List.rightpad, List.rightpad, List.map_append, List.map_replicate,
    (hf.blank_iff blank).2 rfl, List.map_take, ← List.map_take, List.length_map]

omit [DecidableEq α] in
theorem sep_mem_map (hf : Folding f sep blank) : sep ∈ l.map f ↔ sep ∈ l := by
  rw [List.mem_map]
  constructor
  · rintro ⟨c, hc, hsep⟩
    exact (hf.sep_iff c).1 hsep ▸ hc
  · exact fun h ↦ ⟨sep, h, (hf.sep_iff sep).2 rfl⟩

omit [DecidableEq α] in
theorem map_map_self (hf : Folding f sep blank) : (l.map f).map f = l.map f := by
  rw [List.map_map]
  exact List.map_congr_left fun c _ ↦ hf.idem c

/-- The two fields of a name. -/
def encode (f : α → α) (sep blank : α) (w₁ w₂ : ℕ) (l : List α) : List α × List α :=
  (pad blank w₁ ((stem sep l).map f), pad blank w₂ ((extension sep l).map f))

/-- The name in two fields. -/
def display (sep blank : α) (fields : List α × List α) : List α :=
  join sep (trim blank fields.1) (trim blank fields.2)

/-- A name that two fields give back: each part fits its field, and no separator is the last letter.
-/
def Plain (sep blank : α) (w₁ w₂ : ℕ) (l : List α) : Prop :=
  Fits blank w₁ (stem sep l) ∧ Fits blank w₂ (extension sep l) ∧ (sep ∈ l → extension sep l ≠ [])

/-- Fields that hold folded letters and no separator before the extension. -/
def Regular (f : α → α) (sep : α) (fields : List α × List α) : Prop :=
  fields.1.map f = fields.1 ∧ fields.2.map f = fields.2 ∧ sep ∉ fields.1

instance : Decidable (Plain sep blank w₁ w₂ l) := inferInstanceAs (Decidable (_ ∧ _ ∧ _))

instance {fields : List α × List α} : Decidable (Regular f sep fields) :=
  inferInstanceAs (Decidable (_ ∧ _ ∧ _))

/-- What one field gives back of a text. -/
theorem trim_pad_map (hf : Folding f sep blank) :
    trim blank (pad blank w (l.map f)) = (trim blank (l.take w)).map f := by
  rw [trim_pad, ← List.map_take, map_trim hf]

theorem trim_pad_map_eq_iff (hf : Folding f sep blank) :
    trim blank (pad blank w (l.map f)) = l.map f ↔ Fits blank w l := by
  rw [trim_pad_map hf, ← trim_take_eq_iff]
  constructor
  · intro h
    have hprefix : trim blank (l.take w) <+: l := trim_prefixes.trans (List.take_prefix _ _)
    refine hprefix.eq_of_length ?_
    rw [← List.length_map f, h, List.length_map]
  · exact fun h ↦ congrArg (List.map f) h

theorem sep_notMem_pad (hf : Folding f sep blank) :
    sep ∉ pad blank w ((stem sep l).map f) := by
  rw [pad, List.rightpad, List.mem_append, not_or]
  refine ⟨fun h ↦ ?_, fun h ↦ hf.ne (List.eq_of_mem_replicate h).symm⟩
  exact sep_notMem_stem ((sep_mem_map hf).1 (List.mem_of_mem_take h))

/-- **The names that survive** being put into the fields, up to the folding: the plain ones. -/
theorem fold_display_encode_iff (hf : Folding f sep blank) :
    (display sep blank (encode f sep blank w₁ w₂ l)).map f = l.map f ↔ Plain sep blank w₁ w₂ l := by
  have hsep : sep ∉ trim blank (pad blank w₁ ((stem sep l).map f)) :=
    fun h ↦ sep_notMem_pad hf (trim_prefixes.subset h)
  have hfold : (display sep blank (encode f sep blank w₁ w₂ l)).map f =
      display sep blank (encode f sep blank w₁ w₂ l) := by
    rw [display, encode, map_join hf, map_trim hf, map_trim hf, map_pad hf, map_pad hf,
      map_map_self hf, map_map_self hf]
  rw [hfold, display, encode, join_eq_iff hsep, ← map_stem hf, ← map_extension hf, eq_comm,
    trim_pad_map_eq_iff hf, eq_comm (a := (extension sep l).map f), trim_pad_map_eq_iff hf,
    sep_mem_map hf]
  refine and_congr_right fun _ ↦ and_congr_right fun hext ↦ ?_
  rw [(trim_pad_map_eq_iff hf).2 hext, ne_eq, List.map_eq_nil_iff]

/-- **The fields of a name** that they are displayed as, up to the folding: the regular ones. -/
theorem encode_eq_iff (hf : Folding f sep blank) {fields : List α × List α}
    (h₁ : fields.1.length = w₁) (h₂ : fields.2.length = w₂)
    (h : (display sep blank fields).map f = l.map f) :
    encode f sep blank w₁ w₂ l = fields ↔ Regular f sep fields := by
  constructor
  · rintro rfl
    refine ⟨?_, ?_, sep_notMem_pad hf⟩
    · rw [encode, map_pad hf, map_map_self hf]
    · rw [encode, map_pad hf, map_map_self hf]
  · rintro ⟨hfold₁, hfold₂, hsep⟩
    have hsep' : sep ∉ trim blank fields.1 := fun hmem ↦ hsep (trim_prefixes.subset hmem)
    rw [display, map_join hf, map_trim hf, map_trim hf, hfold₁, hfold₂, join_eq_iff hsep'] at h
    rw [encode, map_stem hf, map_extension hf, h.1, h.2.1, pad_trim h₁, pad_trim h₂]

end Fold

end Aidos.NameFields
