import Mathlib.Logic.Function.Basic
import Aidos.Fat12.ShortNames

/-!
# The buffers of a path component

`open` copies a component to `name`, and `FindFile` encodes it into `fatName`, byte by byte. Here
the encoder is followed through its loops, with the array elements it looks at and writes: what it
leaves is the 8.3 form `fatName` (`encodeName_eq_fatName`), and a name that fits `name` is encoded
inside both arrays (`encodeName_defined`).
-/

namespace Aidos.Fat12

/-- What `open` touches: an element of one of its arrays, or the file behind a pointer. -/
inductive Access where
  /-- `name[i]`. -/
  | name (i : ℕ)
  /-- `fatName[i]`. -/
  | fatName (i : ℕ)
  /-- `_data.OpenedFiles[i]`. -/
  | openedFiles (i : ℕ)
  /-- A member of the file behind a pointer. -/
  | file (ref : Option FileRef)

/-- The element is one of the array, and the pointer is not null. -/
def Access.Defined : Access → Prop
  | .name i => i < maxPathSize
  | .fatName i => i < 12
  | .openedFiles i => i < maxFileHandles
  | .file ref => ref ≠ none

/-! ### The loops of the encoder -/

/-- `for (...; i < n && name[source] && within; ...) fatName[target] = toupper(name[source])`, the
source and the target moving on together. Behind the last character of the name is the terminator.
-/
def foldLoop (name : List UInt8) (within : ℕ → Bool) :
    ℕ → ℕ → ℕ → (ℕ → UInt8) → List Access × (ℕ → UInt8)
  | 0, _, _, out => ([], out)
  | n + 1, source, target, out =>
    if name.getD source 0 ≠ 0 ∧ within source = true then
      let (accesses, out) := foldLoop name within n (source + 1) (target + 1)
        (Function.update out target (toupper (name.getD source 0)))
      (.name source :: .fatName target :: accesses, out)
    else ([.name source], out)

/-- The head of `FindFile`: the elements it touches, and `fatName` afterwards. -/
def encodeName (name : List UInt8) : List Access × (ℕ → UInt8) :=
  -- memset, and the terminator
  let blank : ℕ → UInt8 := fun j ↦ if j < 11 then 32 else 0
  let cleared := (List.range 12).map Access.fatName
  -- strchr
  let dot := strchr name 46
  let looked := (List.range (dot.getD name.length + 1)).map Access.name
  let ext := dot.getD 11
  let base := foldLoop name (· < ext) 8 0 0 blank
  let extension :=
    if ext ≠ 11 then foldLoop name (fun _ ↦ true) 3 (ext + 1) 8 base.2 else ([], base.2)
  (cleared ++ looked ++ base.1 ++ extension.1, extension.2)

variable {name : List UInt8} {within : ℕ → Bool} {stop : ℕ}

/-- What a loop leaves, if it goes on up to an index of the name. -/
theorem foldLoop_eq (hstop : ∀ i, name.getD i 0 ≠ 0 ∧ within i = true ↔ i < stop) (n : ℕ) :
    ∀ {source target : ℕ} {out : ℕ → UInt8} (j : ℕ),
      (foldLoop name within n source target out).2 j =
        if target ≤ j ∧ j < target + n ∧ source + (j - target) < stop then
          toupper (name.getD (source + (j - target)) 0)
        else out j := by
  induction n with
  | zero =>
    intro source target out j
    rw [foldLoop, if_neg (by omega)]
  | succ n ih =>
    intro source target out j
    rw [foldLoop]
    split
    · next hgo =>
      have hsource := (hstop source).1 hgo
      dsimp only
      rw [ih]
      rcases Nat.lt_trichotomy j target with hlt | rfl | hgt
      · rw [if_neg (by omega), if_neg (by omega), Function.update_of_ne (Nat.ne_of_lt hlt)]
      · rw [if_neg (by omega), if_pos (by omega), Function.update_self, Nat.sub_self, Nat.add_zero]
      · have hindex : source + 1 + (j - (target + 1)) = source + (j - target) := by omega
        rw [hindex, Function.update_of_ne (Nat.ne_of_gt hgt)]
        exact if_congr (by omega) rfl rfl
    · next hend =>
      have hsource := (hstop source).not.1 hend
      rw [if_neg (by omega)]

/-- A loop that starts inside the name, or at its terminator, stays there, and writes no more than
its bound says. -/
theorem foldLoop_accesses (n : ℕ) :
    ∀ {source target : ℕ} {out : ℕ → UInt8}, source ≤ name.length →
      ∀ a ∈ (foldLoop name within n source target out).1,
        (∃ i ≤ name.length, a = .name i) ∨ ∃ i < target + n, a = .fatName i := by
  induction n with
  | zero =>
    intro source target out _ a ha
    exact absurd ha List.not_mem_nil
  | succ n ih =>
    intro source target out hsource a ha
    rw [foldLoop] at ha
    split at ha
    · next hgo =>
      -- there is a character, so the terminator is further on
      have hlt : source < name.length := by
        by_contra hend
        exact hgo.1 (List.getD_eq_default _ _ (Nat.le_of_not_lt hend))
      rcases List.mem_cons.1 ha with rfl | ha
      · exact Or.inl ⟨source, hsource, rfl⟩
      rcases List.mem_cons.1 ha with rfl | ha
      · exact Or.inr ⟨target, by omega, rfl⟩
      rcases ih hlt a ha with hname | ⟨i, hi, rfl⟩
      · exact Or.inl hname
      · exact Or.inr ⟨i, by omega, rfl⟩
    · rcases List.mem_singleton.1 ha with rfl
      exact Or.inl ⟨source, hsource, rfl⟩

/-! ### The encoder -/

theorem getD_ne_zero_iff (hnul : 0 ∉ name) (i : ℕ) : name.getD i 0 ≠ 0 ↔ i < name.length := by
  constructor
  · intro hne
    by_contra hend
    exact hne (List.getD_eq_default _ _ (Nat.le_of_not_lt hend))
  · intro hi hzero
    rw [List.getD_eq_getElem _ _ hi] at hzero
    exact hnul (hzero ▸ List.getElem_mem hi)

/-- **The encoder leaves the 8.3 form of the name** in `fatName`, with a terminator. -/
theorem encodeName_eq_fatName (hnul : 0 ∉ name) :
    (∀ j < 11, (encodeName name).2 j = fatName name j) ∧ (encodeName name).2 11 = 0 := by
  have hbase : ∀ i, name.getD i 0 ≠ 0 ∧ decide (i < (strchr name 46).getD 11) = true ↔
      i < min name.length ((strchr name 46).getD 11) := by
    intro i
    rw [getD_ne_zero_iff hnul, decide_eq_true_eq, Nat.lt_min]
  have hext : ∀ i, name.getD i 0 ≠ 0 ∧ (fun _ ↦ true) i = true ↔ i < name.length := by
    intro i
    rw [getD_ne_zero_iff hnul, and_iff_left rfl]
  have hsplit (j : ℕ) : (encodeName name).2 j =
      if (strchr name 46).getD 11 ≠ 11 ∧ 8 ≤ j ∧ j < 11 ∧
          (strchr name 46).getD 11 + 1 + (j - 8) < name.length then
        toupper (name.getD ((strchr name 46).getD 11 + 1 + (j - 8)) 0)
      else if j < 8 ∧ j < min name.length ((strchr name 46).getD 11) then toupper (name.getD j 0)
      else if j < 11 then 32 else 0 := by
    rw [encodeName]
    dsimp only
    split
    · next hdot =>
      rw [foldLoop_eq hext, foldLoop_eq hbase]
      simp only [hdot, Nat.zero_add, Nat.sub_zero, Nat.zero_le, true_and, ne_eq, not_false_eq_true]
    · next hdot =>
      rw [foldLoop_eq hbase]
      simp only [Classical.not_not.1 hdot, Nat.zero_add, Nat.sub_zero, Nat.zero_le, true_and, ne_eq,
        not_true_eq_false, false_and, if_false]
  refine ⟨fun j hj ↦ ?_, ?_⟩
  · rw [hsplit, fatName]
    rcases Nat.lt_or_ge j 8 with hlow | hhigh
    · rw [if_neg (by omega), if_pos hlow, if_pos hj]
      exact if_congr (by omega) rfl rfl
    · rw [if_neg (Nat.not_lt.2 hhigh), if_neg (by omega : ¬ (j < 8 ∧ _)), if_pos hj]
      exact if_congr (by omega) rfl rfl
  · rw [hsplit, if_neg (by omega), if_neg (by omega), if_neg (by omega)]

/-- `strchr` finds a place inside the string. -/
theorem strchr_lt {str : List UInt8} {c : UInt8} {i : ℕ} (h : strchr str c = some i) :
    i < str.length := by
  rw [strchr, List.findIdx?_eq_some_iff_findIdx_eq] at h
  exact h.1

/-- **A name that fits its buffer is encoded inside the arrays.** -/
theorem encodeName_defined (hfits : name.length < maxPathSize) :
    ∀ a ∈ (encodeName name).1, a.Defined := by
  have hloop {n source target : ℕ} {within : ℕ → Bool} {out : ℕ → UInt8}
      (hsource : source ≤ name.length) (htarget : target + n ≤ 12) :
      ∀ a ∈ (foldLoop name within n source target out).1, a.Defined := by
    intro a ha
    rcases foldLoop_accesses n hsource a ha with ⟨i, hi, rfl⟩ | ⟨i, hi, rfl⟩
    · exact Nat.lt_of_le_of_lt hi hfits
    · exact Nat.lt_of_lt_of_le hi htarget
  intro a ha
  rw [encodeName] at ha
  dsimp only at ha
  rcases List.mem_append.1 ha with ha | ha
  · rcases List.mem_append.1 ha with ha | ha
    · rcases List.mem_append.1 ha with ha | ha
      · obtain ⟨i, hi, rfl⟩ := List.mem_map.1 ha
        exact List.mem_range.1 hi
      · obtain ⟨i, hi, rfl⟩ := List.mem_map.1 ha
        have hlast := List.mem_range.1 hi
        show i < maxPathSize
        rcases hdot : strchr name 46 with - | d
        · rw [hdot, Option.getD_none] at hlast
          omega
        · have hd := strchr_lt hdot
          rw [hdot, Option.getD_some] at hlast
          omega
    · exact hloop (Nat.zero_le _) (by omega) a ha
  · split at ha
    · next hne =>
      rcases hdot : strchr name 46 with - | d
      · exact absurd (by rw [hdot, Option.getD_none]) hne
      · rw [hdot, Option.getD_some] at ha
        exact hloop (strchr_lt hdot) (by omega) a ha
    · exact absurd ha List.not_mem_nil

end Aidos.Fat12
