import Mathlib.Data.List.GetD
import Aidos.Library.FirstMatch
import Aidos.Library.NameFields
import Aidos.Fat12.Sessions

/-!
# Looking up a name in a directory

`FindFile` compares the eleven bytes of each entry with the 8.3 form of the name, which it cuts to
size. `Named` is what a user expects of a lookup: the entry is a live file or directory, and its
name, written with a dot and without the padding, is the one asked for up to the case of the
letters.

`FindFile` picks the first entry with the eleven bytes (`findFile_among`), whatever else the entry
is. That is the entry the user expects exactly when the first entry that either rule picks is live
and regular, and the name fits the two fields (`Fat12FileSystem.findFile_names`).
-/

namespace Aidos.Fat12

open FirstMatch NameFields

/-! ### Entries and their names -/

/-- `FAT_ATTRIBUTE_VOLUME_ID`. -/
def attributeVolumeId : UInt8 := 0x08

/-- `FAT_ATTRIBUTE_LFN`. -/
def attributeLfn : UInt8 := 0x0F

namespace FatDirectoryEntry

variable (e : FatDirectoryEntry)

/-- `Name`, base and extension. -/
def nameFields : List UInt8 × List UInt8 :=
  ((List.range 8).map e.name, (List.range 3).map fun j ↦ e.name (8 + j))

/-- The name as a user writes it, `BASE` or `BASE.EXT`. -/
def shortName : List UInt8 := display 46 32 e.nameFields

/-- The entry is of a file or a directory: it is not deleted, it is not the label of the volume, and
it is no part of a long name. -/
def Live : Prop :=
  e.name 0 ≠ 0xE5 ∧ e.attributes &&& attributeVolumeId = 0 ∧
    e.attributes &&& attributeLfn ≠ attributeLfn

instance : Decidable e.Live := inferInstanceAs (Decidable (_ ∧ _ ∧ _))

/-- The eleven bytes are upper case, and no dot is among the first eight. -/
def Regular : Prop := NameFields.Regular toupper 46 e.nameFields

instance : Decidable e.Regular := inferInstanceAs (Decidable (NameFields.Regular _ _ _))

/-- The entry is live, and `name` is its name up to case. -/
def Named (name : List UInt8) : Prop := e.Live ∧ e.shortName.map toupper = name.map toupper

instance (name : List UInt8) : Decidable (e.Named name) := inferInstanceAs (Decidable (_ ∧ _))

end FatDirectoryEntry

/-- The 8.3 form of a name, base and extension. -/
def encode83 (name : List UInt8) : List UInt8 × List UInt8 := encode toupper 46 32 8 3 name

/-- A name that fits the two fields: its base has at most eight letters and its extension three,
none ends in a blank, and there is an extension if there is a dot. -/
def PlainName (name : List UInt8) : Prop := Plain 46 32 8 3 name

instance (name : List UInt8) : Decidable (PlainName name) :=
  inferInstanceAs (Decidable (Plain _ _ _ _ _))

theorem toupper_cases (c : UInt8) :
    (97 ≤ c.toNat ∧ c.toNat ≤ 122 ∧ (toupper c).toNat = c.toNat - 32) ∨
      ¬ (97 ≤ c.toNat ∧ c.toNat ≤ 122) ∧ toupper c = c := by
  rw [toupper]
  simp only [UInt8.le_iff_toNat_le, UInt8.reduceToNat]
  split
  · next h =>
    refine Or.inl ⟨h.1, h.2, UInt8.toNat_sub_of_le _ _ ?_⟩
    rw [UInt8.le_iff_toNat_le]
    exact Nat.le_trans (by decide) h.1
  · next h => exact Or.inr ⟨h, rfl⟩

theorem toupper_eq_iff {c d : UInt8} (hd : ¬ (65 ≤ d.toNat ∧ d.toNat ≤ 90))
    (hd' : ¬ (97 ≤ d.toNat ∧ d.toNat ≤ 122)) : toupper c = d ↔ c = d := by
  rw [← UInt8.toNat_inj, ← UInt8.toNat_inj]
  rcases toupper_cases c with ⟨hlo, hhi, hsub⟩ | ⟨-, hsame⟩
  · omega
  · rw [hsame]

theorem folding_toupper : Folding toupper 46 32 where
  idem c := by
    rcases toupper_cases (toupper c) with ⟨hlo, hhi, -⟩ | ⟨-, hsame⟩
    · rcases toupper_cases c with ⟨_, _, hsub⟩ | ⟨hnot, hsame⟩
      · omega
      · rw [hsame, hsame]
    · exact hsame
  sep_iff _ := toupper_eq_iff (by decide) (by decide)
  blank_iff _ := toupper_eq_iff (by decide) (by decide)
  ne := by decide

/-! ### The encoder -/

theorem strchr_eq_none {name : List UInt8} {c : UInt8} (h : c ∉ name) : strchr name c = none := by
  rw [strchr, List.findIdx?_eq_none_iff]
  intro d hd
  exact beq_eq_false_iff_ne.2 fun heq ↦ h (heq ▸ hd)

theorem strchr_append {a b : List UInt8} {c : UInt8} (h : c ∉ a) :
    strchr (a ++ c :: b) c = some a.length := by
  have ha := strchr_eq_none h
  rw [strchr] at ha ⊢
  rw [List.findIdx?_append, ha, List.findIdx?_cons, beq_self_eq_true]
  simp

/-- A field, byte by byte. -/
theorem pad_map_toupper (w : ℕ) (l : List UInt8) :
    pad 32 w (l.map toupper) =
      (List.range w).map fun j ↦ if j < l.length then toupper (l.getD j 0) else 32 := by
  refine List.ext_getElem ?_ fun j hj hj' ↦ ?_
  · simp only [pad, List.rightpad, List.length_append, List.length_take, List.length_map,
      List.length_replicate, List.length_range]
    omega
  rw [List.length_map, List.length_range] at hj'
  simp only [pad, List.rightpad, List.getElem_append, List.length_take, List.length_map,
    List.getElem_take, List.getElem_map, List.getElem_range, List.getElem_replicate, lt_min_iff,
    hj', true_and, List.getD_eq_getElem?_getD]
  split
  · next hlt => rw [List.getElem?_eq_getElem hlt, Option.getD_some]
  · rfl

/-- **The encoder** cuts and pads, for every name whose first dot is not its twelfth letter. -/
theorem fatName_eq_encode83 {name : List UInt8} (hdot : strchr name 46 ≠ some 11) :
    ((List.range 8).map (fatName name), (List.range 3).map fun j ↦ fatName name (8 + j)) =
      encode83 name := by
  rw [encode83, encode, pad_map_toupper, pad_map_toupper, Prod.mk.injEq]
  by_cases hmem : 46 ∈ name
  · obtain ⟨a, b, rfl, ha⟩ := List.eq_append_cons_of_mem hmem
    rw [strchr_append ha] at hdot
    rw [stem_append ha, extension_append ha]
    have hne : a.length ≠ 11 := fun heq ↦ hdot (congrArg some heq)
    refine ⟨List.map_congr_left fun j hj ↦ ?_, List.map_congr_left fun j _ ↦ ?_⟩
    · have hj8 : j < 8 := List.mem_range.1 hj
      have hcond : j < (a ++ 46 :: b).length ∧ j < a.length ↔ j < a.length := by
        rw [List.length_append]
        omega
      rw [fatName, strchr_append ha, Option.getD_some, if_pos hj8]
      simp only [hcond]
      split
      · next hlt => rw [List.getD_append _ _ _ _ hlt]
      · rfl
    · have hcond : a.length ≠ 11 ∧ a.length + 1 + (8 + j - 8) < (a ++ 46 :: b).length ↔
          j < b.length := by
        rw [List.length_append, List.length_cons]
        omega
      have hbyte : (a ++ 46 :: b).getD (a.length + 1 + (8 + j - 8)) 0 = b.getD j 0 := by
        rw [List.getD_append_right _ _ _ _ (by omega),
          (by omega : a.length + 1 + (8 + j - 8) - a.length = j + 1), List.getD_cons_succ]
      rw [fatName, strchr_append ha, Option.getD_some, if_neg (by omega)]
      simp only [hcond, hbyte]
  · rw [stem_eq_self hmem, extension_eq_nil hmem]
    refine ⟨List.map_congr_left fun j hj ↦ ?_, List.map_congr_left fun j _ ↦ ?_⟩
    · have hj8 : j < 8 := List.mem_range.1 hj
      have hcond : j < name.length ∧ j < 11 ↔ j < name.length := by omega
      rw [fatName, strchr_eq_none hmem, Option.getD_none, if_pos hj8]
      simp only [hcond]
    · rw [fatName, strchr_eq_none hmem, Option.getD_none, if_neg (by omega), if_neg (by simp),
        if_neg (by simp)]

theorem nameMatches_iff {name : List UInt8} (hdot : strchr name 46 ≠ some 11)
    (e : FatDirectoryEntry) : nameMatches name e = true ↔ encode83 name = e.nameFields := by
  rw [← fatName_eq_encode83 hdot, FatDirectoryEntry.nameFields, Prod.mk.injEq, nameMatches,
    List.all_eq_true]
  simp only [List.map_inj_left, List.mem_range, beq_iff_eq]
  constructor
  · exact fun h ↦ ⟨fun j hj ↦ h j (by omega), fun j hj ↦ h (8 + j) (by omega)⟩
  · rintro ⟨hbase, hext⟩ j hj
    rcases Nat.lt_or_ge j 8 with hlt | hge
    · exact hbase j hlt
    · have h := hext (j - 8) (by omega)
      rwa [Nat.add_sub_cancel' hge] at h

/-! ### What a lookup picks -/

namespace Fat12FileSystem

/-- The entries that `n` calls of `ReadEntry` deliver, up to the first call that delivers none. -/
def entriesFrom (current : FileRef) : ℕ → Fat12FileSystem → List FatDirectoryEntry
  | 0, _ => []
  | n + 1, fs =>
    match fs.readEntry current with
    | (none, _) => []
    | (some e, fs) => e :: entriesFrom current n fs

variable {fs : Fat12FileSystem} {current : FileRef} {name : List UInt8}

theorem entriesFrom_prefix_succ (n : ℕ) (fs : Fat12FileSystem) :
    entriesFrom current n fs <+: entriesFrom current (n + 1) fs := by
  induction n generalizing fs with
  | zero => exact List.nil_prefix
  | succ n ih =>
    rw [entriesFrom, entriesFrom]
    rcases fs.readEntry current with ⟨e | e, fs'⟩
    · exact List.prefix_rfl
    · exact List.cons_prefix_cons.2 ⟨rfl, ih fs'⟩

theorem entriesFrom_prefix {m n : ℕ} (h : m ≤ n) :
    entriesFrom current m fs <+: entriesFrom current n fs := by
  induction h with
  | refl => exact List.prefix_rfl
  | step _ ih => exact ih.trans (entriesFrom_prefix_succ _ fs)

/-- A directory that has ended has no more entries. -/
theorem entriesFrom_of_ended {n : ℕ} (h : (entriesFrom current n fs).length < n) (m : ℕ) :
    entriesFrom current m fs <+: entriesFrom current n fs := by
  induction n generalizing fs m with
  | zero => exact absurd h (Nat.not_lt_zero _)
  | succ n ih =>
    cases m with
    | zero => exact List.nil_prefix
    | succ m =>
      rw [entriesFrom] at h ⊢
      rw [entriesFrom]
      revert h
      rcases fs.readEntry current with ⟨e | e, fs'⟩
      · exact fun _ ↦ List.prefix_rfl
      · exact fun h ↦ List.cons_prefix_cons.2 ⟨rfl, ih (Nat.lt_of_succ_lt_succ h) m⟩

end Fat12FileSystem

/-- What a scan that takes the first entry with `p` says after the entries `l`, which may be all
there are. -/
def Search.among (p : FatDirectoryEntry → Bool) (l : List FatDirectoryEntry) (ended : Prop)
    [Decidable ended] : Search :=
  match l.find? p with
  | some e => .found e
  | none => if ended then .notFound else .running

namespace Fat12FileSystem

variable (fs : Fat12FileSystem) {current : FileRef} {name : List UInt8}

/-- **`FindFile`** takes the first entry with the eleven bytes. -/
theorem findFile_among (n : ℕ) (current : FileRef) (name : List UInt8) :
    (fs.findFile n current name).1 =
      Search.among (nameMatches name) (fs.entriesFrom current n)
        ((fs.entriesFrom current n).length < n) := by
  rw [findFile]
  induction n generalizing fs with
  | zero => rfl
  | succ n ih =>
    rw [findFileLoop, entriesFrom]
    rcases fs.readEntry current with ⟨e | e, fs'⟩
    · rfl
    dsimp only
    rw [Search.among, List.find?_cons]
    split
    · next h => rw [h]
    · next h =>
      rw [Bool.not_eq_true] at h
      rw [h, ih, Search.among]
      simp only [List.length_cons, Nat.succ_lt_succ_iff]

/-- `FindFile` reports a match with `e`. -/
def Finds (current : FileRef) (name : List UInt8) (e : FatDirectoryEntry) : Prop :=
  ∃ n, (fs.findFile n current name).1 = .found e

/-- **The lookup a user expects**: the first entry of that name before the directory ends, and no
other entry. -/
def FindsAsNamed (current : FileRef) (name : List UInt8) : Prop :=
  ∀ e, fs.Finds current name e ↔
    First (fun n ↦ fs.entriesFrom current n) (fun e ↦ decide (e.Named name)) e

variable {fs}

theorem finds_iff {e : FatDirectoryEntry} :
    fs.Finds current name e ↔ First (fun n ↦ fs.entriesFrom current n) (nameMatches name) e := by
  refine exists_congr fun n ↦ ?_
  rw [findFile_among, Search.among]
  split
  · next e' h => rw [h, Search.found.injEq, Option.some.injEq]
  · next h =>
    rw [h]
    refine iff_of_false ?_ (by simp)
    split <;> simp

/-- The two rules agree on an entry of either kind when the entry is live and regular and the name
plain. -/
theorem agree_iff {e : FatDirectoryEntry} (hdot : strchr name 46 ≠ some 11)
    (he : nameMatches name e = true ∨ e.Named name) :
    nameMatches name e = true ∧ e.Named name ↔ PlainName name ∧ e.Live ∧ e.Regular := by
  have hplain : encode83 name = e.nameFields →
      (e.shortName.map toupper = name.map toupper ↔ PlainName name) := by
    intro h
    rw [FatDirectoryEntry.shortName, ← h]
    exact fold_display_encode_iff folding_toupper
  have hregular : e.shortName.map toupper = name.map toupper →
      (encode83 name = e.nameFields ↔ e.Regular) :=
    encode_eq_iff folding_toupper (by simp [FatDirectoryEntry.nameFields])
      (by simp [FatDirectoryEntry.nameFields])
  rw [nameMatches_iff hdot] at he ⊢
  constructor
  · rintro ⟨hmatch, hlive, hname⟩
    exact ⟨(hplain hmatch).1 hname, hlive, (hregular hname).1 hmatch⟩
  · rintro ⟨hp, hlive, hreg⟩
    rcases he with hmatch | ⟨-, hname⟩
    · exact ⟨hmatch, hlive, (hplain hmatch).2 hp⟩
    · exact ⟨(hregular hname).2 hreg, hlive, hname⟩

/-- **Looking up a name** whose first dot is not its twelfth letter. `FindFile` takes the first
entry whose eleven bytes are the 8.3 form of the name. This is the lookup a user expects if and only
if the first entry that one of the two rules picks is live and regular and the name plain. -/
theorem findFile_names (fs : Fat12FileSystem) (current : FileRef) (name : List UInt8)
    (hdot : strchr name 46 ≠ some 11) :
    (∀ n, (fs.findFile n current name).1 =
      Search.among (fun e ↦ decide (encode83 name = e.nameFields)) (fs.entriesFrom current n)
        ((fs.entriesFrom current n).length < n)) ∧
    (fs.FindsAsNamed current name ↔
      ∀ e, First (fun n ↦ fs.entriesFrom current n)
          (fun e ↦ decide (encode83 name = e.nameFields) || decide (e.Named name)) e →
        PlainName name ∧ e.Live ∧ e.Regular) := by
  have htest (e : FatDirectoryEntry) :
      nameMatches name e = decide (encode83 name = e.nameFields) := by
    rw [Bool.eq_iff_iff, nameMatches_iff hdot, decide_eq_true_iff]
  refine ⟨fun n ↦ by rw [findFile_among, funext htest], ?_⟩
  simp only [FindsAsNamed, finds_iff, ← htest]
  rw [first_iff_first_iff entriesFrom_prefix]
  refine forall_congr' fun e ↦ forall_congr' fun hfirst ↦ ?_
  have heither := hfirst.test
  rw [Bool.or_eq_true, decide_eq_true_iff] at heither
  rw [decide_eq_true_iff, agree_iff hdot heither]

theorem not_findsAsNamed {n : ℕ} {e : FatDirectoryEntry}
    (hfound : (fs.findFile n current name).1 = .found e) (he : ¬ e.Named name) :
    ¬ fs.FindsAsNamed current name :=
  fun h ↦ he (of_decide_eq_true ((h e).1 ⟨n, hfound⟩).test)

end Fat12FileSystem

/-! ### A volume label and a file -/

/-- The entry of a volume label, `BOOT`. -/
def labelEntry : FatDirectoryEntry :=
  ⟨[0x42, 0x4F, 0x4F, 0x54, 32, 32, 32, 32, 32, 32, 32, 0x08, 0, 0, 0, 0, 0, 0, 0, 0, 0, 0, 0, 0, 0,
    0, 0, 0, 0, 0, 0, 0]⟩

/-- The entry of a file, `ABCDEFGH.TXT`. -/
def textEntry : FatDirectoryEntry :=
  ⟨[0x41, 0x42, 0x43, 0x44, 0x45, 0x46, 0x47, 0x48, 0x54, 0x58, 0x54, 0x20, 0, 0, 0, 0, 0, 0, 0, 0,
    0, 0, 0, 0, 0, 0, 2, 0, 0x58, 0x02, 0, 0]⟩

/-- A floppy disk with these two entries in its root directory. -/
def labelledFloppy : BlockDevice :=
  { twoClusterFloppy with
    sector := fun lba j ↦ if lba = 19 then (labelEntry.bytes ++ textEntry.bytes).getD j 0
      else twoClusterFloppy.sector lba j }

/-- The driver after mounting that disk. -/
def labelledFs : Fat12FileSystem := (detectAndMount labelledFloppy blankData).get (by decide)

/-- `abcdefgh.txt` is looked up as expected. -/
theorem findFile_names_labelledFs :
    (labelledFs.findFile 2 .root
      [0x61, 0x62, 0x63, 0x64, 0x65, 0x66, 0x67, 0x68, 0x2E, 0x74, 0x78, 0x74]).1 =
        .found textEntry ∧
    labelledFs.FindsAsNamed .root
      [0x61, 0x62, 0x63, 0x64, 0x65, 0x66, 0x67, 0x68, 0x2E, 0x74, 0x78, 0x74] := by
  obtain ⟨hfinds, hiff⟩ := Fat12FileSystem.findFile_names labelledFs .root
    [0x61, 0x62, 0x63, 0x64, 0x65, 0x66, 0x67, 0x68, 0x2E, 0x74, 0x78, 0x74] (by decide)
  refine ⟨(hfinds 2).trans (by decide +kernel), hiff.2 fun e he ↦ ?_⟩
  have hended : (labelledFs.entriesFrom .root 3).length < 3 := by decide +kernel
  have hlast := he.find?_eq (Fat12FileSystem.entriesFrom_of_ended hended)
  obtain rfl : textEntry = e := by
    refine Option.some.inj (Eq.trans ?_ hlast)
    decide +kernel
  decide +kernel

/-- The label is found as if it were a file, and so is a file whose name is only the beginning of
the one asked for, by two different names. -/
theorem find_file_takes_label :
    (labelledFs.findFile 1 .root [0x62, 0x6F, 0x6F, 0x74]).1 = .found labelEntry ∧
    ¬ labelEntry.Live ∧ ¬ labelledFs.FindsAsNamed .root [0x62, 0x6F, 0x6F, 0x74] ∧
    (labelledFs.findFile 2 .root
      [0x61, 0x62, 0x63, 0x64, 0x65, 0x66, 0x67, 0x68, 0x69, 0x2E, 0x74, 0x78, 0x74, 0x31]).1 =
        .found textEntry ∧
    (labelledFs.findFile 2 .root
      [0x61, 0x62, 0x63, 0x64, 0x65, 0x66, 0x67, 0x68, 0x6A, 0x2E, 0x74, 0x78, 0x74, 0x32]).1 =
        .found textEntry ∧
    ¬ labelledFs.FindsAsNamed .root
      [0x61, 0x62, 0x63, 0x64, 0x65, 0x66, 0x67, 0x68, 0x69, 0x2E, 0x74, 0x78, 0x74, 0x31] := by
  have hlabel : (labelledFs.findFile 1 .root [0x62, 0x6F, 0x6F, 0x74]).1 = .found labelEntry := by
    decide +kernel
  have htext : (labelledFs.findFile 2 .root
      [0x61, 0x62, 0x63, 0x64, 0x65, 0x66, 0x67, 0x68, 0x69, 0x2E, 0x74, 0x78, 0x74, 0x31]).1 =
        .found textEntry := by
    decide +kernel
  exact ⟨hlabel, by decide, Fat12FileSystem.not_findsAsNamed hlabel (by decide), htext,
    by decide +kernel, Fat12FileSystem.not_findsAsNamed htext (by decide)⟩

end Aidos.Fat12
