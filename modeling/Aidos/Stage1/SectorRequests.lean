import Mathlib.Algebra.Order.Ring.Nat
import Mathlib.Data.List.Basic
import Mathlib.Data.Nat.Notation
import Mathlib.Tactic.Common
import Aidos.Library.Words
import Aidos.Stage1.DiskRead

/-!
# Which sectors stage 1 asks for

A request of INT 13h names sectors and the addresses they go to (`Request.transfers`).
`ReadsExactly` says of a run of `disk_read` that it asked for the sectors of its parameters and for
nothing else, each to its own place, and that a packet it handed over had the fields the extensions
define.

The two paths meet this under different conditions. The packet is filled in where the code stores
something; the byte behind its size, the upper byte of the count and the upper half of the sector
number are whatever `.bss` held. It is filled in once, so a retry hands over the block count that
the failed try left. On the other path the drive is the one in `boot_drive`, `lba_to_chs` looks at
sixteen bits of the sector number, and the segment register moves on by 32 for each sector.
`readsExactly_iff` is the exact condition.
-/

namespace Aidos.Stage1

/-! ### What a request names -/

/-- The linear address of `seg:off`. -/
def linear (seg off : ℕ) : ℕ := seg * 16 + off

/-- The sector that cylinder, head and sector number name, as the BIOS reads them off `cx` and `dh`.
-/
def chsSector (spt heads : ℕ) (cx : UInt16) (dh : UInt8) : ℕ :=
  (((high cx).toNat + 256 * ((low cx).toNat / 64)) * heads + dh.toNat) * spt +
    ((low cx).toNat % 64 - 1)

/-- A little-endian number in a packet. -/
def littleEndian (bytes : List UInt8) : ℕ := bytes.foldr (fun b n ↦ b.toNat + 256 * n) 0

/-- One sector to be read. -/
structure Transfer where
  /-- The drive. -/
  drive : UInt8
  /-- The sector. -/
  sector : ℕ
  /-- The linear address it goes to. -/
  address : ℕ
  deriving DecidableEq

/-- The sectors a request names, each with the drive and the linear address it goes to. -/
def Request.transfers (spt heads : ℕ) : Request → List Transfer
  | .extended drive packet _ =>
    (List.range (littleEndian ((packet.drop 2).take 2))).map fun k ↦
      ⟨drive, littleEndian ((packet.drop 8).take 8) + k,
        linear (littleEndian ((packet.drop 6).take 2))
          (littleEndian ((packet.drop 4).take 2)) + 512 * k⟩
  | .chs drive al cx dh es bx _ =>
    (List.range al.toNat).map fun k ↦
      ⟨drive, chsSector spt heads cx dh + k, linear es.toNat bx.toNat + 512 * k⟩
  | .reset _ => []

/-- Whether a request read something. -/
def Request.ok : Request → Bool
  | .extended _ _ ok => ok
  | .chs _ _ _ _ _ _ ok => ok
  | .reset _ => false

/-- The packet that asks for `count` sectors from `lba` on, to `es:bx`. -/
def packet (count : UInt8) (bx es : UInt16) (lba : Reg32) : List UInt8 :=
  [16, 0, count, 0, low bx, high bx, low es, high es,
    low lba.lo, high lba.lo, low lba.hi, high lba.hi, 0, 0, 0, 0]

/-- The requests read these sectors, in this order, and name no others. -/
structure Asks (spt heads : ℕ) (wanted : List Transfer) (requests : List Request) : Prop where
  /-- What is read. -/
  reads : (requests.filter Request.ok).flatMap (Request.transfers spt heads) = wanted
  /-- What is named, also by requests that fail. -/
  named : ∀ r ∈ requests, ∀ t ∈ r.transfers spt heads, t ∈ wanted

theorem Asks.append {spt heads : ℕ} {w w' : List Transfer} {rs rs' : List Request}
    (h : Asks spt heads w rs) (h' : Asks spt heads w' rs') :
    Asks spt heads (w ++ w') (rs ++ rs') where
  reads := by rw [List.filter_append, List.flatMap_append, h.reads, h'.reads]
  named r hr t ht := by
    rcases List.mem_append.1 hr with hr | hr
    · exact List.mem_append_left _ (h.named r hr t ht)
    · exact List.mem_append_right _ (h'.named r hr t ht)

/-- Failures, each of which names what the request after them reads. -/
theorem Asks.of_retries {spt heads : ℕ} {r : Request} {failed : List Request} (hok : r.ok = true)
    (h : ∀ q ∈ failed, q.ok = false ∧ ∀ t ∈ q.transfers spt heads, t ∈ r.transfers spt heads) :
    Asks spt heads (r.transfers spt heads) (failed ++ [r]) where
  reads := by
    have hnone : failed.filter Request.ok = [] :=
      List.filter_eq_nil_iff.2 fun q hq ↦ by rw [(h q hq).1]; exact Bool.false_ne_true
    rw [List.filter_append, hnone, List.nil_append, List.filter_cons_of_pos hok, List.filter_nil,
      List.flatMap_cons, List.flatMap_nil, List.append_nil]
  named q hq t ht := by
    rcases List.mem_append.1 hq with hq | hq
    · exact (h q hq).2 t ht
    · exact List.mem_singleton.1 hq ▸ ht

namespace Machine

/-! ### What `disk_read` is asked for -/

/-- The BIOS succeeds within three tries. -/
def Succeeds (m : Machine) : Prop := ∀ k, ∃ i < 3, (m.bios (k + i)).carry = false

/-- The geometry is one a BIOS reports, and the sectors asked for have addresses in it. -/
structure Addressable (m : Machine) : Prop where
  /-- Sectors to the track. -/
  sectorsPerTrack : 1 ≤ m.sectorsPerTrack.toNat ∧ m.sectorsPerTrack.toNat ≤ 63
  /-- Heads. -/
  heads : 1 ≤ m.heads.toNat ∧ m.heads.toNat ≤ 256
  /-- How many sectors are asked for. -/
  count : 1 ≤ (low m.regs.cx).toNat ∧ (low m.regs.cx).toNat ≤ 128
  /-- They lie in fewer than 1024 cylinders. -/
  cylinders : m.regs.eax.toNat + (low m.regs.cx).toNat ≤
    1024 * (m.heads.toNat * m.sectorsPerTrack.toNat)

/-- The sectors asked for, of the drive in `dl`, with the addresses they belong to. -/
def wanted (m : Machine) : List Transfer :=
  (List.range (low m.regs.cx).toNat).map fun k ↦
    ⟨low m.regs.dx, m.regs.eax.toNat + k, linear m.regs.es.toNat m.regs.bx.toNat + 512 * k⟩

/-- **`disk_read` does what it is asked for**: it returns, having asked for exactly the sectors
wanted; and a packet it hands over has the fields the extensions define. -/
def ReadsExactly (m : Machine) : Prop :=
  m.diskRead.1 = .returned ∧
    ∃ requests, m.diskRead.2.trace = requests.reverse ++ m.trace ∧
      Asks m.sectorsPerTrack.toNat m.heads.toNat m.wanted requests ∧
      ∀ drive bytes ok, .extended drive bytes ok ∈ requests →
        bytes = packet (low m.regs.cx) m.regs.bx m.regs.es m.regs.eax

/-- The machine with the extensions present or not. -/
def withExtensions (m : Machine) (present : UInt8) : Machine :=
  { m with diskExtendedPresent := present }

/-! ### Bytes of a word -/

theorem toNat_low (w : UInt16) : (low w).toNat = w.toNat % 256 := by
  rw [low, UInt8.toNat_ofNat']

theorem toNat_high (w : UInt16) : (high w).toNat = w.toNat / 256 := by
  have hlt := w.toNat_lt
  rw [high, UInt8.toNat_ofNat']
  omega

theorem toNat_pack (h l : UInt8) : (pack h l).toNat = h.toNat * 256 + l.toNat := by
  have hh := h.toNat_lt
  have hl := l.toNat_lt
  rw [pack, UInt16.toNat_ofNat']
  omega

@[simp] theorem low_pack (h l : UInt8) : low (pack h l) = l := by
  have hl := l.toNat_lt
  rw [← UInt8.toNat_inj, toNat_low, toNat_pack]
  omega

@[simp] theorem high_pack (h l : UInt8) : high (pack h l) = h := by
  have hl := l.toNat_lt
  rw [← UInt8.toNat_inj, toNat_high, toNat_pack]
  omega

theorem pack_high_low (w : UInt16) : pack (high w) (low w) = w := by
  rw [← UInt16.toNat_inj, toNat_pack, toNat_high, toNat_low]
  omega

theorem pack_inj {h l h' l' : UInt8} : pack h l = pack h' l' ↔ h = h' ∧ l = l' := by
  refine ⟨fun heq ↦ ⟨?_, ?_⟩, fun ⟨hh, hl⟩ ↦ hh ▸ hl ▸ rfl⟩
  · rw [← high_pack h l, heq, high_pack]
  · rw [← low_pack h l, heq, low_pack]

/-! ### Retries -/

/-- `pusha` and `popa` around a read hide what it does to the registers. -/
theorem popa_int13 (m : Machine) (request : Bool → Request) :
    m.regs.popa (m.int13 request).2.regs = m.regs := by
  rcases m with ⟨⟨⟨ehi, elo⟩, ⟨shi, slo⟩, bx, cx, dx, di, es⟩, _⟩
  rfl

/-- A read with the registers saved around it: only the counter and the trace change. -/
def afterRead (m : Machine) (request : Bool → Request) : Machine :=
  { m with
    reads := m.reads + 1
    trace := request (!(m.bios m.reads).carry) :: m.trace }

theorem int13_eq (m : Machine) (request : Bool → Request) :
    { (m.int13 request).2 with regs := m.regs.popa (m.int13 request).2.regs } =
      m.afterRead request := by
  rw [popa_int13]
  rfl

/-- The packet in memory. -/
def dap (m : Machine) : List UInt8 := (List.range 16).map m.extensionDap

/-- A failed read over the extensions: the block count of the packet has changed too. -/
def afterFailure (m : Machine) : Machine :=
  { m.afterRead (.extended (low m.regs.dx) m.dap) with
    extensionDap := storeWord m.extensionDap 2 (m.bios m.reads).blocks }

theorem extRetry_succ (di : ℕ) (m : Machine) :
    extRetry (di + 1) m =
      if (m.bios m.reads).carry = false then
        (.returned, m.afterRead (.extended (low m.regs.dx) m.dap))
      else extRetry di m.afterFailure.diskReset := by
  rw [afterFailure, ← int13_eq]
  rcases hcarry : (m.bios m.reads).carry with - | - <;>
    simp [extRetry, int13Extended, int13, hcarry, dap]

theorem innerLoop_succ (di : ℕ) (m : Machine) :
    innerLoop (di + 1) m =
      if (m.bios m.reads).carry = false then
        (true, m.afterRead
          (.chs m.bootDrive (low m.regs.eax.lo) m.regs.cx (high m.regs.dx) m.regs.es m.regs.bx))
      else innerLoop di (m.afterRead
        (.chs m.bootDrive (low m.regs.eax.lo) m.regs.cx (high m.regs.dx) m.regs.es m.regs.bx)) := by
  rw [innerLoop, ← int13_eq]
  dsimp only [int13]
  cases (m.bios m.reads).carry <;> rfl

/-- A try that fails leaves the success to one of the others. -/
theorem exists_next {answers : ℕ → Answer} {k n : ℕ} (hfail : (answers k).carry ≠ false)
    (h : ∃ i < n + 1, (answers (k + i)).carry = false) :
    ∃ i < n, (answers (k + 1 + i)).carry = false := by
  obtain ⟨i, hi, hok⟩ := h
  rcases i with - | i
  · exact absurd hok hfail
  · exact ⟨i, by omega, by rwa [Nat.add_assoc, Nat.add_comm 1 i]⟩

/-- The failed tries leave this number in the block count of the packet. -/
def RetriesKeep (m : Machine) (count : UInt16) : Prop :=
  ∀ i, (∀ j ≤ i, (m.bios (m.reads + j)).carry = true) → (m.bios (m.reads + i)).blocks = count

/-- What holds of all tries holds of the first one and of the others. -/
theorem retriesKeep_succ {m : Machine} {count : UInt16} (hfail : (m.bios m.reads).carry = true) :
    m.RetriesKeep count ↔
      (m.bios m.reads).blocks = count ∧ m.afterFailure.diskReset.RetriesKeep count := by
  have hnext (i : ℕ) : m.reads + (i + 1) = m.reads + 1 + i := by omega
  constructor
  · refine fun h ↦ ⟨h 0 fun j hj ↦ ?_, fun i hi ↦ ?_⟩
    · rwa [Nat.le_zero.1 hj]
    · refine (congrArg (fun k ↦ (m.bios k).blocks = count) (hnext i)).mp (h (i + 1) ?_)
      rintro (- | j) hj
      · exact hfail
      · rw [hnext]
        exact hi j (Nat.le_of_succ_le_succ hj)
  · rintro ⟨hfirst, hrest⟩ (- | i) hi
    · exact hfirst
    · rw [hnext]
      refine hrest i fun j hj ↦ ?_
      have hcarry := hi (j + 1) (Nat.succ_le_succ hj)
      rwa [hnext] at hcarry

/-- With the first try successful there is nothing to keep. -/
theorem retriesKeep_of_ok {m : Machine} (hok : (m.bios m.reads).carry = false) (count : UInt16) :
    m.RetriesKeep count := fun _ hi ↦
  absurd ((hi 0 (Nat.zero_le _)).symm.trans hok) Bool.noConfusion

/-- The block count in the packet. -/
def blockCount (m : Machine) : UInt16 := pack (m.extensionDap 3) (m.extensionDap 2)

/-- A failed try leaves the packet alone exactly when it leaves the block count alone. -/
theorem dap_afterFailure_iff (m : Machine) :
    m.afterFailure.dap = m.dap ↔ (m.bios m.reads).blocks = m.blockCount := by
  have hrange (f : ℕ → UInt8) : (List.range 16).map f =
      [f 0, f 1, f 2, f 3, f 4, f 5, f 6, f 7, f 8, f 9, f 10, f 11, f 12, f 13, f 14, f 15] := rfl
  rw [dap, dap, hrange, hrange, ← pack_high_low (m.bios m.reads).blocks, blockCount, pack_inj]
  simp [afterFailure, afterRead, storeWord, storeByte, and_comm]

theorem extensionDap_afterFailure {m : Machine} (h : (m.bios m.reads).blocks = m.blockCount) :
    m.afterFailure.extensionDap = m.extensionDap := by
  funext i
  dsimp only [afterFailure, storeWord, storeByte]
  rw [h, blockCount, high_pack, low_pack]
  split_ifs with h3 h2
  · rw [h3]
  · rw [h2]
  · rfl

theorem blockCount_afterFailure {m : Machine} (h : (m.bios m.reads).blocks = m.blockCount) :
    m.afterFailure.diskReset.blockCount = m.blockCount := by
  change pack (m.afterFailure.extensionDap 3) (m.afterFailure.extensionDap 2) = m.blockCount
  rw [extensionDap_afterFailure h, blockCount]

/-- **The retries of the extensions path** hand over a packet until it is read, the one in memory
first; and they all hand over that one exactly when the failed tries keep its block count. -/
theorem extRetry_spec (n : ℕ) :
    ∀ m : Machine, (∃ i < n, (m.bios (m.reads + i)).carry = false) →
      (extRetry n m).1 = .returned ∧
        ∃ failed bytes, (extRetry n m).2.trace =
            (failed ++ [.extended (low m.regs.dx) bytes true]).reverse ++ m.trace ∧
          (∀ q ∈ failed, (∃ bytes, q = .extended (low m.regs.dx) bytes false) ∨
            q = .reset m.bootDrive) ∧
          (∃ ok, .extended (low m.regs.dx) m.dap ok ∈
            failed ++ [.extended (low m.regs.dx) bytes true]) ∧
          ((∀ drive packet ok, .extended drive packet ok ∈
              failed ++ [.extended (low m.regs.dx) bytes true] → packet = m.dap) ↔
            m.RetriesKeep m.blockCount) := by
  induction n with
  | zero => exact fun m h ↦ absurd h (by simp)
  | succ n ih =>
    intro m h
    rw [extRetry_succ]
    rcases hcarry : (m.bios m.reads).carry with - | -
    · rw [if_pos rfl]
      refine ⟨rfl, [], m.dap, ?_, fun q hq ↦ absurd hq List.not_mem_nil,
        ⟨true, List.mem_cons_self⟩, iff_of_true ?_ (retriesKeep_of_ok hcarry _)⟩
      · dsimp only [afterRead]
        rw [hcarry]
        rfl
      · intro drive packet ok hmem
        exact (Request.extended.inj (List.mem_singleton.1 hmem)).2.1
    · rw [if_neg Bool.noConfusion]
      have hnext : ∃ i < n, (m.bios (m.reads + 1 + i)).carry = false :=
        exists_next (by simp [hcarry]) h
      obtain ⟨hret, failed, bytes, htrace, hfailed, ⟨ok, hfirst⟩, hkeep⟩ :=
        ih m.afterFailure.diskReset hnext
      refine ⟨hret, .extended (low m.regs.dx) m.dap false :: .reset m.bootDrive :: failed, bytes,
        ?_, fun q hq ↦ ?_, ⟨false, List.mem_cons_self⟩, ?_⟩
      · rw [htrace]
        simp [diskReset, afterFailure, afterRead, hcarry]
      · rcases List.mem_cons.1 hq with rfl | hq
        · exact Or.inl ⟨_, rfl⟩
        · rcases List.mem_cons.1 hq with rfl | hq
          · exact Or.inr rfl
          · exact hfailed q hq
      · rw [retriesKeep_succ hcarry]
        constructor
        · intro hall
          -- the second try hands over what the first one left
          have hsame : m.afterFailure.dap = m.dap :=
            hall _ _ ok (List.mem_cons_of_mem _ (List.mem_cons_of_mem _ hfirst))
          have hblocks := (dap_afterFailure_iff m).1 hsame
          refine ⟨hblocks, ?_⟩
          rw [← blockCount_afterFailure hblocks]
          refine hkeep.1 fun drive packet ok hmem ↦ ?_
          exact (hall drive packet ok
            (List.mem_cons_of_mem _ (List.mem_cons_of_mem _ hmem))).trans hsame.symm
        · rintro ⟨hblocks, hrest⟩ drive packet ok hmem
          rw [← blockCount_afterFailure hblocks] at hrest
          rcases List.mem_cons.1 hmem with heq | hmem
          · exact (Request.extended.inj heq).2.1
          · rcases List.mem_cons.1 hmem with heq | hmem
            · exact absurd heq (by simp)
            · exact (hkeep.2 hrest drive packet ok hmem).trans ((dap_afterFailure_iff m).2 hblocks)

/-- **The retries of one sector** ask for it until it is read, and change nothing else. -/
theorem innerLoop_spec (n : ℕ) :
    ∀ m : Machine, (∃ i < n, (m.bios (m.reads + i)).carry = false) →
      ∃ failed reads,
        innerLoop n m = (true, { m with
          reads := reads
          trace := (failed ++ [.chs m.bootDrive (low m.regs.eax.lo) m.regs.cx (high m.regs.dx)
            m.regs.es m.regs.bx true]).reverse ++ m.trace }) ∧
        ∀ q ∈ failed, q = .chs m.bootDrive (low m.regs.eax.lo) m.regs.cx (high m.regs.dx)
          m.regs.es m.regs.bx false := by
  induction n with
  | zero => exact fun m h ↦ absurd h (by simp)
  | succ n ih =>
    intro m h
    rw [innerLoop_succ]
    by_cases hcarry : (m.bios m.reads).carry = false
    · rw [if_pos hcarry]
      refine ⟨[], m.reads + 1, ?_, fun q hq ↦ absurd hq List.not_mem_nil⟩
      dsimp only [afterRead]
      rw [hcarry]
      rfl
    · rw [if_neg hcarry]
      obtain ⟨failed, reads, hloop, hfailed⟩ := ih (m.afterRead (.chs m.bootDrive
        (low m.regs.eax.lo) m.regs.cx (high m.regs.dx) m.regs.es m.regs.bx)) (exists_next hcarry h)
      refine ⟨.chs m.bootDrive (low m.regs.eax.lo) m.regs.cx (high m.regs.dx) m.regs.es m.regs.bx
        false :: failed, reads, ?_, fun q hq ↦ ?_⟩
      · rw [hloop]
        have hset : (m.bios m.reads).carry = true := by simpa using hcarry
        simp [afterRead, hset]
      · rcases List.mem_cons.1 hq with rfl | hq
        · rfl
        · exact hfailed q hq

/-! ### Cylinder, head and sector -/

/-- A division of a single word by a number that is not zero. -/
theorem div_zero_left {ax r : UInt16} (hr : 0 < r.toNat) :
    div 0 ax r = some (UInt16.ofNat (ax.toNat / r.toNat), UInt16.ofNat (ax.toNat % r.toNat)) := by
  have hax := ax.toNat_lt
  have hle := Nat.div_le_self ax.toNat r.toNat
  have hne : ¬ (r = 0 ∨ (0 * 65536 + ax.toNat) / r.toNat ≥ 65536) := by
    rintro (hzero | hge)
    · rw [hzero] at hr
      exact absurd hr (by decide)
    · rw [Nat.zero_mul, Nat.zero_add] at hge
      omega
  rw [div]
  rw [UInt16.toNat_zero, if_neg hne, Nat.zero_mul, Nat.zero_add]

/-- The sector number and the upper bits of the cylinder share a byte. -/
theorem toNat_or_shiftLeft : ∀ s < 64, ∀ h < 4,
    (UInt8.ofNat s ||| UInt8.ofNat h <<< 6).toNat = s + 64 * h := by
  decide +kernel

theorem ofNat_of_toNat_eq {b : UInt8} {n : ℕ} (h : b.toNat = n) : b = UInt8.ofNat n := by
  rw [← h, UInt8.ofNat_toNat]

theorem sectorByte_eq {w : UInt16} (hw : w.toNat < 63) :
    (low w + 1) &&& 0x3F = UInt8.ofNat (w.toNat + 1) := by
  refine ofNat_of_toNat_eq ?_
  rw [Words.toNat_and_mask8 (k := 6) rfl, UInt8.toNat_add, toNat_low, UInt8.toNat_one]
  omega

theorem cylinderByte_eq {w : UInt16} (hw : w.toNat < 1024) :
    high w &&& 0x03 = UInt8.ofNat (w.toNat / 256) := by
  refine ofNat_of_toNat_eq ?_
  rw [Words.toNat_and_mask8 (k := 2) rfl, toNat_high]
  omega

/-- A number put together again from its cylinder, head and sector. -/
theorem chs_add_mul {n spt heads : ℕ} :
    (n / (heads * spt) * heads + n / spt % heads) * spt + n % spt = n := by
  have hcylinder : n / (heads * spt) = n / spt / heads := by
    rw [Nat.mul_comm, Nat.div_div_eq_div_mul]
  rw [hcylinder, Nat.div_add_mod', Nat.div_add_mod']

/-- The three divisions of `lba_to_chs`: no divisor is zero, and nothing is cut off. -/
theorem divisions (ax : UInt16) {spt heads : UInt16} (hspt : 1 ≤ spt.toNat ∧ spt.toNat ≤ 63)
    (hheads : 1 ≤ heads.toNat ∧ heads.toNat ≤ 256) :
    ∃ cylinder rest track sector quotient head : UInt16,
      div 0 ax (heads * spt) = some (cylinder, rest) ∧ div 0 ax spt = some (track, sector) ∧
      div 0 track heads = some (quotient, head) ∧
      cylinder.toNat = ax.toNat / (heads.toNat * spt.toNat) ∧
      sector.toNat = ax.toNat % spt.toNat ∧ head.toNat = ax.toNat / spt.toNat % heads.toNat := by
  have hn := ax.toNat_lt
  have hmul : heads.toNat * spt.toNat ≤ 256 * 63 := Nat.mul_le_mul hheads.2 hspt.2
  have hpos : 0 < heads.toNat * spt.toNat := Nat.mul_pos hheads.1 hspt.1
  have hproduct : (heads * spt).toNat = heads.toNat * spt.toNat := by
    rw [UInt16.toNat_mul]
    exact Nat.mod_eq_of_lt (by omega)
  have hword {k : ℕ} (hk : k ≤ ax.toNat) : (UInt16.ofNat k).toNat = k := by
    rw [UInt16.toNat_ofNat']
    exact Nat.mod_eq_of_lt (by omega)
  refine ⟨_, _, _, _, _, _, div_zero_left (hproduct ▸ hpos), div_zero_left hspt.1,
    div_zero_left hheads.1, ?_, hword (Nat.mod_le _ _), ?_⟩
  · rw [hproduct, hword (Nat.div_le_self _ _)]
  · rw [hword (Nat.div_le_self _ _),
      hword ((Nat.mod_le _ _).trans (Nat.div_le_self _ _))]

/-- **`lba_to_chs`** names the sector in `ax`, if its cylinder has a number. -/
theorem lbaToChs_spec {m : Machine}
    (hspt : 1 ≤ m.sectorsPerTrack.toNat ∧ m.sectorsPerTrack.toNat ≤ 63)
    (hheads : 1 ≤ m.heads.toNat ∧ m.heads.toNat ≤ 256)
    (hcylinder : m.regs.eax.lo.toNat / (m.heads.toNat * m.sectorsPerTrack.toNat) < 1024) :
    ∃ cx dx, m.lbaToChs = some { m with regs := { m.regs with cx := cx, dx := dx } } ∧
      chsSector m.sectorsPerTrack.toNat m.heads.toNat cx (high dx) = m.regs.eax.lo.toNat := by
  obtain ⟨cylinder, rest, track, sector, quotient, head, hdivc, hdivt, hdivh, hcyl, hsec, hhead⟩ :=
    divisions m.regs.eax.lo hspt hheads
  rw [lbaToChs]
  simp only [hdivc, hdivt, hdivh, Option.bind_eq_bind, Option.bind_some]
  refine ⟨_, _, rfl, ?_⟩
  have hsectorlt := Nat.mod_lt m.regs.eax.lo.toNat hspt.1
  have hheadlt := Nat.mod_lt (m.regs.eax.lo.toNat / m.sectorsPerTrack.toNat) hheads.1
  have hdh : (low head).toNat = head.toNat := by
    rw [toNat_low]
    omega
  have hcl := toNat_or_shiftLeft (sector.toNat + 1) (by omega) (cylinder.toNat / 256) (by omega)
  rw [sectorByte_eq (by omega), cylinderByte_eq (by omega), chsSector, high_pack, low_pack,
    high_pack, toNat_low, hcl, hdh]
  have hch : cylinder.toNat % 256 + 256 * ((sector.toNat + 1 + 64 * (cylinder.toNat / 256)) / 64) =
      cylinder.toNat := by omega
  have hnumber : (sector.toNat + 1 + 64 * (cylinder.toNat / 256)) % 64 - 1 = sector.toNat := by
    omega
  rw [hch, hnumber, hcyl, hsec, hhead]
  exact chs_add_mul

/-! ### One sector at a time -/

theorem toNat_lo (r : Reg32) : r.lo.toNat = r.toNat % 65536 := by
  have hlt := r.lo.toNat_lt
  rw [Reg32.toNat]
  omega

theorem toNat_ofNat {n : ℕ} (hn : n < 2 ^ 32) : (Reg32.ofNat n).toNat = n := by
  rw [Reg32.toNat, Reg32.ofNat, UInt16.toNat_ofNat', UInt16.toNat_ofNat']
  omega

/-- What the path over cylinders, heads and sectors asks for: sixteen bits of the sector number, and
a segment that moves on by 32. -/
def chsTransfers (drive : UInt8) (lba es bx count : ℕ) : List Transfer :=
  (List.range count).map fun k ↦ ⟨drive, (lba + k) % 65536, linear ((es + 32 * k) % 65536) bx⟩

theorem chsTransfers_succ (drive : UInt8) (lba es bx count : ℕ) :
    chsTransfers drive lba es bx (count + 1) =
      ⟨drive, lba % 65536, linear (es % 65536) bx⟩ ::
        chsTransfers drive (lba + 1) ((es + 32) % 65536) bx count := by
  rw [chsTransfers, chsTransfers, List.range_succ_eq_map, List.map_cons, List.map_map]
  refine congrArg₂ List.cons rfl (List.map_congr_left fun k _ ↦ ?_)
  dsimp only [Function.comp_apply]
  rw [show lba + (k + 1) = lba + 1 + k by omega,
    show (es + 32 * (k + 1)) % 65536 = ((es + 32) % 65536 + 32 * k) % 65536 by omega]

/-- **One turn of the loop** reads the sector in `esi` to `es:bx`. -/
theorem turn_spec {m : Machine} (hbios : m.Succeeds)
    (hspt : 1 ≤ m.sectorsPerTrack.toNat ∧ m.sectorsPerTrack.toNat ≤ 63)
    (hheads : 1 ≤ m.heads.toNat ∧ m.heads.toNat ≤ 256)
    (hlba : m.regs.esi.toNat < 1024 * (m.heads.toNat * m.sectorsPerTrack.toNat)) (fuel : ℕ) :
    ∃ requests eax cx dx reads,
      Asks m.sectorsPerTrack.toNat m.heads.toNat
        [⟨m.bootDrive, m.regs.esi.toNat % 65536, linear m.regs.es.toNat m.regs.bx.toNat⟩]
        requests ∧
      (∀ drive bytes ok, .extended drive bytes ok ∉ requests) ∧
      outerLoop (fuel + 1) m =
        if m.regs.di - 1 = 0 then
          (.returned, { m with
            regs := { m.regs with eax := eax, cx := cx, dx := dx, di := m.regs.di - 1 }
            reads := reads
            trace := requests.reverse ++ m.trace })
        else outerLoop fuel { m with
          regs := { m.regs with
            eax := { eax with lo := m.regs.es + 32 }
            esi := .ofNat (m.regs.esi.toNat + 1)
            cx := cx
            dx := dx
            di := m.regs.di - 1
            es := m.regs.es + 32 }
          reads := reads
          trace := requests.reverse ++ m.trace } := by
  have hpos : 0 < m.heads.toNat * m.sectorsPerTrack.toNat := Nat.mul_pos hheads.1 hspt.1
  obtain ⟨cx, dx, hchs, hsector⟩ := lbaToChs_spec
    (m := { m with regs := { m.regs with eax := m.regs.esi } }) hspt hheads (by
      refine Nat.div_lt_of_lt_mul ?_
      dsimp only
      rw [toNat_lo, Nat.mul_comm _ 1024]
      exact Nat.lt_of_le_of_lt (Nat.mod_le _ _) hlba)
  dsimp only at hchs hsector
  obtain ⟨failed, reads, hloop, hfailed⟩ := innerLoop_spec 3 { m with
    regs := { m.regs with
      eax := { m.regs.esi with lo := pack 0x02 1 }, cx := cx, dx := dx, di := 3 } } (hbios m.reads)
  dsimp only at hloop hfailed
  rw [low_pack] at hloop hfailed
  have htransfers (ok : Bool) :
      (Request.chs m.bootDrive 1 cx (high dx) m.regs.es m.regs.bx ok).transfers
      m.sectorsPerTrack.toNat m.heads.toNat =
        [⟨m.bootDrive, m.regs.esi.toNat % 65536, linear m.regs.es.toNat m.regs.bx.toNat⟩] := by
    rw [Request.transfers, hsector, toNat_lo]
    rfl
  refine ⟨failed ++ [.chs m.bootDrive 1 cx (high dx) m.regs.es m.regs.bx true],
    { m.regs.esi with lo := pack 0x02 1 }, cx, dx, reads, ?_, ?_, ?_⟩
  · rw [← htransfers true]
    refine Asks.of_retries rfl fun q hq ↦ ?_
    rw [hfailed q hq]
    exact ⟨rfl, fun t ht ↦ by rwa [htransfers] at ht ⊢⟩
  · intro drive bytes ok hmem
    rcases List.mem_append.1 hmem with hmem | hmem
    · exact absurd (hfailed _ hmem) (by simp)
    · exact absurd (List.mem_singleton.1 hmem) (by simp)
  · rw [outerLoop, hchs]
    dsimp only
    rw [hloop]

/-- **The loop over the sectors.** -/
theorem outerLoop_spec (count : ℕ) :
    ∀ (fuel : ℕ) (m : Machine), count < fuel → m.regs.di.toNat = count + 1 → m.Succeeds →
      (1 ≤ m.sectorsPerTrack.toNat ∧ m.sectorsPerTrack.toNat ≤ 63) →
      (1 ≤ m.heads.toNat ∧ m.heads.toNat ≤ 256) →
      m.regs.esi.toNat + (count + 1) ≤ 1024 * (m.heads.toNat * m.sectorsPerTrack.toNat) →
      (outerLoop fuel m).1 = .returned ∧
        ∃ requests, (outerLoop fuel m).2.trace = requests.reverse ++ m.trace ∧
          Asks m.sectorsPerTrack.toNat m.heads.toNat
            (chsTransfers m.bootDrive m.regs.esi.toNat m.regs.es.toNat m.regs.bx.toNat (count + 1))
            requests ∧
          ∀ drive bytes ok, .extended drive bytes ok ∉ requests := by
  induction count with
  | zero =>
    intro fuel m hfuel hdi hbios hspt hheads hlba
    obtain ⟨fuel, rfl⟩ := Nat.exists_eq_succ_of_ne_zero (Nat.ne_of_gt hfuel)
    obtain ⟨requests, eax, cx, dx, reads, hasks, hnone, hturn⟩ :=
      turn_spec hbios hspt hheads (by omega) fuel
    have hlast : m.regs.di - 1 = 0 := by
      rw [← UInt16.toNat_inj, UInt16.toNat_sub, hdi]
      rfl
    rw [hturn, if_pos hlast]
    refine ⟨rfl, requests, rfl, ?_, hnone⟩
    rw [chsTransfers_succ, Nat.mod_eq_of_lt m.regs.es.toNat_lt]
    exact hasks
  | succ count ih =>
    intro fuel m hfuel hdi hbios hspt hheads hlba
    obtain ⟨fuel, rfl⟩ := Nat.exists_eq_succ_of_ne_zero (Nat.ne_of_gt (Nat.zero_lt_of_lt hfuel))
    obtain ⟨requests, eax, cx, dx, reads, hasks, hnone, hturn⟩ :=
      turn_spec hbios hspt hheads (by omega) fuel
    have hlt := m.regs.di.toNat_lt
    have hleft : (m.regs.di - 1).toNat = count + 1 := by
      rw [UInt16.toNat_sub, hdi, UInt16.toNat_one]
      omega
    have hmore : m.regs.di - 1 ≠ 0 := by
      intro hzero
      rw [hzero] at hleft
      exact absurd hleft (by simp)
    rw [hturn, if_neg hmore]
    have hmul : m.heads.toNat * m.sectorsPerTrack.toNat ≤ 256 * 63 := Nat.mul_le_mul hheads.2 hspt.2
    have hesi : (Reg32.ofNat (m.regs.esi.toNat + 1)).toNat = m.regs.esi.toNat + 1 :=
      toNat_ofNat (by omega)
    obtain ⟨hret, rest, htrace, hrest, hnone'⟩ := ih fuel { m with
      regs := { m.regs with
        eax := { eax with lo := m.regs.es + 32 }
        esi := .ofNat (m.regs.esi.toNat + 1)
        cx := cx
        dx := dx
        di := m.regs.di - 1
        es := m.regs.es + 32 }
      reads := reads
      trace := requests.reverse ++ m.trace } (by omega) hleft hbios hspt hheads (by
        dsimp only
        rw [hesi]
        omega)
    refine ⟨hret, requests ++ rest, ?_, ?_, ?_⟩
    · rw [htrace, List.reverse_append, List.append_assoc]
    · dsimp only at hrest
      rw [hesi, UInt16.toNat_add] at hrest
      rw [chsTransfers_succ, Nat.mod_eq_of_lt m.regs.es.toNat_lt]
      exact hasks.append hrest
    · intro drive bytes ok hmem
      rcases List.mem_append.1 hmem with hmem | hmem
      · exact hnone drive bytes ok hmem
      · exact hnone' drive bytes ok hmem

/-! ### One packet -/

/-- The packet that is handed over: some of its bytes are never stored. -/
def handedOver (m : Machine) : List UInt8 :=
  [16, m.extensionDap 1, low m.regs.cx, m.extensionDap 3, low m.regs.bx, high m.regs.bx,
    low m.regs.es, high m.regs.es, low m.regs.eax.lo, high m.regs.eax.lo, low m.regs.eax.hi,
    high m.regs.eax.hi, m.extensionDap 12, m.extensionDap 13, m.extensionDap 14, m.extensionDap 15]

theorem packet_fillDap (m : Machine) :
    (List.range 16).map m.fillDap = m.handedOver := by
  have hrange (f : ℕ → UInt8) : (List.range 16).map f =
      [f 0, f 1, f 2, f 3, f 4, f 5, f 6, f 7, f 8, f 9, f 10, f 11, f 12, f 13, f 14, f 15] := rfl
  rw [hrange]
  simp [fillDap, storeByte, storeWord, storeDword, handedOver]

/-- The machine with the packet filled in, as the first try finds it. -/
def filled (m : Machine) : Machine :=
  { m with
    regs := { m.regs with eax := { m.regs.eax with lo := pack 0x42 (low m.regs.eax.lo) } }
    extensionDap := m.fillDap }

theorem extensions_eq (m : Machine) : m.extensions = extRetry 3 m.filled := by
  rw [extensions, filled]

theorem Succeeds.filled {m : Machine} (h : m.Succeeds) : m.filled.Succeeds := by
  intro k
  dsimp only [Machine.filled]
  exact h k

theorem retriesKeep_filled (m : Machine) (count : UInt16) :
    m.filled.RetriesKeep count ↔ m.RetriesKeep count := by
  rw [RetriesKeep, RetriesKeep]
  dsimp only [filled]
  exact Iff.rfl

theorem dap_filled (m : Machine) : m.filled.dap = m.handedOver := packet_fillDap m

theorem blockCount_filled (m : Machine) :
    m.filled.blockCount = pack (m.extensionDap 3) (low m.regs.cx) := by
  simp [blockCount, filled, fillDap, storeByte, storeWord, storeDword]

theorem toNat_low_add_high (w : UInt16) : (low w).toNat + 256 * (high w).toNat = w.toNat := by
  rw [toNat_low, toNat_high]
  omega

/-- What a packet with the defined fields asks for. -/
theorem transfers_packet (drive count : UInt8) (bx es : UInt16) (lba : Reg32) (ok : Bool)
    (spt heads : ℕ) :
    (Request.extended drive (packet count bx es lba) ok).transfers spt heads =
      (List.range count.toNat).map fun k ↦
        ⟨drive, lba.toNat + k, linear es.toNat bx.toNat + 512 * k⟩ := by
  have hbx := toNat_low_add_high bx
  have hes := toNat_low_add_high es
  have hlo := toNat_low_add_high lba.lo
  have hhi := toNat_low_add_high lba.hi
  have hlba : (low lba.lo).toNat + 256 * ((high lba.lo).toNat + 256 * ((low lba.hi).toNat +
      256 * ((high lba.hi).toNat + 0))) = lba.toNat := by
    rw [Reg32.toNat]
    omega
  rw [Request.transfers, packet]
  simp only [List.drop_succ_cons, List.drop_zero, List.take_succ_cons, List.take_zero, littleEndian,
    List.foldr_cons, List.foldr_nil, UInt8.toNat_zero, Nat.mul_zero, Nat.add_zero] at hlba ⊢
  rw [hlba, hes, hbx]

/-! ### Exactly when -/

/-- The bytes of the packet that the code never stores are zero. -/
def PacketClear (m : Machine) : Prop :=
  m.extensionDap 1 = 0 ∧ m.extensionDap 3 = 0 ∧ m.extensionDap 12 = 0 ∧ m.extensionDap 13 = 0 ∧
    m.extensionDap 14 = 0 ∧ m.extensionDap 15 = 0

theorem handedOver_eq_packet_iff (m : Machine) :
    m.handedOver = packet (low m.regs.cx) m.regs.bx m.regs.es m.regs.eax ↔ m.PacketClear := by
  rw [handedOver, packet, PacketClear]
  simp only [List.cons.injEq, true_and, and_true]

/-- On the way out only the registers change. -/
theorem diskRead_of_returned {m : Machine} {path : Exit × Machine}
    (hpath : (if m.diskExtendedPresent = 1 then m.extensions else m.noDiskExtensions) = path)
    (hret : path.1 = .returned) :
    m.diskRead.1 = .returned ∧ m.diskRead.2.trace = path.2.trace := by
  obtain ⟨exit, m'⟩ := path
  obtain rfl : exit = .returned := hret
  rw [diskRead, hpath]
  exact ⟨rfl, rfl⟩

/-- The requests of a run are what its trace has more. -/
theorem readsExactly_of_trace {m : Machine} {requests : List Request}
    (hret : m.diskRead.1 = .returned) (htrace : m.diskRead.2.trace = requests.reverse ++ m.trace) :
    m.ReadsExactly ↔
      Asks m.sectorsPerTrack.toNat m.heads.toNat m.wanted requests ∧
        ∀ drive bytes ok, .extended drive bytes ok ∈ requests →
          bytes = packet (low m.regs.cx) m.regs.bx m.regs.es m.regs.eax := by
  constructor
  · rintro ⟨-, requests', htrace', h⟩
    have hsame := List.append_cancel_right (htrace.symm.trans htrace')
    rwa [← List.reverse_injective hsame] at h
  · exact fun h ↦ ⟨hret, requests, htrace, h⟩

/-- Requests for one packet: what they read. -/
theorem asks_of_same {drive bootDrive : UInt8} {bytes : List UInt8} {failed : List Request}
    (hfailed : ∀ q ∈ failed, (∃ bytes, q = .extended drive bytes false) ∨ q = .reset bootDrive)
    (hsame : ∀ d packet ok, .extended d packet ok ∈ failed ++ [.extended drive bytes true] →
      packet = bytes) (spt heads : ℕ) :
    Asks spt heads ((Request.extended drive bytes true).transfers spt heads)
      (failed ++ [.extended drive bytes true]) := by
  refine Asks.of_retries rfl fun q hq ↦ ?_
  rcases hfailed q hq with ⟨bytes', rfl⟩ | rfl
  · rw [hsame _ _ _ (List.mem_append_left _ hq)]
    exact ⟨rfl, fun t ht ↦ ht⟩
  · exact ⟨rfl, fun t ht ↦ absurd ht List.not_mem_nil⟩

/-- **With the extensions**, the packet must have been clear, and the failed tries must have left
its block count alone. -/
theorem readsExactly_extensions_iff {m : Machine} (hpresent : m.diskExtendedPresent = 1)
    (hbios : m.Succeeds) :
    m.ReadsExactly ↔ m.PacketClear ∧ m.RetriesKeep (pack 0 (low m.regs.cx)) := by
  obtain ⟨hret, failed, bytes, htrace, hfailed, ⟨ok, hfirst⟩, hkeep⟩ :=
    extRetry_spec 3 m.filled (hbios.filled _)
  obtain ⟨hret', htrace'⟩ := diskRead_of_returned ((if_pos hpresent).trans m.extensions_eq) hret
  rw [dap_filled] at hfirst hkeep
  rw [blockCount_filled, retriesKeep_filled] at hkeep
  dsimp only [filled] at htrace hfailed hfirst hkeep
  rw [readsExactly_of_trace hret' (htrace'.trans htrace), ← handedOver_eq_packet_iff]
  constructor
  · rintro ⟨-, hpacket⟩
    have hclear := hpacket _ _ _ hfirst
    have hupper : m.extensionDap 3 = 0 := ((handedOver_eq_packet_iff m).1 hclear).2.1
    rw [hupper] at hkeep
    exact ⟨hclear, hkeep.1 fun drive packet ok h ↦ (hpacket drive packet ok h).trans hclear.symm⟩
  · rintro ⟨hclear, hretries⟩
    have hupper : m.extensionDap 3 = 0 := ((handedOver_eq_packet_iff m).1 hclear).2.1
    rw [hupper] at hkeep
    have hall := hkeep.2 hretries
    rw [hclear] at hall
    have hlast : bytes = packet (low m.regs.cx) m.regs.bx m.regs.es m.regs.eax :=
      hall _ _ _ (List.mem_append_right _ List.mem_cons_self)
    subst hlast
    have hasks := asks_of_same hfailed hall m.sectorsPerTrack.toNat m.heads.toNat
    rw [transfers_packet] at hasks
    exact ⟨hasks, hall⟩

/-- The last of the transfers that were to be asked for tells whether all were. -/
theorem chsTransfers_eq_iff (drive drive' : UInt8) (lba es bx count : ℕ) :
    (chsTransfers drive lba es bx (count + 1) =
      (List.range (count + 1)).map fun k ↦ ⟨drive', lba + k, linear es bx + 512 * k⟩) ↔
      drive = drive' ∧ lba + (count + 1) ≤ 65536 ∧ es + 32 * count < 65536 := by
  rw [chsTransfers, List.map_inj_left]
  constructor
  · intro h
    obtain ⟨hdrive, hlba, haddress⟩ :=
      Transfer.mk.inj (h count (List.mem_range.2 (Nat.lt_succ_self count)))
    rw [linear, linear] at haddress
    refine ⟨hdrive, ?_⟩
    omega
  · rintro ⟨rfl, hlba, hes⟩ k hk
    have hk := List.mem_range.1 hk
    have hlow : (lba + k) % 65536 = lba + k := Nat.mod_eq_of_lt (by omega)
    have haddress : linear ((es + 32 * k) % 65536) bx = linear es bx + 512 * k := by
      rw [linear, linear]
      omega
    rw [hlow, haddress]

/-- **Without them**, the drive must be the one in memory, the sector numbers must fit a word and
the segment must not wrap. -/
theorem readsExactly_noDiskExtensions_iff {m : Machine} (habsent : m.diskExtendedPresent ≠ 1)
    (h : m.Addressable) (hbios : m.Succeeds) :
    m.ReadsExactly ↔
      m.bootDrive = low m.regs.dx ∧ m.regs.eax.toNat + (low m.regs.cx).toNat ≤ 65536 ∧
        m.regs.es.toNat + 32 * ((low m.regs.cx).toNat - 1) < 65536 := by
  obtain ⟨count, hcount : (low m.regs.cx).toNat = count + 1⟩ :=
    Nat.exists_eq_succ_of_ne_zero (Nat.ne_of_gt h.count.1)
  have hle := h.count.2
  have hdi : (pack 0 (low m.regs.cx)).toNat = count + 1 := by
    rw [toNat_pack, hcount]
    simp
  obtain ⟨hret, requests, htrace, hasks, hnone⟩ := outerLoop_spec count 65536 { m with
    regs := { m.regs with
      esi := m.regs.eax
      cx := pack 0 (low m.regs.cx)
      di := pack 0 (low m.regs.cx) } } (by omega) hdi hbios h.sectorsPerTrack h.heads (by
        rw [← hcount]
        exact h.cylinders)
  obtain ⟨hret', htrace'⟩ := diskRead_of_returned
    ((if_neg habsent).trans (by rw [noDiskExtensions])) hret
  rw [readsExactly_of_trace hret' (htrace'.trans htrace), hcount,
    show count + 1 - 1 = count by omega, ← chsTransfers_eq_iff _ _ _ _ m.regs.bx.toNat]
  dsimp only at hasks
  constructor
  · intro hexact
    rw [← hasks.reads, hexact.1.reads, wanted, hcount]
  · intro hsame
    refine ⟨?_, fun drive bytes ok hmem ↦ absurd hmem (hnone drive bytes ok)⟩
    rw [wanted, hcount, ← hsame]
    exact hasks

/-- The machine as it reads one sector of a floppy disk to `0000:7E00`: its memory is filled with
`fill`, and the BIOS fails the first `failures` tries without transferring anything. -/
def reading (fill : UInt8) (lba : Reg32) (spt heads : UInt16) (failures : ℕ) : Machine where
  regs :=
    { eax := lba, esi := ⟨0, 0⟩, bx := 0x7E00, cx := 1, dx := 0, di := 0, es := 0 }
  bootDrive := 0
  diskExtendedPresent := 0
  sectorsPerTrack := spt
  heads := heads
  extensionDap _ := fill
  bios k := { carry := decide (k < failures), clobber := (0, 0, 0, 0, 0, 0), blocks := 0 }
  reads := 0
  trace := []

/-- Whatever it is asked for, the BIOS of this machine succeeds within three tries. -/
theorem succeeds_reading (fill : UInt8) (lba : Reg32) (spt heads : UInt16) {n : ℕ}
    (hfew : n < 3) : (reading fill lba spt heads n).Succeeds := fun k ↦
  ⟨n, hfew, by simp [reading]⟩

end Machine

end Aidos.Stage1
