import Mathlib.Data.List.Basic
import Aidos.Console.TextView
import Aidos.Library.Numerals

/-!
# Formatted output

`print` and `printf` of `stdio.cpp`, over any device that characters can be sent to. Strings are
read byte by byte up to the zero behind them, and the digit buffer of `%d` and `%x` is sixteen bytes
that are indexed; what reads or writes outside of an object has no result, and neither has an
argument that is not there or not of the type that `va_arg` names.

What should be sent is said without any of this (`render`): the format is cut into pieces, and a
piece that takes an argument takes the one whose number is that of the pieces before it that do.
`printf_renders` is that the two agree for every format and all arguments that match it.
-/

namespace Aidos.Console

open Numerals

/-! ### The code -/

/-- A string, with a zero behind it in memory. -/
structure CString where
  /-- Its characters. -/
  bytes : List UInt8
  /-- None of them is zero. -/
  ne_zero : ∀ c ∈ bytes, c ≠ 0

/-- What there is in memory of a string. -/
def CString.memory (str : CString) : List UInt8 := str.bytes ++ [0]

/-- An argument of `printf`. -/
inductive Arg where
  /-- A `const char*`. -/
  | str (s : CString)
  /-- An `int`. -/
  | int (val : Int32)
  /-- An `unsigned int`. -/
  | uint (val : UInt32)

section Printf

variable {σ : Type*} (putchar : UInt8 → σ → σ)

/-- `print`, from a place in memory on. -/
def print : List UInt8 → σ → Option σ
  | [], _ => none
  | c :: str, dev => if c = 0 then some dev else print str (putchar c dev)

/-- `char buf[16]`. -/
structure Buffer where
  /-- Its bytes. -/
  bytes : List UInt8
  /-- There are sixteen. -/
  length : bytes.length = 16

/-- `*--p = c`: the buffer and `p` afterwards. -/
def pushFront (buf : List UInt8) (p : ℕ) (c : UInt8) : Option (List UInt8 × ℕ) :=
  match p with
  | 0 => none
  | p + 1 => if p < buf.length then some (buf.set p c, p) else none

/-- The `do` loop over the digits. Each time it moves `p`, so that `p` bounds the iterations. -/
def digitLoop (base : UInt32) (digit : UInt32 → UInt8) :
    ℕ → List UInt8 → ℕ → UInt32 → Option (List UInt8 × ℕ)
  | 0, _, _, _ => none
  | fuel + 1, buf, p, val =>
    match pushFront buf p (digit (val % base)) with
    | none => none
    | some (buf, p) =>
      let val := val / base
      if val ≠ 0 then digitLoop base digit fuel buf p val else some (buf, p)

/-- `'0' + d`. -/
def decimalDigit (d : UInt32) : UInt8 := (48 + d).toUInt8

/-- `"0123456789ABCDEF"[d]`. -/
def hexDigit (d : UInt32) : UInt8 :=
  [0x30, 0x31, 0x32, 0x33, 0x34, 0x35, 0x36, 0x37, 0x38, 0x39, 0x41, 0x42, 0x43, 0x44, 0x45,
    0x46].getD d.toNat 0

/-- `case 'd'`. -/
def printDecimal (buf : Buffer) (val : Int32) (dev : σ) : Option σ :=
  let p := 15
  let buf := buf.bytes.set p 0
  let neg := val < 0
  let uval := (if neg then -val else val).toUInt32
  match digitLoop 10 decimalDigit 16 buf p uval with
  | none => none
  | some (buf, p) =>
    if neg then
      match pushFront buf p 45 with
      | none => none
      | some (buf, p) => print putchar (buf.drop p) dev
    else print putchar (buf.drop p) dev

/-- `case 'x'`. -/
def printHex (buf : Buffer) (val : UInt32) (dev : σ) : Option σ :=
  let p := 15
  let buf := buf.bytes.set p 0
  match digitLoop 16 hexDigit 16 buf p val with
  | none => none
  | some (buf, p) => print putchar (buf.drop p) dev

/-- The `switch` on the character behind `%`: the arguments that are left, and the device. -/
def conversion (buf : Buffer) (c : UInt8) (args : List Arg) (dev : σ) : Option (List Arg × σ) :=
  if c = 115 then
    match args with
    | .str s :: args => (print putchar s.memory dev).map (args, ·)
    | _ => none
  else if c = 100 then
    match args with
    | .int val :: args => (printDecimal putchar buf val dev).map (args, ·)
    | _ => none
  else if c = 120 then
    match args with
    | .uint val :: args => (printHex putchar buf val dev).map (args, ·)
    | _ => none
  else if c = 99 then
    match args with
    | .int val :: args => some (args, putchar val.toUInt32.toUInt8 dev)
    | _ => none
  else some (args, putchar c (putchar 37 dev))

/-- `printf`, from a place in the format on. `buf` is what the stack holds. -/
def printf (buf : Buffer) : List UInt8 → List Arg → σ → Option σ
  | [], _, _ => none
  | [c], _, dev => if c = 0 then some dev else none
  | c :: c' :: fmt, args, dev =>
    if c = 0 then some dev
    else if c = 37 ∧ c' ≠ 0 then
      match conversion putchar buf c' args dev with
      | none => none
      | some (args, dev) => printf buf fmt args dev
    else printf buf (c' :: fmt) args (putchar c dev)

end Printf

/-! ### What should be sent -/

/-- A piece of a format. -/
inductive Piece where
  /-- A character that stands for itself. -/
  | char (c : UInt8)
  /-- `%s`. -/
  | str
  /-- `%d`. -/
  | dec
  /-- `%x`. -/
  | hex
  /-- `%c`. -/
  | chr
  deriving DecidableEq

/-- What a character behind `%` asks for. -/
def directive (c : UInt8) : Option Piece :=
  if c = 115 then some .str else if c = 100 then some .dec else if c = 120 then some .hex
  else if c = 99 then some .chr else none

/-- The pieces of a format. -/
def pieces : List UInt8 → List Piece
  | [] => []
  | [c] => [.char c]
  | c :: c' :: fmt =>
    if c = 37 then
      match directive c' with
      | some piece => piece :: pieces fmt
      | none => .char 37 :: .char c' :: pieces fmt
    else .char c :: pieces (c' :: fmt)

/-- The piece takes an argument. -/
def Piece.isDirective : Piece → Bool
  | .char _ => false
  | _ => true

/-- A digit below sixteen, as a character. -/
def digitChar (d : ℕ) : UInt8 := UInt8.ofNat (if d < 10 then 48 + d else 55 + d)

/-- The decimal numeral of an integer. -/
def decimal (n : ℤ) : List UInt8 :=
  (if n < 0 then [45] else []) ++ (numeral 10 n.natAbs).map digitChar

/-- The hexadecimal numeral of a number. -/
def hexadecimal (n : ℕ) : List UInt8 := (numeral 16 n).map digitChar

/-- The text of a piece, given its argument. -/
def Piece.text : Piece → Option Arg → List UInt8
  | .char c, _ => [c]
  | .str, some (.str s) => s.bytes
  | .dec, some (.int val) => decimal val.toInt
  | .hex, some (.uint val) => hexadecimal val.toNat
  | .chr, some (.int val) => [val.toUInt32.toUInt8]
  | _, _ => []

/-- An argument of the type that a piece takes. -/
inductive Piece.Takes : Piece → Arg → Prop
  /-- `%s` takes a string. -/
  | str (s : CString) : Takes .str (.str s)
  /-- `%d` takes an `int`. -/
  | dec (val : Int32) : Takes .dec (.int val)
  /-- `%x` takes an `unsigned int`. -/
  | hex (val : UInt32) : Takes .hex (.uint val)
  /-- `%c` takes a character, as an `int`. -/
  | chr (val : Int32) : Takes .chr (.int val)

/-- How many pieces before the `i`-th take an argument. -/
def argIndex (ps : List Piece) (i : ℕ) : ℕ := ((ps.take i).filter Piece.isDirective).length

/-- The text of the pieces: each with the argument whose number is that of the directives before it.
-/
def renderPieces (ps : List Piece) (args : List Arg) : List UInt8 :=
  (List.range ps.length).flatMap fun i ↦
    match ps[i]? with
    | some piece => piece.text args[argIndex ps i]?
    | none => []

/-- **The reference rendering** of a format with its arguments. -/
def render (fmt : CString) (args : List Arg) : List UInt8 := renderPieces (pieces fmt.bytes) args

/-- Every directive has an argument of its type: the `k`-th directive the `k`-th. -/
def Matches (ps : List Piece) (args : List Arg) : Prop :=
  ∀ (k : ℕ) (piece : Piece), (ps.filter Piece.isDirective)[k]? = some piece →
    ∃ arg : Arg, args[k]? = some arg ∧ piece.Takes arg

/-! ### Reading numerals -/

/-- The value of a digit. -/
def digitValue (c : UInt8) : Option ℕ :=
  if 48 ≤ c ∧ c ≤ 57 then some (c.toNat - 48)
  else if 65 ≤ c ∧ c ≤ 70 then some (c.toNat - 55) else none

/-- The number that digits spell in a base, behind a number. -/
def readDigits (base : ℕ) : ℕ → List UInt8 → Option ℕ
  | n, [] => some n
  | n, c :: text =>
    match digitValue c with
    | some d => if d < base then readDigits base (base * n + d) text else none
    | none => none

/-- The number that a text spells in a base: there is a digit at least. -/
def readNumber (base : ℕ) (text : List UInt8) : Option ℕ :=
  if text = [] then none else readDigits base 0 text

/-- The integer that a text spells in decimal. -/
def readDecimal : List UInt8 → Option ℤ
  | 45 :: text => (readNumber 10 text).map fun n : ℕ ↦ -(n : ℤ)
  | text => (readNumber 10 text).map fun n : ℕ ↦ (n : ℤ)

/-- A text is read as `n`, and no shorter one is. -/
def Spells {α : Type*} (read : List UInt8 → Option α) (text : List UInt8) (n : α) : Prop :=
  read text = some n ∧ ∀ text', read text' = some n → text.length ≤ text'.length

/-! ### What is sent -/

section Proofs

variable {σ : Type*} (putchar : UInt8 → σ → σ)

/-- The device after it has been sent a text. -/
def send (text : List UInt8) (dev : σ) : σ := text.foldl (fun dev c ↦ putchar c dev) dev

theorem send_append (text text' : List UInt8) (dev : σ) :
    send putchar (text ++ text') dev = send putchar text' (send putchar text dev) :=
  List.foldl_append

/-- A string is sent up to the zero behind it. -/
theorem print_eq {text rest : List UInt8} (h : ∀ c ∈ text, c ≠ 0) (dev : σ) :
    print putchar (text ++ 0 :: rest) dev = some (send putchar text dev) := by
  induction text generalizing dev with
  | nil => rfl
  | cons c text ih =>
    rw [List.cons_append, print, if_neg (h c List.mem_cons_self)]
    exact ih (fun c' hc' ↦ h c' (List.mem_cons_of_mem c hc')) (putchar c dev)

theorem print_memory (s : CString) (dev : σ) :
    print putchar s.memory dev = some (send putchar s.bytes dev) :=
  print_eq putchar s.ne_zero dev

/-! ### The digit buffer -/

theorem drop_set_self {buf : List UInt8} {p : ℕ} (h : p < buf.length) (c : UInt8) :
    (buf.set p c).drop p = c :: buf.drop (p + 1) := by
  rw [List.drop_eq_getElem_cons (by rw [List.length_set]; exact h), List.getElem_set_self,
    List.drop_set_of_lt (Nat.lt_succ_self p)]

theorem pushFront_succ {buf : List UInt8} {p : ℕ} (h : p < buf.length) (c : UInt8) :
    pushFront buf (p + 1) c = some (buf.set p c, p) := if_pos h

/-- **The digits go in front of what the buffer holds from `p` on**, when there is room for them. -/
theorem digitLoop_spec {base : UInt32} {digit : UInt32 → UInt8} (hbase : 1 < base.toNat)
    (hdigit : ∀ d : UInt32, d.toNat < base.toNat → digit d = digitChar d.toNat) (fuel : ℕ) :
    ∀ (buf : List UInt8) (p : ℕ) (val : UInt32), p ≤ buf.length →
      (numeral base.toNat val.toNat).length ≤ p →
      (numeral base.toNat val.toNat).length ≤ fuel →
      ∃ buf' p', digitLoop base digit fuel buf p val = some (buf', p') ∧
        p' + (numeral base.toNat val.toNat).length = p ∧ buf'.length = buf.length ∧
        buf'.drop p' = (numeral base.toNat val.toNat).map digitChar ++ buf.drop p := by
  induction fuel with
  | zero =>
    intro buf p val _ _ hfuel
    have hpos : 0 < (numeral base.toNat val.toNat).length := length_numeral_pos
    exact absurd hfuel (by omega)
  | succ fuel ih =>
    intro buf p val hp hroom hfuel
    have hpos : 0 < (numeral base.toNat val.toNat).length := length_numeral_pos
    obtain ⟨p, rfl⟩ := Nat.exists_eq_succ_of_ne_zero (by omega : p ≠ 0)
    have hrem : (val % base).toNat = val.toNat % base.toNat := UInt32.toNat_mod _ _
    have hchar : digit (val % base) = digitChar (val.toNat % base.toNat) := by
      rw [hdigit _ (by rw [hrem]; exact Nat.mod_lt _ (by omega)), hrem]
    rw [digitLoop, pushFront_succ hp]
    dsimp only
    rcases Nat.lt_or_ge val.toNat base.toNat with hlt | hge
    · have hzero : val / base = 0 := UInt32.toNat_inj.1 (by
        rw [UInt32.toNat_div, Nat.div_eq_of_lt hlt, UInt32.toNat_zero])
      rw [if_neg (not_not.2 hzero), numeral_of_lt hlt]
      refine ⟨_, _, rfl, rfl, List.length_set, ?_⟩
      rw [drop_set_self hp, hchar, Nat.mod_eq_of_lt hlt]
      rfl
    · have hquot : (val / base).toNat = val.toNat / base.toNat := UInt32.toNat_div _ _
      have hne : val / base ≠ 0 := fun hzero ↦ by
        have hdiv := Nat.div_pos hge (by omega)
        rw [← hquot, hzero, UInt32.toNat_zero] at hdiv
        omega
      have hnumeral := numeral_of_le hbase hge
      rw [← hquot] at hnumeral
      have hlen := congrArg List.length hnumeral
      rw [List.length_append, List.length_singleton] at hlen
      obtain ⟨buf', p', hloop, hp', hlength, hdrop⟩ :=
        ih (buf.set p (digit (val % base))) p (val / base)
          (by rw [List.length_set]; omega) (by omega) (by omega)
      rw [if_pos hne]
      refine ⟨buf', p', hloop, by omega, by rw [hlength, List.length_set], ?_⟩
      rw [hdrop, drop_set_self hp, hchar, hnumeral, List.map_append, List.append_assoc]
      rfl

theorem digitChar_ne_zero {d : ℕ} (h : d < 16) : digitChar d ≠ 0 := by
  have hall : ∀ d < 16, digitChar d ≠ 0 := by decide
  exact hall d h

theorem decimalDigit_eq (d : UInt32) (h : d.toNat < (10 : UInt32).toNat) :
    decimalDigit d = digitChar d.toNat := by
  have hall : ∀ n < 10, decimalDigit (UInt32.ofNat n) = digitChar n := by decide
  rw [← hall d.toNat h, UInt32.ofNat_toNat]

theorem hexDigit_eq (d : UInt32) (h : d.toNat < (16 : UInt32).toNat) :
    hexDigit d = digitChar d.toNat := by
  have hall : ∀ n < 16, hexDigit (UInt32.ofNat n) = digitChar n := by decide
  rw [← hall d.toNat h, UInt32.ofNat_toNat]

/-- The absolute value, as the code takes it: the least integer is its own negative, which is right
without the sign. -/
theorem toNat_abs (val : Int32) :
    (if val < 0 then -val else val).toUInt32.toNat = val.toInt.natAbs := by
  have hnat (x : Int32) : x.toUInt32.toNat = x.toBitVec.toNat := rfl
  have hint : val.toInt = _ := BitVec.toInt_eq_toNat_cond val.toBitVec
  have hsign : val < 0 ↔ val.toInt < 0 := Int32.lt_iff_toInt_lt
  have hlt := val.toBitVec.isLt
  have hneg : (-val).toBitVec.toNat = (2 ^ 32 - val.toBitVec.toNat) % 2 ^ 32 :=
    BitVec.toNat_neg val.toBitVec
  rw [hnat]
  split
  · next h =>
    rw [hsign] at h
    rw [hneg]
    omega
  · next h =>
    rw [hsign] at h
    omega

/-- The buffer before the first digit: there is only the zero. -/
theorem drop_set_15 (buf : Buffer) : (buf.bytes.set 15 0).drop 15 = [0] := by
  have hlen := buf.length
  rw [drop_set_self (by omega), List.drop_eq_nil_of_le (by omega)]

theorem printHex_eq (buf : Buffer) (val : UInt32) (dev : σ) :
    printHex putchar buf val dev = some (send putchar (hexadecimal val.toNat) dev) := by
  have hlen := buf.length
  have hroom : (numeral 16 val.toNat).length ≤ 8 :=
    length_numeral_le (by omega) (by omega) val.toNat_lt
  obtain ⟨buf', p', hloop, -, -, hdrop⟩ := digitLoop_spec (by decide) hexDigit_eq 16
    (buf.bytes.set 15 0) 15 val (by rw [List.length_set]; omega)
    (hroom.trans (by omega)) (hroom.trans (by omega))
  rw [drop_set_15] at hdrop
  simp only [printHex, hloop, hdrop]
  refine print_eq putchar (fun c hc ↦ ?_) dev
  obtain ⟨d, hd, rfl⟩ := List.mem_map.1 hc
  exact digitChar_ne_zero (lt_of_mem_numeral (by omega) hd)

theorem printDecimal_eq (buf : Buffer) (val : Int32) (dev : σ) :
    printDecimal putchar buf val dev = some (send putchar (decimal val.toInt) dev) := by
  have hlen := buf.length
  have habs := toNat_abs val
  have hsmall : val.toInt.natAbs < 10 ^ 10 := by
    rw [← habs]
    exact Nat.lt_trans (UInt32.toNat_lt _) (by decide)
  have hroom : (numeral 10 val.toInt.natAbs).length ≤ 10 :=
    length_numeral_le (by omega) (by omega) hsmall
  obtain ⟨buf', p', hloop, hp', hlength, hdrop⟩ := digitLoop_spec (by decide)
    decimalDigit_eq 16 (buf.bytes.set 15 0) 15
    (if val < 0 then -val else val).toUInt32 (by rw [List.length_set]; omega)
    (by rw [habs]; exact hroom.trans (by omega)) (by rw [habs]; exact hroom.trans (by omega))
  rw [drop_set_15, habs] at hdrop
  rw [habs] at hp'
  rw [List.length_set] at hlength
  have hdigits : ∀ c ∈ (numeral 10 val.toInt.natAbs).map digitChar, c ≠ 0 := by
    intro c hc
    obtain ⟨d, hd, rfl⟩ := List.mem_map.1 hc
    exact digitChar_ne_zero (Nat.lt_trans (lt_of_mem_numeral (by omega) hd) (by omega))
  have hsign : val < 0 ↔ val.toInt < 0 := Int32.lt_iff_toInt_lt
  simp only [printDecimal, hloop]
  rcases Decidable.em (val < 0) with hneg | hpos
  · -- there is room for the sign
    obtain ⟨p', rfl⟩ := Nat.exists_eq_succ_of_ne_zero (by
      have hten : (10 : UInt32).toNat = 10 := rfl
      rw [hten] at hp'
      omega : p' ≠ 0)
    have hin : p' < buf'.length := by omega
    rw [if_pos hneg, pushFront_succ hin]
    dsimp only
    rw [drop_set_self hin, hdrop, decimal, if_pos (hsign.1 hneg)]
    exact print_eq putchar (List.forall_mem_cons.2 ⟨by decide, hdigits⟩) dev
  · rw [if_neg hpos, hdrop, decimal, if_neg fun h ↦ hpos (hsign.2 h), List.nil_append]
    exact print_eq putchar hdigits dev

/-! ### The arguments of the pieces -/

variable {ps : List Piece} {piece : Piece} {args : List Arg}

theorem argIndex_cons_succ (piece : Piece) (ps : List Piece) (i : ℕ) :
    argIndex (piece :: ps) (i + 1) = argIndex ps i + if piece.isDirective then 1 else 0 := by
  rw [argIndex, argIndex, List.take_succ_cons, List.filter_cons]
  split
  · rw [List.length_cons]
  · rw [Nat.add_zero]

/-- The text of the first piece, and what is left for the others. -/
theorem renderPieces_cons (piece : Piece) (ps : List Piece) (args : List Arg) :
    renderPieces (piece :: ps) args =
      piece.text args[0]? ++
        renderPieces ps (args.drop (if piece.isDirective then 1 else 0)) := by
  rw [renderPieces, renderPieces, List.length_cons, List.range_succ_eq_map, List.flatMap_cons,
    List.flatMap_map]
  refine congrArg₂ _ rfl (List.flatMap_congr fun i _ ↦ ?_)
  rw [List.getElem?_cons_succ, argIndex_cons_succ, List.getElem?_drop, Nat.add_comm]

theorem renderPieces_char (c : UInt8) (ps : List Piece) (args : List Arg) :
    renderPieces (.char c :: ps) args = c :: renderPieces ps args :=
  renderPieces_cons (.char c) ps args

theorem renderPieces_directive (h : piece.isDirective = true) (ps : List Piece) (arg : Arg)
    (args : List Arg) :
    renderPieces (piece :: ps) (arg :: args) =
      piece.text (some arg) ++ renderPieces ps args := by
  rw [renderPieces_cons, if_pos h]
  rfl

theorem Matches.char {c : UInt8} (h : Matches (.char c :: ps) args) : Matches ps args := h

/-- A directive takes the first argument, and the others are for the rest. -/
theorem Matches.directive (hpiece : piece.isDirective = true) (h : Matches (piece :: ps) args) :
    ∃ arg args', args = arg :: args' ∧ piece.Takes arg ∧ Matches ps args' := by
  rw [Matches, List.filter_cons_of_pos hpiece] at h
  obtain ⟨arg, harg, htakes⟩ := h 0 piece rfl
  cases args with
  | nil => cases harg
  | cons arg' args' =>
    obtain rfl : arg' = arg := Option.some.inj harg
    exact ⟨arg', args', rfl, htakes, fun k piece' hk ↦ h (k + 1) piece' hk⟩

/-! ### The format -/

theorem isDirective_of_directive {c : UInt8} (h : directive c = some piece) :
    piece.isDirective = true ∧ c ≠ 0 := by
  rw [directive] at h
  split at h
  · next hc => cases h; exact ⟨rfl, by rw [hc]; decide⟩
  split at h
  · next hc => cases h; exact ⟨rfl, by rw [hc]; decide⟩
  split at h
  · next hc => cases h; exact ⟨rfl, by rw [hc]; decide⟩
  split at h
  · next hc => cases h; exact ⟨rfl, by rw [hc]; decide⟩
  · cases h

/-- A directive takes its argument, and sends the text of it. -/
theorem conversion_directive (buf : Buffer) {c : UInt8} (hc : directive c = some piece) {arg : Arg}
    (htakes : piece.Takes arg) (args : List Arg) (dev : σ) :
    conversion putchar buf c (arg :: args) dev =
      some (args, send putchar (piece.text (some arg)) dev) := by
  rw [directive] at hc
  rw [conversion.eq_def]
  split at hc
  · next h115 =>
    cases hc
    cases htakes with
    | str s =>
      rw [if_pos h115]
      exact congrArg (Option.map (args, ·)) (print_memory putchar s dev)
  next h115 =>
  rw [if_neg h115]
  split at hc
  · next h100 =>
    cases hc
    cases htakes with
    | dec val =>
      rw [if_pos h100]
      exact congrArg (Option.map (args, ·)) (printDecimal_eq putchar buf val dev)
  next h100 =>
  rw [if_neg h100]
  split at hc
  · next h120 =>
    cases hc
    cases htakes with
    | hex val =>
      rw [if_pos h120]
      exact congrArg (Option.map (args, ·)) (printHex_eq putchar buf val dev)
  next h120 =>
  rw [if_neg h120]
  split at hc
  · next h99 =>
    cases hc
    cases htakes with
    | chr val => rw [if_pos h99]; rfl
  · cases hc

/-- Any other character is sent behind the `%`. -/
theorem conversion_of_directive_eq_none (buf : Buffer) {c : UInt8} (hc : directive c = none)
    (args : List Arg) (dev : σ) :
    conversion putchar buf c args dev = some (args, send putchar [37, c] dev) := by
  have hnone : c ≠ 115 ∧ c ≠ 100 ∧ c ≠ 120 ∧ c ≠ 99 := by
    refine ⟨?_, ?_, ?_, ?_⟩ <;> rintro rfl <;> exact absurd hc (by decide)
  rw [conversion.eq_def, if_neg hnone.1, if_neg hnone.2.1, if_neg hnone.2.2.1, if_neg hnone.2.2.2]
  rfl

/-- A character that no `%` comes before. -/
theorem printf_char (buf : Buffer) {c c' : UInt8} (hne : c ≠ 0) (h : ¬(c = 37 ∧ c' ≠ 0))
    (fmt : List UInt8) (args : List Arg) (dev : σ) :
    printf putchar buf (c :: c' :: fmt) args dev =
      printf putchar buf (c' :: fmt) args (putchar c dev) := by
  rw [printf, if_neg hne, if_neg h]

/-- A `%` and the character behind it. -/
theorem printf_conversion (buf : Buffer) {c' : UInt8} (hne : c' ≠ 0) {args args' : List Arg}
    {dev dev' : σ} (h : conversion putchar buf c' args dev = some (args', dev'))
    (fmt : List UInt8) :
    printf putchar buf (37 :: c' :: fmt) args dev = printf putchar buf fmt args' dev' := by
  rw [printf, if_neg (by decide), if_pos ⟨rfl, hne⟩, h]

/-- **The loop over the format sends the text of its pieces.** -/
theorem printf_eq (buf : Buffer) (fmt : List UInt8) :
    ∀ (args : List Arg) (dev : σ), (∀ c ∈ fmt, c ≠ 0) → Matches (pieces fmt) args →
      printf putchar buf (fmt ++ [0]) args dev =
        some (send putchar (renderPieces (pieces fmt) args) dev) := by
  induction fmt using pieces.induct with
  | case1 => exact fun args dev _ _ ↦ rfl
  | case2 c =>
    intro args dev hne _
    have hc : c ≠ 0 := hne c List.mem_cons_self
    rw [List.singleton_append, printf_char putchar buf hc fun h ↦ h.2 rfl]
    rfl
  | case3 c' fmt piece hpiece ih =>
    intro args dev hne hmatches
    rw [pieces, if_pos rfl, hpiece] at hmatches ⊢
    obtain ⟨hdirective, hc'⟩ := isDirective_of_directive hpiece
    obtain ⟨arg, args, rfl, htakes, hrest⟩ := hmatches.directive hdirective
    rw [List.cons_append, List.cons_append,
      printf_conversion putchar buf hc' (conversion_directive putchar buf hpiece htakes args dev),
      ih args _ (fun c hc ↦ hne c (List.mem_cons_of_mem _ (List.mem_cons_of_mem _ hc))) hrest,
      renderPieces_directive hdirective, send_append]
  | case4 c' fmt hnone ih =>
    intro args dev hne hmatches
    rw [pieces, if_pos rfl, hnone] at hmatches ⊢
    have hc' : c' ≠ 0 := hne c' (List.mem_cons_of_mem _ List.mem_cons_self)
    rw [List.cons_append, List.cons_append, printf_conversion putchar buf hc'
        (conversion_of_directive_eq_none putchar buf hnone args dev),
      ih args _ (fun c hc ↦ hne c (List.mem_cons_of_mem _ (List.mem_cons_of_mem _ hc)))
        hmatches.char.char, renderPieces_char, renderPieces_char]
    rfl
  | case5 c c' fmt hc37 ih =>
    intro args dev hne hmatches
    rw [pieces, if_neg hc37] at hmatches ⊢
    rw [List.cons_append, List.cons_append,
      printf_char putchar buf (hne c List.mem_cons_self) fun h ↦ hc37 h.1, renderPieces_char,
      ← List.cons_append, ih args _ (fun c hc ↦ hne c (List.mem_cons_of_mem _ hc)) hmatches.char]
    rfl

end Proofs

/-! ### Numerals are read back -/

theorem digitValue_digitChar {d : ℕ} (h : d < 16) : digitValue (digitChar d) = some d := by
  have hall : ∀ d < 16, digitValue (digitChar d) = some d := by decide
  exact hall d h

theorem readDigits_map {base : ℕ} (hbase : base ≤ 16) {digits : List ℕ}
    (h : ∀ d ∈ digits, d < base) (n : ℕ) :
    readDigits base n (digits.map digitChar) = some (digits.foldl (fun n d ↦ base * n + d) n) := by
  induction digits generalizing n with
  | nil => rfl
  | cons d digits ih =>
    have hd : d < base := h d List.mem_cons_self
    rw [List.map_cons, readDigits, digitValue_digitChar (Nat.lt_of_lt_of_le hd hbase)]
    dsimp only
    rw [if_pos hd, ih (fun d' hd' ↦ h d' (List.mem_cons_of_mem d hd')), List.foldl_cons]

theorem readNumber_numeral {base : ℕ} (hone : 1 < base) (hbase : base ≤ 16) (n : ℕ) :
    readNumber base ((numeral base n).map digitChar) = some n := by
  have hne : (numeral base n).map digitChar ≠ [] := by
    rw [ne_eq, List.map_eq_nil_iff]
    exact List.ne_nil_of_length_pos length_numeral_pos
  rw [readNumber, if_neg hne, readDigits_map hbase fun d hd ↦ lt_of_mem_numeral hone hd,
    foldl_numeral]

/-- A text of a given length spells no more than that many digits can. -/
theorem lt_of_readDigits {base : ℕ} {text : List UInt8} {n m k : ℕ} (hn : n < base ^ k)
    (h : readDigits base n text = some m) : m < base ^ (k + text.length) := by
  induction text generalizing n k with
  | nil =>
    obtain rfl : n = m := Option.some.inj h
    exact hn
  | cons c text ih =>
    rw [readDigits] at h
    split at h
    · next d hvalue =>
      split at h
      · next hd =>
        have hnext : base * n + d < base ^ (k + 1) := by
          have hmul : base * (n + 1) ≤ base * base ^ k := Nat.mul_le_mul_left base hn
          rw [Nat.mul_succ] at hmul
          rw [Nat.pow_succ, Nat.mul_comm (base ^ k)]
          omega
        have hlt := ih hnext h
        rw [List.length_cons, Nat.add_comm text.length, ← Nat.add_assoc]
        exact hlt
      · cases h
    · cases h

theorem spells_numeral (base : ℕ) (hone : 1 < base) (hbase : base ≤ 16) (n : ℕ) :
    Spells (readNumber base) ((numeral base n).map digitChar) n := by
  refine ⟨readNumber_numeral hone hbase n, fun text htext ↦ ?_⟩
  rw [readNumber] at htext
  split at htext
  · cases htext
  · next hne =>
    have hlt := lt_of_readDigits (k := 0) (by rw [Nat.pow_zero]; omega) htext
    rw [Nat.zero_add] at hlt
    rw [List.length_map]
    exact length_numeral_le hone (List.length_pos_of_ne_nil hne) hlt

theorem spells_hexadecimal (n : ℕ) : Spells (readNumber 16) (hexadecimal n) n :=
  spells_numeral 16 (by omega) (by omega) n

/-- Without a sign in front. -/
theorem readDecimal_of_ne {text : List UInt8} (h : text.head? ≠ some 45) :
    readDecimal text = (readNumber 10 text).map fun n : ℕ ↦ (n : ℤ) := by
  rw [readDecimal.eq_def]
  split
  · exact absurd rfl h
  · rfl

theorem head_digits_ne (n : ℕ) : ((numeral 10 n).map digitChar).head? ≠ some 45 := by
  intro h
  rw [List.head?_map, Option.map_eq_some_iff] at h
  obtain ⟨d, hd, hchar⟩ := h
  have hall : ∀ d < 10, digitChar d ≠ 45 := by decide
  exact hall d (lt_of_mem_numeral (by omega) (List.mem_of_mem_head? hd)) hchar

theorem spells_decimal (n : ℤ) : Spells readDecimal (decimal n) n := by
  have hdigits := spells_numeral 10 (by omega) (by omega) n.natAbs
  constructor
  · rw [decimal]
    split
    · rw [List.singleton_append, readDecimal, hdigits.1, Option.map_some]
      congr 1
      omega
    · rw [List.nil_append, readDecimal_of_ne (head_digits_ne n.natAbs), hdigits.1, Option.map_some]
      congr 1
      omega
  · intro text htext
    rw [readDecimal.eq_def] at htext
    split at htext
    · next text =>
      obtain ⟨m, hm, hneg⟩ := Option.map_eq_some_iff.1 htext
      have hle := hdigits.2 text (by rw [hm]; congr 1; omega)
      rw [decimal, List.length_append, List.length_cons]
      split
      · rw [List.length_singleton]
        omega
      · rw [List.length_nil]
        omega
    · obtain ⟨m, hm, hpos⟩ := Option.map_eq_some_iff.1 htext
      have hle := hdigits.2 text (by rw [hm]; congr 1; omega)
      rw [decimal, if_neg (by omega), List.nil_append]
      exact hle

/-- **On the screen**: what `printf` prints goes on the page that the console shows. -/
theorem VgaDriver.Shows.printf {p : TextPage UInt8} {d : VgaDriver} (hshows : Shows p d)
    (buf : Buffer) {fmt : CString} {args : List Arg} (h : Matches (pieces fmt.bytes) args) :
    ∃ d', Console.printf (fun c d ↦ d.putchar c) buf fmt.memory args d = some d' ∧
      Shows ((render fmt args).foldl putPage p) d' :=
  ⟨_, printf_eq _ buf fmt.bytes args d fmt.ne_zero h, hshows.foldl_putchar (render fmt args)⟩

/-- **`printf` sends the reference rendering** of every format with arguments that match it, without
indexing anything outside of it; and what it sends for `%d` and `%x` are the shortest texts that are
read as the argument. -/
theorem printf_renders {σ : Type*} (putchar : UInt8 → σ → σ) (buf : Buffer) {fmt : CString}
    {args : List Arg} (h : Matches (pieces fmt.bytes) args) (dev : σ) :
    printf putchar buf fmt.memory args dev = some (send putchar (render fmt args) dev) ∧
      (∀ val : Int32, Spells readDecimal (decimal val.toInt) val.toInt) ∧
      ∀ val : UInt32, Spells (readNumber 16) (hexadecimal val.toNat) val.toNat :=
  ⟨printf_eq putchar buf fmt.bytes args dev fmt.ne_zero h, fun val ↦ spells_decimal val.toInt,
    fun val ↦ spells_hexadecimal val.toNat⟩

/-- `"%d\n"`. -/
def numberLine : CString := ⟨[37, 100, 10], by simp⟩

/-- A buffer of zeros. -/
def zeroBuffer : Buffer := ⟨List.replicate 16 0, rfl⟩

theorem printf_renders_numberLine :
    printf (fun c out ↦ out ++ [c]) zeroBuffer numberLine.memory [.int (-5)] [] =
        some (send (fun c out ↦ out ++ [c]) (render numberLine [.int (-5)]) []) ∧
      (∀ val : Int32, Spells readDecimal (decimal val.toInt) val.toInt) ∧
      ∀ val : UInt32, Spells (readNumber 16) (hexadecimal val.toNat) val.toNat := by
  have hmatches : Matches (pieces numberLine.bytes) [.int (-5)] := by
    intro k piece hk
    match k with
    | 0 =>
      obtain rfl : .dec = piece := Option.some.inj hk
      exact ⟨.int (-5), rfl, .dec (-5)⟩
    | k + 1 => cases hk
  exact printf_renders _ zeroBuffer hmatches []

end Aidos.Console
