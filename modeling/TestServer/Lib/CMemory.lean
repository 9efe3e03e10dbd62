import Mathlib.Data.List.TakeWhile
import Mathlib.Tactic.Ring
import TestServer.Lib.CInt

/-! # Byte memory and the C string functions

    A block of memory is seen as the list of the bytes that may be accessed
    from some address on, lowest address first. Every access is checked: an
    operation answers `none` when it would touch a byte outside the block,
    which is what a C program must never do.

    * `readBytes`, `writeBytes`: checked access to a run of bytes.
    * `toLE`, `ofLE`, `readU32`, `writeU32`, `readInt`, `writeInt`, `readBool`:
      fields, little-endian where they are longer than a byte.
    * `strlen`, `cstr`, `strcpy`, `strncat`, `memcpy`, `memset`, `strncpy`: the
      functions of `string.h` with their documented behaviour on NUL-terminated
      strings.
-/

namespace CMemory

/-- The accessible bytes from an address on, lowest address first. -/
abbrev Mem : Type := List UInt8

/-! ### Runs of bytes -/

/-- The `n` bytes at offset `off`. -/
def readBytes (m : Mem) (off n : Nat) : Option (List UInt8) :=
  if off + n ≤ m.length then some ((m.drop off).take n) else none

/-- Overwrite the bytes at offset `off` with `bs`. -/
def writeBytes (m : Mem) (off : Nat) (bs : List UInt8) : Option Mem :=
  if off + bs.length ≤ m.length then
    some (m.take off ++ bs ++ m.drop (off + bs.length))
  else none

theorem readBytes_eq_some {m : Mem} {off n : Nat} {bs : List UInt8} :
    readBytes m off n = some bs ↔ off + n ≤ m.length ∧ (m.drop off).take n = bs := by
  unfold readBytes
  rw [Option.ite_none_right_eq_some, Option.some.injEq]

/-- Reading no bytes gives none. -/
theorem readBytes_zero {m : Mem} {off : Nat} {bs : List UInt8} (h : readBytes m off 0 = some bs) :
    bs = [] := by
  rw [← (readBytes_eq_some.mp h).2, List.take_zero]

/-- What stands in front of the bytes does not matter. -/
theorem readBytes_append_right {a : Mem} {off : Nat} (h : a.length ≤ off) (b : Mem) (n : Nat) :
    readBytes (a ++ b) off n = readBytes b (off - a.length) n := by
  have hroom : off + n ≤ (a ++ b).length ↔ off - a.length + n ≤ b.length := by
    rw [List.length_append]
    omega
  have hdrop : (a ++ b).drop off = b.drop (off - a.length) := by
    rw [List.drop_append, List.drop_eq_nil_of_le h, List.nil_append]
  unfold readBytes
  simp only [hroom, hdrop]

theorem readBytes_append {a bs c : List UInt8} {off n : Nat}
    (hoff : off = a.length) (hn : n = bs.length) :
    readBytes (a ++ (bs ++ c)) off n = some bs := by
  subst hoff hn
  unfold readBytes
  rw [if_pos (by simp)]
  simp

theorem writeBytes_append {a old bs c : List UInt8} {off : Nat}
    (hoff : off = a.length) (hlen : old.length = bs.length) :
    writeBytes (a ++ (old ++ c)) off bs = some (a ++ (bs ++ c)) := by
  subst hoff
  unfold writeBytes
  rw [if_pos (by simp [hlen])]
  simp [← hlen]

/-- The first `n` bytes of a block, and the others. -/
theorem exists_block {m : Mem} {n : Nat} (h : n ≤ m.length) :
    ∃ a rest : Mem, m = a ++ rest ∧ a.length = n :=
  ⟨m.take n, m.drop n, (List.take_append_drop n m).symm, List.length_take_of_le h⟩

/-- Bytes that do not fit are not written. -/
theorem writeBytes_eq_none {m : Mem} {off : Nat} {bs : List UInt8}
    (h : m.length < off + bs.length) : writeBytes m off bs = none := by
  unfold writeBytes
  rw [if_neg (by omega)]

/-- Writing no bytes changes nothing. -/
theorem writeBytes_nil {m m' : Mem} {off : Nat} (h : writeBytes m off [] = some m') : m' = m := by
  unfold writeBytes at h
  rw [Option.ite_none_right_eq_some] at h
  rw [← Option.some.inj h.2]
  simp

/-- What was written stands behind what stood before it. -/
theorem writeBytes_take {m m' : Mem} {off : Nat} {bs : List UInt8}
    (h : writeBytes m off bs = some m') : m'.take (off + bs.length) = m.take off ++ bs := by
  unfold writeBytes at h
  rw [Option.ite_none_right_eq_some] at h
  obtain ⟨hle, hm⟩ := h
  have hlen : (m.take off ++ bs).length = off + bs.length := by
    rw [List.length_append, List.length_take]
    omega
  rw [← Option.some.inj hm, ← hlen, List.take_left]

theorem writeBytes_length {m m' : Mem} {off : Nat} {bs : List UInt8}
    (h : writeBytes m off bs = some m') : m'.length = m.length := by
  unfold writeBytes at h
  split at h
  · next hle =>
    rw [← Option.some.inj h]
    simp only [List.length_append, List.length_take, List.length_drop]
    omega
  · cases h

/-! ### Little-endian fields -/

/-- The `w` low-order bytes of `n`, least significant byte first. -/
def toLE : Nat → Nat → List UInt8
  | 0, _ => []
  | w + 1, n => UInt8.ofNat n :: toLE w (n / 256)

/-- The number whose bytes, least significant first, are given. -/
def ofLE (bs : List UInt8) : Nat :=
  bs.foldr (fun b n => b.toNat + 256 * n) 0

@[simp] theorem toLE_length (w n : Nat) : (toLE w n).length = w := by
  induction w generalizing n with
  | zero => rfl
  | succ w ih => simp [toLE, ih]

theorem toLE_zero (w : Nat) : toLE w 0 = List.replicate w 0 := by
  induction w with
  | zero => rfl
  | succ w ih => rw [toLE, Nat.zero_div, ih, List.replicate_succ]; rfl

/-- A small number takes one byte. -/
theorem toLE_small {n : Nat} (h : n < 256) (w : Nat) :
    toLE (w + 1) n = UInt8.ofNat n :: List.replicate w 0 := by
  rw [toLE, Nat.div_eq_of_lt h, toLE_zero]

theorem ofLE_toLE (w n : Nat) : ofLE (toLE w n) = n % 256 ^ w := by
  induction w generalizing n with
  | zero => simp [toLE, ofLE, Nat.mod_one]
  | succ w ih =>
    have hcons : ofLE (toLE (w + 1) n) = n % 256 + 256 * ofLE (toLE w (n / 256)) := by
      simp [toLE, ofLE]
    rw [hcons, ih, Nat.pow_succ', Nat.mod_mul]

theorem toLE_ofLE (bs : List UInt8) : toLE bs.length (ofLE bs) = bs := by
  induction bs with
  | nil => rfl
  | cons b bs ih =>
    have hb : b.toNat < 256 := b.toNat_lt
    have hcons : ofLE (b :: bs) = b.toNat + 256 * ofLE bs := rfl
    -- the lowest byte goes off by a division, the others stay
    have hdiv : (b.toNat + 256 * ofLE bs) / 256 = ofLE bs := by omega
    have hhead : UInt8.ofNat (b.toNat + 256 * ofLE bs) = b := by
      apply UInt8.toNat_inj.mp
      simp only [UInt8.toNat_ofNat']
      omega
    simp only [List.length_cons, toLE, hcons, hdiv, hhead, ih]

theorem ofLE_lt (bs : List UInt8) : ofLE bs < 256 ^ bs.length := by
  induction bs with
  | nil => simp [ofLE]
  | cons b bs ih =>
    have hb : b.toNat < 256 := b.toNat_lt
    have hcons : ofLE (b :: bs) = b.toNat + 256 * ofLE bs := rfl
    rw [hcons, List.length_cons, Nat.pow_succ]
    omega

/-- The little-endian 32-bit field at offset `off`. -/
def readU32 (m : Mem) (off : Nat) : Option UInt32 :=
  (readBytes m off 4).map fun bs => UInt32.ofNat (ofLE bs)

/-- Store a 32-bit field in little-endian order at offset `off`. -/
def writeU32 (m : Mem) (off : Nat) (v : UInt32) : Option Mem :=
  writeBytes m off (toLE 4 v.toNat)

theorem readU32_append {a c : List UInt8} {off : Nat} {v : UInt32} (hoff : off = a.length) :
    readU32 (a ++ (toLE 4 v.toNat ++ c)) off = some v := by
  unfold readU32
  rw [readBytes_append hoff (toLE_length 4 v.toNat).symm, Option.map_some, ofLE_toLE]
  congr 1
  apply UInt32.toNat_inj.mp
  have hv : v.toNat < 2 ^ 32 := v.toNat_lt
  rw [UInt32.toNat_ofNat']
  omega

theorem readU32_first (v : UInt32) (c : List UInt8) : readU32 (toLE 4 v.toNat ++ c) 0 = some v :=
  readU32_append (a := []) (c := c) (v := v) rfl

theorem writeU32_append {a old c : List UInt8} {off : Nat} (v : UInt32) (hoff : off = a.length)
    (hold : old.length = 4) :
    writeU32 (a ++ (old ++ c)) off v = some (a ++ (toLE 4 v.toNat ++ c)) :=
  writeBytes_append hoff (by rw [hold, toLE_length])

theorem writeU32_first {old : List UInt8} (v : UInt32) (c : List UInt8) (hold : old.length = 4) :
    writeU32 (old ++ c) 0 v = some (toLE 4 v.toNat ++ c) :=
  writeU32_append (a := []) (c := c) v rfl hold

/-- The `int` at offset `off`. -/
def readInt (m : Mem) (off : Nat) : Option Int :=
  (readBytes m off 4).map fun bs => CInt.signed 32 (ofLE bs)

/-- Store an `int` at offset `off`. -/
def writeInt (m : Mem) (off : Nat) (x : Int) : Option Mem :=
  writeBytes m off (toLE 4 (CInt.unsigned 32 x))

/-- The `bool` at offset `off`; other bytes than 0 and 1 are none. -/
def readBool (m : Mem) (off : Nat) : Option Bool := do
  let b ← m[off]?
  if b = 0 then some false else if b = 1 then some true else none

theorem readBool_append_right {a : Mem} {off : Nat} (h : a.length ≤ off) (b : Mem) :
    readBool (a ++ b) off = readBool b (off - a.length) := by
  unfold readBool
  rw [List.getElem?_append_right h]

theorem readInt_append_right {a : Mem} {off : Nat} (h : a.length ≤ off) (b : Mem) :
    readInt (a ++ b) off = readInt b (off - a.length) := by
  unfold readInt
  rw [readBytes_append_right h]

/-- An `int` that was stored is loaded again. -/
theorem readInt_stored {a c : List UInt8} {off : Nat} {x : Int} (hoff : off = a.length)
    (hlow : -2 ^ 31 ≤ x) (hhigh : x < 2 ^ 31) :
    readInt (a ++ (toLE 4 (CInt.unsigned 32 x) ++ c)) off = some x := by
  have hmod : CInt.unsigned 32 x % 256 ^ 4 = CInt.unsigned 32 x :=
    Nat.mod_eq_of_lt (CInt.unsigned_lt 32 x)
  unfold readInt
  rw [readBytes_append hoff (toLE_length 4 _).symm, Option.map_some, ofLE_toLE, hmod,
    CInt.signed_unsigned (by omega) (by omega)]

theorem readInt_append {a c : List UInt8} {off n : Nat} (hoff : off = a.length) (hn : n < 2 ^ 31) :
    readInt (a ++ (toLE 4 n ++ c)) off = some (n : Int) := by
  have hfield : CInt.unsigned 32 (n : Int) = n := by
    rw [CInt.unsigned_of_range (by omega) (by omega), Int.toNat_natCast]
  have hread := readInt_stored (c := c) (x := n) hoff (by omega) (by omega)
  rwa [hfield] at hread

theorem writeInt_append {a old c : List UInt8} {off n : Nat} (hoff : off = a.length)
    (hold : old.length = 4) (hn : n < 2 ^ 31) :
    writeInt (a ++ (old ++ c)) off n = some (a ++ (toLE 4 n ++ c)) := by
  unfold writeInt
  rw [CInt.unsigned_of_range (by omega) (by omega), Int.toNat_natCast]
  exact writeBytes_append hoff (by rw [hold, toLE_length])

/-! ### Strings -/

/-- The bytes of a `std::string` before its first NUL: what a C function sees of it. -/
def beforeNul (s : List UInt8) : List UInt8 := s.takeWhile (· ≠ 0)

/-- `std::string::c_str`: the bytes of the string followed by a NUL. -/
def c_str (s : List UInt8) : Mem := s ++ [0]

/-- `strlen`: how many bytes precede the first NUL; `none` when the block holds no NUL, where
    C would read on past its end. -/
def strlen : Mem → Option Nat
  | [] => none
  | b :: bs => if b = 0 then some 0 else (strlen bs).map (· + 1)

/-- The C string that starts at the beginning of the block. -/
def cstr (m : Mem) : Option (List UInt8) := (strlen m).map m.take

theorem zero_notMem_beforeNul (s : List UInt8) : 0 ∉ beforeNul s := by
  intro h
  simpa using List.mem_takeWhile_imp h

theorem beforeNul_of_notMem {s : List UInt8} (h : 0 ∉ s) : beforeNul s = s := by
  apply List.takeWhile_eq_self_iff.mpr
  intro b hb
  simpa using fun h0 : b = 0 => h (h0 ▸ hb)

theorem strlen_append_nul {c : List UInt8} (h : 0 ∉ c) (rest : List UInt8) :
    strlen (c ++ 0 :: rest) = some c.length := by
  induction c with
  | nil => simp [strlen]
  | cons b c ih =>
    simp only [List.mem_cons, not_or] at h
    simp [strlen, Ne.symm h.1, ih h.2]

theorem strlen_eq_none {m : Mem} : strlen m = none ↔ 0 ∉ m := by
  induction m with
  | nil => simp [strlen]
  | cons b m ih =>
    by_cases hb : b = 0
    · simp [strlen, hb]
    · simp [strlen, hb, ih, Ne.symm hb]

theorem cstr_append_nul {c : List UInt8} (h : 0 ∉ c) (rest : List UInt8) :
    cstr (c ++ 0 :: rest) = some c := by
  simp [cstr, strlen_append_nul h]

/-- The C string of a block that holds a NUL. -/
theorem cstr_of_mem {m : Mem} (h : 0 ∈ m) : cstr m = some (beforeNul m) := by
  obtain ⟨rest, hrest⟩ : ∃ rest, m = beforeNul m ++ 0 :: rest := by
    induction m with
    | nil => cases h
    | cons b m ih =>
      by_cases hb : b = 0
      · exact ⟨m, by simp [beforeNul, hb]⟩
      · obtain ⟨rest, hrest⟩ := ih ((List.mem_cons.mp h).resolve_left (Ne.symm hb))
        have hcons : beforeNul (b :: m) = b :: beforeNul m := by simp [beforeNul, hb]
        exact ⟨rest, by rw [hcons, List.cons_append, ← hrest]⟩
  have hcut := cstr_append_nul (zero_notMem_beforeNul m) rest
  rwa [← hrest] at hcut

/-- Nothing behind a NUL matters. -/
theorem beforeNul_append_of_mem {a : List UInt8} (h : 0 ∈ a) (b : List UInt8) :
    beforeNul (a ++ b) = beforeNul a := by
  induction a with
  | nil => cases h
  | cons c a ih =>
    by_cases hc : c = 0
    · simp [beforeNul, hc]
    · have htail : 0 ∈ a := (List.mem_cons.mp h).resolve_left (Ne.symm hc)
      simpa [beforeNul, hc] using ih htail

/-- Without a NUL, the string goes on with the bytes behind it. -/
theorem beforeNul_append_of_notMem {a : List UInt8} (h : 0 ∉ a) (b : List UInt8) :
    beforeNul (a ++ b) = a ++ beforeNul b := by
  apply List.takeWhile_append_of_pos
  intro c hc
  simpa using fun h0 : c = 0 => h (h0 ▸ hc)

/-- NULs behind a string change nothing. -/
theorem beforeNul_append_replicate (s : List UInt8) (n : Nat) :
    beforeNul (s ++ List.replicate n 0) = beforeNul s := by
  induction s with
  | nil => cases n <;> rfl
  | cons b s ih =>
    by_cases hb : b = 0
    · simp [beforeNul, hb]
    · simpa [beforeNul, hb] using ih

theorem cstr_eq_none {m : Mem} : cstr m = none ↔ 0 ∉ m := by
  simp [cstr, strlen_eq_none]

theorem c_str_eq (s : List UInt8) : ∃ rest, c_str s = beforeNul s ++ 0 :: rest := by
  induction s with
  | nil => exact ⟨[], rfl⟩
  | cons b s ih =>
    obtain ⟨rest, hrest⟩ := ih
    by_cases hb : b = 0
    · -- the string's own NUL comes before the one `c_str` adds
      exact ⟨c_str s, by simp [c_str, beforeNul, hb]⟩
    · refine ⟨rest, ?_⟩
      have htake : beforeNul (b :: s) = b :: beforeNul s := by simp [beforeNul, hb]
      rw [htake, List.cons_append, ← hrest]
      rfl

@[simp] theorem strlen_c_str (s : List UInt8) : strlen (c_str s) = some (beforeNul s).length := by
  obtain ⟨rest, hrest⟩ := c_str_eq s
  rw [hrest, strlen_append_nul (zero_notMem_beforeNul s)]

@[simp] theorem cstr_c_str (s : List UInt8) : cstr (c_str s) = some (beforeNul s) := by
  obtain ⟨rest, hrest⟩ := c_str_eq s
  rw [hrest, cstr_append_nul (zero_notMem_beforeNul s)]

/-! ### Copying -/

/-- `strcpy(dst + off, src)`: copies the string at `src` and its NUL. -/
def strcpy (dst : Mem) (off : Nat) (src : Mem) : Option Mem := do
  let s ← cstr src
  writeBytes dst off (s ++ [0])

/-- `strncat(dst, src, n)`: appends the string at `src`, cut after `n` bytes, and a NUL. -/
def strncat (dst src : Mem) (n : Nat) : Option Mem := do
  let len ← strlen dst
  -- at most n bytes are read at the source, and none behind its NUL
  if n ≤ src.length ∨ 0 ∈ src then
    writeBytes dst len (beforeNul (src.take n) ++ [0])
  else none

/-- `memcpy(dst + off, src + start, n)`. -/
def memcpy (dst : Mem) (off : Nat) (src : Mem) (start n : Nat) : Option Mem := do
  let bs ← readBytes src start n
  writeBytes dst off bs

/-- `memset(m + off, b, n)`. -/
def memset (m : Mem) (off : Nat) (b : UInt8) (n : Nat) : Option Mem :=
  -- the room is checked first: a huge n is refused before n bytes are made
  if off + n ≤ m.length then writeBytes m off (List.replicate n b) else none

/-- The `n` bytes `strncpy` stores for the string at `src`: the string, cut after `n` bytes, then
    NULs. -/
def strncpyFill (n : Nat) (src : Mem) : List UInt8 :=
  let s := (src.take n).takeWhile (· ≠ 0)
  s ++ List.replicate (n - s.length) 0

/-- `strncpy(m + dst, m + src, n)`: reads the string at `src` up to its NUL or `n` bytes and
    always stores `n` bytes. -/
def strncpy (m : Mem) (dst src n : Nat) : Option Mem :=
  if dst + n ≤ m.length ∧ (src + n ≤ m.length ∨ 0 ∈ m.drop src) then
    writeBytes m dst (strncpyFill n (m.drop src))
  else none

/-- A string appended in front of NULs only. -/
theorem strncat_zeros {c src : Mem} {n m : Nat} (hc : 0 ∉ c) (hsrc : n ≤ src.length)
    (hroom : n < m) :
    strncat (c ++ List.replicate m 0) src n
      = some (c ++ (beforeNul (src.take n)
          ++ List.replicate (m - (beforeNul (src.take n)).length) 0)) := by
  let text := beforeNul (src.take n)
  have hle : text.length ≤ n :=
    (List.takeWhile_prefix _).length_le.trans (List.length_take_le n src)
  have hzeros : List.replicate m (0 : UInt8) = List.replicate (text.length + 1) 0
      ++ List.replicate (m - text.length - 1) 0 := by
    rw [List.replicate_append_replicate]
    congr 1
    omega
  have hlen : strlen (c ++ List.replicate m 0) = some c.length := by
    rw [hzeros, List.replicate_succ, List.cons_append]
    exact strlen_append_nul hc _
  have hwrite : writeBytes (c ++ List.replicate m 0) c.length (text ++ [0])
      = some (c ++ ((text ++ [0]) ++ List.replicate (m - text.length - 1) 0)) := by
    rw [hzeros]
    exact writeBytes_append rfl (by simp)
  have hrest : List.replicate (m - text.length) (0 : UInt8)
      = [0] ++ List.replicate (m - text.length - 1) 0 := by
    rw [List.singleton_append, ← List.replicate_succ]
    congr 1
    omega
  unfold strncat
  rw [hlen, Option.bind_eq_bind, Option.bind_some, if_pos (Or.inl hsrc), hwrite, hrest,
    List.append_assoc]

theorem memcpy_append {a bs c d old e : List UInt8} {off start n : Nat} (hstart : start = a.length)
    (hn : n = bs.length) (hoff : off = d.length) (hold : old.length = bs.length) :
    memcpy (d ++ (old ++ e)) off (a ++ (bs ++ c)) start n = some (d ++ (bs ++ e)) := by
  unfold memcpy
  rw [readBytes_append hstart hn, Option.bind_eq_bind, Option.bind_some,
    writeBytes_append hoff hold]

/-- Bytes that do not fit are not copied. -/
theorem memcpy_eq_none {dst src : Mem} {off start n : Nat} (h : dst.length < off + n) :
    memcpy dst off src start n = none := by
  unfold memcpy
  cases hread : readBytes src start n with
  | none => rfl
  | some bs =>
    obtain ⟨hle, rfl⟩ := readBytes_eq_some.mp hread
    apply writeBytes_eq_none
    rw [List.length_take, List.length_drop]
    omega

theorem memset_append {a old c : List UInt8} {off n : Nat} (b : UInt8) (hoff : off = a.length)
    (hn : n = old.length) :
    memset (a ++ (old ++ c)) off b n = some (a ++ (List.replicate n b ++ c)) := by
  unfold memset
  rw [if_pos (by simp only [List.length_append]; omega)]
  exact writeBytes_append hoff (by rw [List.length_replicate, hn])

/-- Every byte after a `memset` that stays inside the block. -/
theorem memset_getElem? {m : Mem} {off n : Nat} (b : UInt8) (h : off + n ≤ m.length) :
    ∃ m', memset m off b n = some m' ∧ m'.length = m.length ∧
      ∀ i, m'[i]? = if off ≤ i ∧ i < off + n then some b else m[i]? := by
  obtain ⟨a, rest, rfl, ha⟩ := exists_block (m := m) (n := off) (by omega)
  rw [List.length_append] at h
  obtain ⟨old, c, rfl, hold⟩ := exists_block (m := rest) (n := n) (by omega)
  refine ⟨_, memset_append b ha.symm hold.symm, by simp [hold], ?_⟩
  intro i
  by_cases hlow : i < off
  · rw [if_neg (by omega), List.getElem?_append_left (by omega),
      List.getElem?_append_left (by omega)]
  · have hbehind : a.length ≤ i := by omega
    rw [List.getElem?_append_right hbehind, List.getElem?_append_right hbehind]
    by_cases hhigh : i < off + n
    · have hset : i - a.length < (List.replicate n b).length := by
        rw [List.length_replicate]
        omega
      rw [if_pos ⟨by omega, hhigh⟩, List.getElem?_append_left hset,
        List.getElem?_replicate_of_lt (by omega)]
    · have hafter : old.length ≤ i - a.length := by omega
      rw [if_neg (by omega), List.getElem?_append_right (by rw [List.length_replicate]; omega),
        List.getElem?_append_right hafter, List.length_replicate, hold]

theorem strncpyFill_length (n : Nat) (src : Mem) : (strncpyFill n src).length = n := by
  have hle : ((src.take n).takeWhile (· ≠ 0)).length ≤ n :=
    (List.takeWhile_prefix _).length_le.trans (List.length_take_le n src)
  simp only [strncpyFill, List.length_append, List.length_replicate]
  omega

/-- Only the first `n` bytes at the source matter. -/
theorem strncpyFill_append {n : Nat} {src : Mem} (h : n ≤ src.length) (rest : Mem) :
    strncpyFill n (src ++ rest) = strncpyFill n src := by
  simp only [strncpyFill, List.take_append_of_le_length h]

/-- `n` bytes without a NUL are copied as they are. -/
theorem strncpyFill_of_notMem {n : Nat} {src : Mem} (h : n ≤ src.length)
    (hnul : 0 ∉ src.take n) : strncpyFill n src = src.take n := by
  have hself : (src.take n).takeWhile (· ≠ 0) = src.take n := beforeNul_of_notMem hnul
  have hlen : n - (src.take n).length = 0 := by
    rw [List.length_take]
    omega
  simp only [strncpyFill, hself, hlen, List.replicate_zero, List.append_nil]

/-- A copy of more bytes than the block holds leaves the block. -/
theorem strncpy_eq_none {m : Mem} {dst src n : Nat} (h : m.length < dst + n) :
    strncpy m dst src n = none := by
  unfold strncpy
  rw [if_neg (by omega)]

/-- A string copied onto itself at the start of a block: only the bytes `strncpy` stores
    change. -/
theorem strncpy_self {m : Mem} {n : Nat} (h : n ≤ m.length) :
    strncpy m 0 0 n = some (strncpyFill n m ++ m.drop n) := by
  unfold strncpy
  rw [if_pos ⟨by omega, Or.inl (by omega)⟩]
  unfold writeBytes
  rw [strncpyFill_length, if_pos (by omega)]
  simp

end CMemory
