import Mathlib.Data.Fintype.BigOperators
import Mathlib.Data.Fintype.Pigeonhole
import Mathlib.Data.List.TakeWhile
import Mathlib.Data.Nat.Digits.Defs
import Mathlib.Data.UInt
import Mathlib.Tactic.NormNum
import Mathlib.Tactic.Positivity
import Mathlib.Tactic.Ring

/-!
# Words, byte order and C strings as byte lists

A word of a C program is seen through the bytes it occupies on a little-endian
host. Network order is the reverse of these bytes, so the conversions below are
byte swaps. Nothing here refers to a particular program.
-/
namespace ByteOrder

/-- The `n` bytes of a number, least significant first. -/
def leBytes : ℕ → ℕ → List UInt8
  | 0, _ => []
  | n + 1, v => UInt8.ofNat v :: leBytes n (v / 256)

/-- The number a byte list stands for, least significant byte first. -/
def ofLE : List UInt8 → ℕ
  | [] => 0
  | b :: bs => b.toNat + 256 * ofLE bs

@[simp] theorem leBytes_length (n v : ℕ) : (leBytes n v).length = n := by
  induction n generalizing v with
  | zero => rfl
  | succ n ih => simp [leBytes, ih]

theorem ofLE_lt (bs : List UInt8) : ofLE bs < 256 ^ bs.length := by
  induction bs with
  | nil => simp [ofLE]
  | cons b bs ih =>
    have hb := b.toNat_lt
    simp only [ofLE, List.length_cons, Nat.pow_succ]
    omega

@[simp] theorem leBytes_ofLE (bs : List UInt8) : leBytes bs.length (ofLE bs) = bs := by
  induction bs with
  | nil => rfl
  | cons b bs ih =>
    have hb := b.toNat_lt
    have hdiv : (b.toNat + 256 * ofLE bs) / 256 = ofLE bs := by omega
    have hmod : UInt8.ofNat (b.toNat + 256 * ofLE bs) = b := by
      apply UInt8.toNat_inj.mp
      simp only [UInt8.toNat_ofNat']
      omega
    simp [leBytes, ofLE, hdiv, hmod, ih]

theorem ofLE_leBytes (n v : ℕ) (h : v < 256 ^ n) : ofLE (leBytes n v) = v := by
  induction n generalizing v with
  | zero => simp only [Nat.pow_zero, Nat.lt_one_iff] at h; simp [leBytes, ofLE, h]
  | succ n ih =>
    rw [Nat.pow_succ] at h
    have hdiv : v / 256 < 256 ^ n := by omega
    simp only [leBytes, ofLE, ih _ hdiv, UInt8.toNat_ofNat']
    omega

theorem ofLE_append (bs cs : List UInt8) :
    ofLE (bs ++ cs) = ofLE bs + 256 ^ bs.length * ofLE cs := by
  induction bs with
  | nil => simp [ofLE]
  | cons b bs ih =>
    simp only [List.cons_append, ofLE, ih, List.length_cons, Nat.pow_succ]
    ring

theorem ofLE_eq_zero (bs : List UInt8) : ofLE bs = 0 ↔ bs = List.replicate bs.length 0 := by
  induction bs with
  | nil => simp [ofLE]
  | cons b bs ih =>
    have hb : b.toNat = 0 ↔ b = 0 := by rw [← UInt8.toNat_inj, UInt8.toNat_zero]
    simp only [ofLE, List.length_cons, List.replicate_succ, List.cons.injEq, ← ih, ← hb]
    omega

theorem leBytes_drop (n j v : ℕ) : (leBytes n v).drop j = leBytes (n - j) (v / 256 ^ j) := by
  induction j generalizing n v with
  | zero => simp
  | succ j ih =>
    cases n with
    | zero => simp [leBytes]
    | succ n =>
      rw [leBytes, List.drop_succ_cons, ih, Nat.div_div_eq_div_mul, Nat.pow_succ',
        Nat.add_sub_add_right]

/-! ### Words in memory and on the wire -/

def mem16 (v : UInt16) : List UInt8 := leBytes 2 v.toNat
def mem32 (v : UInt32) : List UInt8 := leBytes 4 v.toNat
def word16 (bs : List UInt8) : UInt16 := UInt16.ofNat (ofLE bs)
def word32 (bs : List UInt8) : UInt32 := UInt32.ofNat (ofLE bs)

def htons (v : UInt16) : UInt16 := word16 (mem16 v).reverse
def htonl (v : UInt32) : UInt32 := word32 (mem32 v).reverse
def ntohs (v : UInt16) : UInt16 := htons v
def ntohl (v : UInt32) : UInt32 := htonl v

/-- The bytes of a word in network order. -/
def be16 (v : UInt16) : List UInt8 := (mem16 v).reverse
def be32 (v : UInt32) : List UInt8 := (mem32 v).reverse

@[simp] theorem mem16_length (v : UInt16) : (mem16 v).length = 2 := leBytes_length 2 _
@[simp] theorem mem32_length (v : UInt32) : (mem32 v).length = 4 := leBytes_length 4 _
@[simp] theorem be16_length (v : UInt16) : (be16 v).length = 2 := by simp [be16]
@[simp] theorem be32_length (v : UInt32) : (be32 v).length = 4 := by simp [be32]

@[simp] theorem word16_mem16 (v : UInt16) : word16 (mem16 v) = v := by
  have hv := v.toNat_lt
  apply UInt16.toNat_inj.mp
  rw [word16, mem16, ofLE_leBytes 2 _ (by omega), UInt16.toNat_ofNat', Nat.mod_eq_of_lt hv]

@[simp] theorem word32_mem32 (v : UInt32) : word32 (mem32 v) = v := by
  have hv := v.toNat_lt
  apply UInt32.toNat_inj.mp
  rw [word32, mem32, ofLE_leBytes 4 _ (by omega), UInt32.toNat_ofNat', Nat.mod_eq_of_lt hv]

theorem mem16_word16 {bs : List UInt8} (h : bs.length = 2) : mem16 (word16 bs) = bs := by
  have hlt := ofLE_lt bs
  rw [h] at hlt
  rw [mem16, word16, UInt16.toNat_ofNat', Nat.mod_eq_of_lt (by omega), ← h, leBytes_ofLE]

theorem mem32_word32 {bs : List UInt8} (h : bs.length = 4) : mem32 (word32 bs) = bs := by
  have hlt := ofLE_lt bs
  rw [h] at hlt
  rw [mem32, word32, UInt32.toNat_ofNat', Nat.mod_eq_of_lt (by omega), ← h, leBytes_ofLE]

/-- A word converted by `htons` lies in memory in network order. -/
@[simp] theorem mem16_htons (v : UInt16) : mem16 (htons v) = be16 v :=
  mem16_word16 (by simp)

@[simp] theorem mem32_htonl (v : UInt32) : mem32 (htonl v) = be32 v :=
  mem32_word32 (by simp)

/-- Reading network-order bytes into a word and converting it gives the word sent. -/
@[simp] theorem ntohs_word16_be16 (v : UInt16) : ntohs (word16 (be16 v)) = v := by
  rw [ntohs, htons, mem16_word16 (be16_length v), be16, List.reverse_reverse, word16_mem16]

@[simp] theorem ntohl_word32_be32 (v : UInt32) : ntohl (word32 (be32 v)) = v := by
  rw [ntohl, htonl, mem32_word32 (be32_length v), be32, List.reverse_reverse, word32_mem32]

theorem be32_ntohl_word32 {bs : List UInt8} (h : bs.length = 4) :
    be32 (ntohl (word32 bs)) = bs := by
  rw [ntohl, htonl, mem32_word32 h, be32, mem32_word32 (by simp [h]), List.reverse_reverse]

theorem be16_ntohs_word16 {bs : List UInt8} (h : bs.length = 2) :
    be16 (ntohs (word16 bs)) = bs := by
  rw [ntohs, htons, mem16_word16 h, be16, mem16_word16 (by simp [h]), List.reverse_reverse]

theorem ntohl_word32_toNat (a b c d : UInt8) : (ntohl (word32 [a, b, c, d])).toNat =
    a.toNat * 2 ^ 24 + b.toNat * 2 ^ 16 + c.toNat * 2 ^ 8 + d.toNat := by
  have hlt := ofLE_lt [d, c, b, a]
  simp only [List.length_cons, List.length_nil] at hlt
  rw [ntohl, htonl, mem32_word32 rfl, word32, UInt32.toNat_ofNat']
  simp only [List.reverse_cons, List.reverse_nil, List.nil_append, List.cons_append]
  rw [Nat.mod_eq_of_lt (by omega)]
  simp only [ofLE]
  omega

/-- A word overwritten from its first byte on reads zero when the new bytes and what is left of
the old value are zero. -/
theorem word32_overwritten_zero {bs : List UInt8} {v : UInt32} (h : bs.length ≤ 4) :
    word32 (bs ++ (mem32 v).drop bs.length) = 0 ↔
      bs = List.replicate bs.length 0 ∧ v.toNat < 256 ^ bs.length := by
  have hv := v.toNat_lt
  have hlt := ofLE_lt (bs ++ (mem32 v).drop bs.length)
  have hlen : (bs ++ (mem32 v).drop bs.length).length = 4 := by
    simp only [List.length_append, List.length_drop, mem32_length]
    omega
  have hdiv : v.toNat / 256 ^ bs.length < 256 ^ (4 - bs.length) := by
    rw [Nat.div_lt_iff_lt_mul (by positivity), ← Nat.pow_add, Nat.sub_add_cancel h]
    omega
  rw [hlen] at hlt
  rw [word32, ← UInt32.toNat_inj, UInt32.toNat_ofNat', UInt32.toNat_zero,
    Nat.mod_eq_of_lt (by omega), ofLE_append, mem32, leBytes_drop, ofLE_leBytes _ _ hdiv,
    Nat.add_eq_zero_iff, ofLE_eq_zero, Nat.mul_eq_zero, Nat.div_eq_zero_iff]
  simp

theorem be16_injective : Function.Injective be16 := by
  intro v w h
  rw [← ntohs_word16_be16 v, h, ntohs_word16_be16]

theorem be32_injective : Function.Injective be32 := by
  intro v w h
  rw [← ntohl_word32_be32 v, h, ntohl_word32_be32]

/-! ### Signed words and buffers -/

/-- A C `int` holding the value of an integer expression: 32-bit two's complement. -/
def cInt (x : ℤ) : ℤ := Int.bmod x (2 ^ 32)

/-- A C `int` passed where a `size_t` is expected. -/
def sizeT (x : ℤ) : ℕ := (x % 2 ^ 64).toNat

theorem cInt_of_bounds {x : ℤ} (hl : -2 ^ 31 ≤ x) (hu : x < 2 ^ 31) : cInt x = x := by
  unfold cInt
  rw [Int.bmod_def]
  split <;> omega

/-- A 32-bit word that looks like a failure as an `int`. -/
theorem cInt_eq_failure (w : UInt32) : cInt w.toNat = -1 ↔ w = 0xffffffff := by
  have hlt := w.toNat_lt
  have hmax : (0xffffffff : UInt32).toNat = 4294967295 := rfl
  rw [← UInt32.toNat_inj, hmax, cInt, Int.bmod]
  norm_num
  split <;> omega

theorem sizeT_of_nonneg {x : ℤ} (hl : 0 ≤ x) (hu : x < 2 ^ 31) : sizeT x = x.toNat := by
  unfold sizeT
  rw [Int.emod_eq_of_lt hl (by omega)]

theorem cInt_sub_cInt (x y : ℤ) : cInt (cInt x - cInt y) = cInt (x - y) := by
  unfold cInt
  simp

theorem cInt_cInt_add (x y : ℤ) : cInt (cInt x + y) = cInt (x + y) := by
  unfold cInt
  simp

theorem cInt_natCast_inj {a b : ℕ} (ha : a < 2 ^ 32) (hb : b < 2 ^ 32) :
    cInt (a : ℤ) = cInt b ↔ a = b := by
  simp only [cInt, Int.bmod_def]
  omega

theorem sizeT_cInt_small {k : ℕ} (h : k < 2 ^ 31) : sizeT (cInt k) = k := by
  rw [cInt_of_bounds (by omega) (by omega), sizeT_of_nonneg (by omega) (by omega)]
  omega

theorem lt_sizeT_cInt {k : ℕ} (hl : 2 ^ 31 ≤ k) (hu : k < 2 ^ 32) : 2 ^ 63 ≤ sizeT (cInt k) := by
  have hneg : cInt k = k - 2 ^ 32 := by
    simp only [cInt, Int.bmod_def]
    omega
  rw [hneg, sizeT]
  omega

/-- The bytes `src` stored into `dst` from offset `off` on. -/
def memcpyAt (dst : List UInt8) (off : ℕ) (src : List UInt8) : List UInt8 :=
  dst.take off ++ src ++ dst.drop (off + src.length)

theorem memcpyAt_zero (dst src : List UInt8) :
    memcpyAt dst 0 src = src ++ dst.drop src.length := by
  simp [memcpyAt]

theorem memcpyAt_length {dst : List UInt8} {n : ℕ} (hdst : dst.length = n) (off : ℕ)
    (src : List UInt8) (h : off + src.length ≤ n) : (memcpyAt dst off src).length = n := by
  simp only [memcpyAt, List.length_append, List.length_take, List.length_drop]
  omega

/-- A store that starts where a known prefix ends extends that prefix. -/
theorem memcpyAt_known {dst known : List UInt8} (h : known <+: dst) (off : ℕ)
    (hoff : known.length = off) (src : List UInt8) : known ++ src <+: memcpyAt dst off src := by
  subst hoff
  rw [memcpyAt, ← List.prefix_iff_eq_take.mp h]
  exact List.prefix_append _ _

/-- The C string at the start of a byte list: the bytes before the first NUL. -/
def cString (bs : List UInt8) : List UInt8 := bs.takeWhile (· ≠ 0)

theorem cString_length_le (bs : List UInt8) : (cString bs).length ≤ bs.length :=
  (List.takeWhile_prefix _).length_le

theorem zero_notMem_cString (bs : List UInt8) : (0 : UInt8) ∉ cString bs := by
  induction bs with
  | nil => simp [cString]
  | cons b bs ih =>
    by_cases hb : b = 0
    · simp [cString, hb]
    · simpa [cString, hb, Ne.symm hb] using ih

theorem cString_of_notMem {bs : List UInt8} (h : (0 : UInt8) ∉ bs) : cString bs = bs := by
  induction bs with
  | nil => rfl
  | cons b bs ih =>
    simp only [List.mem_cons, not_or] at h
    simpa [cString, Ne.symm h.1] using ih h.2

theorem cString_append {bs : List UInt8} (h : (0 : UInt8) ∉ bs) (cs : List UInt8) :
    cString (bs ++ cs) = bs ++ cString cs := by
  rw [cString, cString, List.takeWhile_append_of_pos]
  intro b hb
  simpa using fun he : b = 0 => h (he ▸ hb)

/-- A terminator ends the string, whatever lies behind it. -/
theorem cString_append_zero (bs cs : List UInt8) : cString (bs ++ 0 :: cs) = cString bs := by
  induction bs with
  | nil => simp [cString]
  | cons b bs ih =>
    by_cases hb : b = 0
    · simp [cString, hb]
    · simpa [cString, hb] using ih

/-- What `strncpy` writes: the C string, filled up with NULs or cut off. -/
def strncpy (src : List UInt8) (n : ℕ) : List UInt8 := (cString src ++ List.replicate n 0).take n

@[simp] theorem strncpy_length (src : List UInt8) (n : ℕ) : (strncpy src n).length = n := by
  simp [strncpy]

theorem strncpy_of_length_lt {src : List UInt8} {n : ℕ} (h : (0 : UInt8) ∉ src)
    (hn : src.length < n) :
    strncpy src n = src ++ List.replicate (n - src.length) 0 := by
  rw [strncpy, cString_of_notMem h, List.take_append, List.take_of_length_le hn.le,
    List.take_replicate, Nat.min_eq_left (Nat.sub_le n _)]

theorem strncpy_of_le_length {src : List UInt8} {n : ℕ} (h : (0 : UInt8) ∉ src)
    (hn : n ≤ src.length) : strncpy src n = src.take n := by
  rw [strncpy, cString_of_notMem h, List.take_append_of_le_length hn]

/-- `strlen` of the string at the start of an array, if it ends inside the array. -/
def strlen (array : List UInt8) : Option ℕ :=
  if (0 : UInt8) ∈ array then some (cString array).length else none

theorem strlen_append {bs : List UInt8} (h : (0 : UInt8) ∉ bs) (cs : List UInt8) :
    strlen (bs ++ cs) = (strlen cs).map (bs.length + ·) := by
  by_cases hcs : (0 : UInt8) ∈ cs <;> simp [strlen, cString_append h, h, hcs]

theorem strlen_eq_some {array : List UInt8} {n : ℕ} :
    strlen array = some n ↔ (0 : UInt8) ∈ array ∧ (cString array).length = n := by
  rw [strlen, Option.ite_none_right_eq_some, Option.some.injEq]

theorem strlen_lt {array : List UInt8} {n : ℕ} (h : strlen array = some n) : n < array.length := by
  obtain ⟨hmem, rfl⟩ := strlen_eq_some.mp h
  apply lt_of_le_of_ne (cString_length_le array)
  intro he
  have hall : cString array = array := (List.takeWhile_prefix _).eq_of_length he
  have hnone := zero_notMem_cString array
  rw [hall] at hnone
  exact hnone hmem

theorem strlen_eq_zero {array : List UInt8} : strlen array = some 0 ↔ array.head? = some 0 := by
  cases array with
  | nil => simp [strlen]
  | cons b bs => by_cases hb : b = 0 <;> simp [strlen, cString, hb]

/-- The bytes of a text in ASCII. -/
def text (s : String) : List UInt8 := s.toList.map fun c => UInt8.ofNat c.toNat

/-! ### Numbers in ASCII -/

def isDigit (b : UInt8) : Bool := 48 ≤ b && b ≤ 57
def isSpace (b : UInt8) : Bool := b == 32 || (9 ≤ b && b ≤ 13)

/-- The number that digits stand for. -/
def decimal (digits : List UInt8) : ℕ :=
  Nat.ofDigits 10 (digits.reverse.map fun b => b.toNat - 48)

theorem decimal_append (ds es : List UInt8) :
    decimal (ds ++ es) = decimal es + 10 ^ es.length * decimal ds := by
  simp [decimal, Nat.ofDigits_append]

/-- Digits behind a number leave it as it is only if there are none, or all are zeros. -/
theorem decimal_append_eq (ds es : List UInt8) :
    decimal (ds ++ es) = decimal ds ↔ es = [] ∨ decimal ds = 0 ∧ decimal es = 0 := by
  rw [decimal_append]
  cases es with
  | nil => simp [decimal]
  | cons e es =>
    have hpow : 10 ≤ 10 ^ (e :: es).length := by
      rw [List.length_cons]
      exact Nat.le_self_pow (by omega) 10
    have hmul := Nat.mul_le_mul_right (decimal ds) hpow
    simp only [reduceCtorEq, false_or]
    constructor
    · intro h
      omega
    · rintro ⟨hds, hes⟩
      rw [hds, hes, Nat.mul_zero]

/-- The sign of a number, and what follows it. -/
def signOf : List UInt8 → ℤ × List UInt8
  | 0x2d :: rest => (-1, rest)
  | 0x2b :: rest => (1, rest)
  | rest => (1, rest)

/-- `atoi` of the string at the start of an array, where it is defined: the number ends inside
the array and is an `int`. -/
def atoi (array : List UInt8) : Option ℤ :=
  let (sign, rest) := signOf (array.dropWhile isSpace)
  let digits := rest.takeWhile isDigit
  let value := sign * decimal digits
  if digits.length < rest.length ∧ -2 ^ 31 ≤ value ∧ value < 2 ^ 31 then some value else none

theorem signOf_digit {d : UInt8} (h : isDigit d) (rest : List UInt8) :
    signOf ((d :: rest).dropWhile isSpace) = (1, d :: rest) := by
  simp only [isDigit, Bool.and_eq_true, decide_eq_true_eq] at h
  have hspace : ¬ isSpace d := by
    simp only [isSpace, Bool.or_eq_true, Bool.and_eq_true, beq_iff_eq, decide_eq_true_eq]
    grind
  rw [List.dropWhile_cons_of_neg hspace]
  unfold signOf
  split
  · simp_all
  · simp_all
  · rfl

/-- A number at the start of an array goes on as long as digits follow. -/
theorem atoi_digits {ds : List UInt8} (hne : ds ≠ []) (hds : ∀ b ∈ ds, isDigit b)
    (rest : List UInt8) (n : ℕ) :
    atoi (ds ++ rest) = some (n : ℤ) ↔
      (rest.takeWhile isDigit).length < rest.length ∧ n < 2 ^ 31 ∧
        decimal (ds ++ rest.takeWhile isDigit) = n := by
  have htake : (ds ++ rest).takeWhile isDigit = ds ++ rest.takeWhile isDigit :=
    List.takeWhile_append_of_pos hds
  have hsign : signOf ((ds ++ rest).dropWhile isSpace) = (1, ds ++ rest) := by
    obtain ⟨d, ds, rfl⟩ := List.exists_cons_of_ne_nil hne
    exact signOf_digit (hds d List.mem_cons_self) _
  simp only [atoi, hsign, htake, one_mul, List.length_append, Option.ite_none_right_eq_some,
    Option.some.injEq, Nat.cast_inj]
  constructor
  · rintro ⟨⟨hend, -, hint⟩, hvalue⟩
    exact ⟨by omega, by omega, hvalue⟩
  · rintro ⟨hend, hint, hvalue⟩
    exact ⟨⟨by omega, by omega, by omega⟩, hvalue⟩

/-! ### Hashes of C strings -/

/-- Five bytes without a NUL. -/
def fiveBytes (x : Fin 5 → Fin 255) : List UInt8 := List.ofFn fun i => UInt8.ofNat (x i + 1)

theorem fiveBytes_injective : Function.Injective fiveBytes := by
  intro x y h
  have hfun := List.ofFn_injective h
  funext i
  have hi := congrArg UInt8.toNat (congrFun hfun i)
  have hx := (x i).isLt
  have hy := (y i).isLt
  simp only [UInt8.toNat_ofNat'] at hi
  apply Fin.ext
  omega

theorem zero_notMem_fiveBytes (x : Fin 5 → Fin 255) : (0 : UInt8) ∉ fiveBytes x := by
  intro h
  obtain ⟨i, hi⟩ := (List.mem_ofFn' _ _).mp h
  have hx := (x i).isLt
  have hn := congrArg UInt8.toNat hi
  simp only [UInt8.toNat_ofNat', UInt8.toNat_zero] at hn
  omega

/-- A hash into 32 bits takes one value twice on strings of five bytes. -/
theorem hash_collides (hash : List UInt8 → Int32) :
    ∃ x y, x ≠ y ∧ hash (fiveBytes x) = hash (fiveBytes y) := by
  have hcard : Fintype.card (Fin (2 ^ 32)) < Fintype.card (Fin 5 → Fin 255) := by
    rw [Fintype.card_fin, Fintype.card_fun, Fintype.card_fin, Fintype.card_fin]
    norm_num
  obtain ⟨x, y, hne, heq⟩ := Fintype.exists_ne_map_eq_of_card_lt
    (fun x => (hash (fiveBytes x)).toBitVec.toFin) hcard
  exact ⟨x, y, hne, Int32.toBitVec_inj.mp (BitVec.toFin_inj.mp heq)⟩

end ByteOrder
