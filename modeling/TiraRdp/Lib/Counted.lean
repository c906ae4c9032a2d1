import Mathlib.Tactic.Common
import TiraRdp.Lib.Word

/-!
# Counted numbers

A number that is as long as it has to be: the upper bits of its first byte say how many bytes
follow, and the rest of the first byte and these bytes are the number, most significant byte first.
`span` is how many numbers the rest of the first byte has room for: 64, when two bits count.

A signed number has its sign in the highest bit of what the first byte has for the number;
`ofSigned` and `toSigned` go between it and the number with that bit.

Results: `decode_encode`, `roundTrips_iff` for fields one after the other, and `toSigned_ofSigned`
for the sign.
-/

namespace TiraRdp.Lib.Counted

/-! ## Most significant byte first -/

/-- The lower `n` bytes of `value`. -/
def be : Nat → Nat → Bytes
  | 0, _ => []
  | n + 1, value => UInt8.ofNat (value / 256 ^ n) :: be n value

/-- The number that goes on with these bytes. -/
def ofBe (value : Nat) : Bytes → Nat
  | [] => value
  | b :: bs => ofBe (value * 256 + b.toNat) bs

variable {n value : Nat} {bs : Bytes}

@[simp] theorem be_length (n value : Nat) : (be n value).length = n := by
  induction n with
  | zero => rfl
  | succ n ih => rw [be, List.length_cons, ih]

/-- The bytes of the upper part, then those of the lower. -/
theorem be_add (m n value : Nat) : be (m + n) value = be m (value / 256 ^ n) ++ be n value := by
  induction m with
  | zero => rw [Nat.zero_add, be, List.nil_append]
  | succ m ih =>
    rw [Nat.succ_add, be, be, ih, List.cons_append, Nat.div_div_eq_div_mul, ← Nat.pow_add,
      Nat.add_comm n]

/-- Bytes above those that are taken do not count. -/
theorem be_mod {m n : Nat} (h : n ≤ m) (value : Nat) : be n (value % 256 ^ m) = be n value := by
  induction n with
  | zero => rfl
  | succ n ih =>
    have hsplit : 256 ^ m = 256 ^ n * (256 * 256 ^ (m - (n + 1))) := by
      rw [← Nat.mul_assoc, ← Nat.pow_succ, ← Nat.pow_add, Nat.add_sub_cancel' h]
    have hbyte : UInt8.ofNat (value % 256 ^ m / 256 ^ n) = UInt8.ofNat (value / 256 ^ n) := by
      rw [← UInt8.toNat_inj, UInt8.toNat_ofNat', UInt8.toNat_ofNat', hsplit,
        Nat.mod_mul_right_div_self]
      exact Nat.mod_mul_right_mod _ 256 _
    rw [be, be, hbyte, ih (by omega)]

theorem ofBe_eq (value : Nat) (bs : Bytes) :
    ofBe value bs = value * 256 ^ bs.length + ofBe 0 bs := by
  induction bs generalizing value with
  | nil => simp [ofBe]
  | cons b bs ih =>
    rw [ofBe, ofBe, ih, ih (0 * 256 + b.toNat), List.length_cons, Nat.pow_succ']
    grind

theorem ofBe_lt (bs : Bytes) : ofBe 0 bs < 256 ^ bs.length := by
  induction bs with
  | nil => decide
  | cons b bs ih =>
    have hb := b.toNat_lt
    have hle : b.toNat * 256 ^ bs.length ≤ 255 * 256 ^ bs.length :=
      Nat.mul_le_mul_right _ (by omega)
    rw [ofBe, ofBe_eq, List.length_cons, Nat.pow_succ, Nat.zero_mul, Nat.zero_add]
    omega

/-- The bytes give back what they were made of. -/
theorem ofBe_be (high n value : Nat) :
    ofBe high (be n value) = high * 256 ^ n + value % 256 ^ n := by
  induction n generalizing high with
  | zero => simp [be, ofBe, Nat.mod_one]
  | succ n ih =>
    have hbyte : (UInt8.ofNat (value / 256 ^ n)).toNat = value / 256 ^ n % 256 := UInt8.toNat_ofNat'
    rw [be, ofBe, ih, hbyte, Nat.mod_pow_succ, Nat.pow_succ]
    generalize value / 256 ^ n % 256 = digit
    grind

/-! ## Counting the bytes -/

variable {span count : Nat}

def encode (span count value : Nat) : Bytes :=
  UInt8.ofNat (count * span + value / 256 ^ count) :: be count value

/-- The count and the number, and what comes after them. -/
def decode (span : Nat) : Bytes → Option ((Nat × Nat) × Bytes)
  | [] => none
  | b :: bs =>
    let count := b.toNat / span
    if bs.length < count then none
    else some ((count, ofBe (b.toNat % span) (bs.take count)), bs.drop count)

@[simp] theorem encode_length (span count value : Nat) :
    (encode span count value).length = count + 1 := by
  rw [encode, List.length_cons, be_length]

/-- The first byte holds the count and the top of the number. -/
theorem first_byte (span count : Nat) (hcount : count * span + span ≤ 256)
    (hvalue : value < span * 256 ^ count) :
    (UInt8.ofNat (count * span + value / 256 ^ count)).toNat / span = count ∧
      (UInt8.ofNat (count * span + value / 256 ^ count)).toNat % span = value / 256 ^ count := by
  have hhigh : value / 256 ^ count < span :=
    Nat.div_lt_of_lt_mul (Nat.mul_comm span _ ▸ hvalue)
  have hfirst : (UInt8.ofNat (count * span + value / 256 ^ count)).toNat =
      span * count + value / 256 ^ count := by
    rw [UInt8.toNat_ofNat', Nat.mul_comm]
    exact Nat.mod_eq_of_lt (by rw [Nat.mul_comm]; omega)
  rw [hfirst, Nat.mul_add_div (Nat.zero_lt_of_lt hhigh), Nat.div_eq_of_lt hhigh, Nat.mul_add_mod,
    Nat.mod_eq_of_lt hhigh]
  exact ⟨rfl, rfl⟩

/-- **A counted number is read back**, and nothing of what comes after it is taken. -/
theorem decode_encode (span count : Nat) (hcount : count * span + span ≤ 256)
    (hvalue : value < span * 256 ^ count)
    (rest : Bytes) :
    decode span (encode span count value ++ rest) = some ((count, value), rest) := by
  obtain ⟨hdiv, hmod⟩ := first_byte span count hcount hvalue
  have hlength : ¬ (be count value ++ rest).length < count := by
    rw [List.length_append, be_length]
    omega
  have hall : value / 256 ^ count * 256 ^ count + value % 256 ^ count = value :=
    Nat.div_add_mod' _ _
  unfold encode
  rw [List.cons_append, decode]
  simp only [hdiv, hmod, if_neg hlength]
  rw [List.take_left' (be_length count value), List.drop_left' (be_length count value), ofBe_be,
    hall]

/-! ## Fields -/

/-- What a writer has written are at most `n` bytes, and `read` makes `x` of them, whatever comes
after them. -/
def Carries {α : Type} (read : Bytes → Option (α × Bytes)) (n : Nat) (x : α)
    (written : Option Bytes) : Prop :=
  ∃ bs, written = some bs ∧ bs.length ≤ n ∧ ∀ rest, read (bs ++ rest) = some (x, rest)

section Fields

variable {α : Type} {read : Bytes → Option (α × Bytes)} {x : α} {written : Option Bytes}

theorem Carries.isSome (h : Carries read n x written) : written.isSome := by
  obtain ⟨bs, rfl, -⟩ := h
  rfl

theorem Carries.reads (h : Carries read n x written) (rest : Bytes) :
    read (written.getD [] ++ rest) = some (x, rest) := by
  obtain ⟨bs, rfl, -, hread⟩ := h
  exact hread rest

/-- A counted number as a field. -/
theorem carries_encode (f : Nat → Nat → α) (span count n : Nat)
    (hread : ∀ s, read s = (decode span s).map fun (x, s) => (f x.1 x.2, s))
    (hcount : count * span + span ≤ 256) (hvalue : value < span * 256 ^ count)
    (hn : count + 1 ≤ n) :
    Carries read n (f count value) (some (encode span count value)) := by
  refine ⟨_, rfl, by rwa [encode_length], fun rest => ?_⟩
  rw [hread, decode_encode span count hcount hvalue]
  rfl

end Fields

/-! ## Fields one after the other -/

section Sequences

variable {α φ : Type} (write : α → Option Bytes) (read : φ → Bytes → Option (α × Bytes))

/-- `none` when one of them is not written. -/
def writeAll : List α → Option Bytes
  | [] => some []
  | x :: xs =>
    match write x with
    | none => none
    | some bs => (writeAll xs).map (bs ++ ·)

def readAll : List φ → Bytes → Option (List α × Bytes)
  | [], s => some ([], s)
  | format :: formats, s =>
    match read format s with
    | none => none
    | some (x, s) => (readAll formats s).map fun (xs, s) => (x :: xs, s)

/-- What is written is read back as it was, and nothing of what comes after it is taken. -/
def ReadsBack (format : α → φ) (x : α) : Prop :=
  ∃ bs, write x = some bs ∧ ∀ rest, read (format x) (bs ++ rest) = some (x, rest)

/-- So is a sequence. -/
def RoundTrips (format : α → φ) (xs : List α) : Prop :=
  ∃ bs, writeAll write xs = some bs ∧
    ∀ rest, readAll read (xs.map format) (bs ++ rest) = some (xs, rest)

variable {write : α → Option Bytes} {read : φ → Bytes → Option (α × Bytes)} {format : α → φ}
  {heard : α → α}

theorem writeAll_isSome (xs : List α) :
    (writeAll write xs).isSome ↔ ∀ x ∈ xs, (write x).isSome := by
  induction xs with
  | nil => simp [writeAll]
  | cons x xs ih =>
    rw [List.forall_mem_cons, ← ih, writeAll]
    cases hwrite : write x with
    | none => simp
    | some bs => simp

/-- Where a reader makes `heard x` of what is written for `x`, the fields are read one by one. -/
theorem readAll_writeAll
    (h : ∀ x, (write x).isSome → ∃ n, Carries (read (format x)) n (heard x) (write x))
    {xs : List α} {bs : Bytes} (hwrite : writeAll write xs = some bs) (rest : Bytes) :
    readAll read (xs.map format) (bs ++ rest) = some (xs.map heard, rest) := by
  induction xs generalizing bs with
  | nil =>
    obtain rfl : [] = bs := Option.some.inj hwrite
    rfl
  | cons x xs ih =>
    rw [writeAll] at hwrite
    cases hx : write x with
    | none => rw [hx] at hwrite; cases hwrite
    | some first =>
      rw [hx] at hwrite
      obtain ⟨others, hothers, rfl⟩ := Option.map_eq_some_iff.mp hwrite
      obtain ⟨n, hcarries⟩ := h x (by rw [hx]; rfl)
      have hread := hcarries.reads (others ++ rest)
      rw [hx, Option.getD_some] at hread
      rw [List.map_cons, List.append_assoc, readAll, hread]
      dsimp only
      rw [ih hothers]
      rfl

theorem readsBack_iff
    (h : ∀ x, (write x).isSome → ∃ n, Carries (read (format x)) n (heard x) (write x))
    (x : α) : ReadsBack write read format x ↔ (write x).isSome ∧ heard x = x := by
  constructor
  · rintro ⟨bs, hwrite, hread⟩
    have hsome : (write x).isSome := by rw [hwrite]; rfl
    obtain ⟨n, hcarries⟩ := h x hsome
    have hheard := hcarries.reads []
    rw [hwrite, Option.getD_some, hread] at hheard
    exact ⟨hsome, (Prod.mk.inj (Option.some.inj hheard)).1.symm⟩
  · rintro ⟨hsome, hheard⟩
    obtain ⟨n, bs, hwrite, -, hread⟩ := h x hsome
    rw [hheard] at hread
    exact ⟨bs, hwrite, hread⟩

/-- **A sequence is read back exactly when every field of it is.** -/
theorem roundTrips_iff
    (h : ∀ x, (write x).isSome → ∃ n, Carries (read (format x)) n (heard x) (write x))
    (xs : List α) :
    RoundTrips write read format xs ↔ ∀ x ∈ xs, ReadsBack write read format x := by
  have hself : xs.map heard = xs ↔ ∀ x ∈ xs, heard x = id x := by
    rw [← List.map_inj_left, List.map_id]
  constructor
  · rintro ⟨bs, hwrite, hread⟩ x hx
    have hsome := (writeAll_isSome xs).mp (by rw [hwrite]; rfl)
    have hheard : xs.map heard = xs := by
      have hxs := hread []
      rw [readAll_writeAll h hwrite] at hxs
      exact (Prod.mk.inj (Option.some.inj hxs)).1
    exact (readsBack_iff h x).mpr ⟨hsome x hx, hself.mp hheard x hx⟩
  · intro hall
    have hback (x : α) (hx : x ∈ xs) := (readsBack_iff h x).mp (hall x hx)
    obtain ⟨bs, hwrite⟩ := Option.isSome_iff_exists.mp
      ((writeAll_isSome xs).mpr fun x hx => (hback x hx).1)
    have hheard : xs.map heard = xs := hself.mpr fun x hx => (hback x hx).2
    refine ⟨bs, hwrite, fun rest => ?_⟩
    rw [readAll_writeAll h hwrite, hheard]

end Sequences

/-! ## A sign bit -/

/-- `half` is the sign bit. -/
def ofSigned (half : Nat) (x : Int) : Nat := (if x < 0 then half else 0) + x.natAbs

def toSigned (half value : Nat) : Int :=
  if half ≤ value then -((value - half : Nat) : Int) else value

theorem ofSigned_lt {half : Nat} {x : Int} (h : x.natAbs < half) : ofSigned half x < 2 * half := by
  unfold ofSigned
  split_ifs
  all_goals omega

/-- **A signed number is read back.** -/
theorem toSigned_ofSigned {half : Nat} {x : Int} (h : x.natAbs < half) :
    toSigned half (ofSigned half x) = x := by
  unfold toSigned ofSigned
  split_ifs
  all_goals omega

/-- What is above the bytes is not in them. -/
theorem be_add_mul (high n value : Nat) : be n (high * 256 ^ n + value) = be n value := by
  induction n generalizing high with
  | zero => rfl
  | succ n ih =>
    have hpow : high * 256 ^ (n + 1) = high * 256 * 256 ^ n := by rw [Nat.pow_succ']; grind
    have hdigit : (high * 256 * 256 ^ n + value) / 256 ^ n = high * 256 + value / 256 ^ n := by
      rw [Nat.add_comm, Nat.add_mul_div_right _ _ (Nat.pow_pos (by decide)), Nat.add_comm]
    rw [be, be, hpow, ih, hdigit]
    congr 1
    rw [← UInt8.toNat_inj, UInt8.toNat_ofNat', UInt8.toNat_ofNat']
    omega

/-- The bytes of a signed number. -/
theorem encode_ofSigned (span count half : Nat) (x : Int) :
    encode span count (ofSigned (half * 256 ^ count) x) =
      UInt8.ofNat (count * span + ((if x < 0 then half else 0) + x.natAbs / 256 ^ count)) ::
        be count x.natAbs := by
  have hpos : 0 < 256 ^ count := Nat.pow_pos (by decide)
  unfold encode ofSigned
  split_ifs
  · rw [be_add_mul, Nat.add_comm _ x.natAbs, Nat.add_mul_div_right _ _ hpos, Nat.add_comm half]
  · rw [Nat.zero_add, Nat.zero_add]

/-- The sign bit is in the first byte. -/
theorem toSigned_ofBe (half : Nat) (hhalf : 0 < half) (b : Nat) (bs : Bytes) :
    toSigned (half * 256 ^ bs.length) (ofBe (b % (2 * half)) bs) =
      if half ≤ b % (2 * half) then (ofBe (b % half) bs : Int) * -1 else ofBe (b % half) bs := by
  have hlow := ofBe_lt bs
  have hlt : b % (2 * half) < 2 * half := Nat.mod_lt _ (by omega)
  rw [← Nat.mod_mul_left_mod b 2 half]
  generalize b % (2 * half) = high at hlt ⊢
  rw [ofBe_eq high, ofBe_eq (high % half)]
  unfold toSigned
  by_cases hsign : half ≤ high
  · have hmod : high % half = high - half := by
      rw [Nat.mod_eq_sub_mod hsign, Nat.mod_eq_of_lt (by omega)]
    have hsplit : high * 256 ^ bs.length =
        half * 256 ^ bs.length + high % half * 256 ^ bs.length := by
      rw [← Nat.add_mul, hmod, Nat.add_sub_cancel' hsign]
    rw [if_pos hsign, if_pos (by omega), hsplit]
    omega
  · have hle : (high + 1) * 256 ^ bs.length ≤ half * 256 ^ bs.length :=
      Nat.mul_le_mul_right _ (by omega)
    rw [Nat.add_mul] at hle
    rw [if_neg hsign, if_neg (by omega), Nat.mod_eq_of_lt (by omega)]

end TiraRdp.Lib.Counted
