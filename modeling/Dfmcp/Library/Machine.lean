import Mathlib

/-!
# Machine integers and their big-endian bytes

`U w` is the unsigned `w`-bit integer and `S w` the signed one; both are the numbers in range,
so comparison is comparison of numbers and arithmetic that may leave the range says so in its
type (`checkedAdd`) or in its name (`saturatingAdd`).

`beBytes n x` writes the low `8n` bits of `x` most significant byte first, and `ofBe` reads
them back; `ofBe_beBytes` is the round trip.
-/

namespace Machine

/-- A byte string. -/
abbrev Bytes := List UInt8

/-- Unsigned `w`-bit integers. -/
abbrev U (w : Nat) := Fin (2 ^ w)

/-- Signed `w`-bit integers. -/
abbrev S (w : Nat) := { z : Int // -(2 ^ (w - 1)) ≤ z ∧ z < 2 ^ (w - 1) }

namespace S

variable {w : Nat}

-- the general instances of a subtype go through an order of `Int` that does not compute
instance linearOrder : LinearOrder (S w) := @Subtype.instLinearOrder Int Int.instLinearOrder _

instance decidableLe (a b : S w) : Decidable (a ≤ b) := Int.decLe a.val b.val

instance decidableLt (a b : S w) : Decidable (a < b) := Int.decLt a.val b.val

theorem pos32 : 0 < 32 := by decide

/-- The bounds of a literal zero. -/
theorem fits_zero : -(2 ^ (32 - 1)) ≤ (0 : Int) ∧ (0 : Int) < 2 ^ (32 - 1) := by decide

/-- The bounds of a literal five. -/
theorem fits_five : -(2 ^ (32 - 1)) ≤ (5 : Int) ∧ (5 : Int) < 2 ^ (32 - 1) := by decide

end S

-- the members of a list are checked one by one, not among all the values of a machine integer
section Members

variable {α : Type*} (p : α → Prop) [DecidablePred p]

instance (priority := 2000) decidableForallMemList (l : List α) : Decidable (∀ a ∈ l, p a) := l.decidableBAll p

instance (priority := 2000) decidableExistsMemList (l : List α) : Decidable (∃ a ∈ l, p a) := l.decidableBEx p

instance (priority := 2000) decidableForallMemOption (o : Option α) : Decidable (∀ a ∈ o, p a) :=
  Option.decidableForallMem o

instance (priority := 2000) decidableExistsMemOption (o : Option α) : Decidable (∃ a ∈ o, p a) :=
  Option.decidableExistsMem o

end Members

namespace U

-- the widths of the integers in use, so that every literal of a width has one instance
instance neZero8 : NeZero (2 ^ 8 : Nat) := inferInstance

instance neZero16 : NeZero (2 ^ 16 : Nat) := inferInstance

instance neZero32 : NeZero (2 ^ 32 : Nat) := inferInstance

instance neZero64 : NeZero (2 ^ 64 : Nat) := inferInstance

instance neZero128 : NeZero (2 ^ 128 : Nat) := inferInstance

instance lawfulBEq64 : LawfulBEq (U 64) := inferInstance

/-- The axes of a place are numbered from zero. -/
instance neZeroAxes : NeZero 3 := inferInstance

variable {w : Nat}

/-- The sum, when it is in range. -/
def checkedAdd (a b : U w) : Option (U w) :=
  if h : a.val + b.val < 2 ^ w then some ⟨a.val + b.val, h⟩ else none

/-- The difference, when there is one. -/
def checkedSub (a b : U w) : Option (U w) :=
  if b ≤ a then some ⟨a.val - b.val, lt_of_le_of_lt (Nat.sub_le _ _) a.isLt⟩ else none

/-- The product, when it is in range. -/
def checkedMul (a b : U w) : Option (U w) :=
  if h : a.val * b.val < 2 ^ w then some ⟨a.val * b.val, h⟩ else none

/-- The largest value. -/
def max (w : Nat) : U w := ⟨2 ^ w - 1, Nat.sub_lt (Nat.two_pow_pos w) one_pos⟩

/-- The sum, clamped to the largest value. -/
def saturatingAdd (a b : U w) : U w := (checkedAdd a b).getD (max w)

/-- The product, clamped to the largest value. -/
def saturatingMul (a b : U w) : U w := (checkedMul a b).getD (max w)

/-- The difference, clamped to zero. -/
def saturatingSub (a b : U w) : U w := ⟨a.val - b.val, lt_of_le_of_lt (Nat.sub_le _ _) a.isLt⟩

/-- Truncate a number to `w` bits, Rust's `as`. -/
def wrap (n : Nat) : U w := ⟨n % 2 ^ w, Nat.mod_lt _ (Nat.two_pow_pos w)⟩

/-- The number itself, when it is in range. -/
def tryFrom (n : Nat) : Option (U w) := if h : n < 2 ^ w then some ⟨n, h⟩ else none

theorem saturatingAdd_le (a b : U w) : (saturatingAdd a b).val ≤ a.val + b.val := by
  unfold saturatingAdd checkedAdd
  split
  case isTrue h => exact le_rfl
  case isFalse h =>
    show 2 ^ w - 1 ≤ a.val + b.val
    omega

theorem checkedAdd_eq_some {a b c : U w} : checkedAdd a b = some c ↔ a.val + b.val = c.val := by
  unfold checkedAdd
  split
  · simp [Fin.ext_iff]
  · rename_i h
    have hc := c.isLt
    simp only [reduceCtorEq, false_iff]
    omega

theorem checkedAdd_eq_none {a b : U w} : checkedAdd a b = none ↔ 2 ^ w ≤ a.val + b.val := by
  unfold checkedAdd
  split
  · rename_i h
    simp only [reduceCtorEq, false_iff]
    omega
  · rename_i h
    simpa using h

theorem checkedMul_eq_some {a b c : U w} : checkedMul a b = some c ↔ a.val * b.val = c.val := by
  unfold checkedMul
  split
  · simp [Fin.ext_iff]
  · rename_i h
    have hc := c.isLt
    simp only [reduceCtorEq, false_iff]
    omega

theorem saturatingAdd_val (a b : U w) :
    (saturatingAdd a b).val = min (a.val + b.val) (2 ^ w - 1) := by
  unfold saturatingAdd checkedAdd
  split
  · rename_i h
    exact (Nat.min_eq_left (Nat.le_sub_one_of_lt h)).symm
  · rename_i h
    exact (Nat.min_eq_right (le_trans (Nat.sub_le _ _) (not_lt.1 h))).symm

theorem wrap_val {n : Nat} (h : n < 2 ^ w) : (wrap n : U w).val = n := Nat.mod_eq_of_lt h

end U

/-! ## Big-endian bytes -/

/-- The low `8n` bits of `x`, most significant byte first. -/
def beBytes : Nat → Nat → Bytes
  | 0, _ => []
  | n + 1, x => beBytes n (x / 256) ++ [UInt8.ofNat x]

/-- Read big-endian bytes as a number. -/
def ofBe (bs : Bytes) : Nat := bs.foldl (fun acc b => acc * 256 + b.toNat) 0

@[simp] theorem length_beBytes (n x : Nat) : (beBytes n x).length = n := by
  induction n generalizing x with
  | zero => rfl
  | succ n ih => simp [beBytes, ih]

theorem ofBe_concat (bs : Bytes) (b : UInt8) : ofBe (bs ++ [b]) = ofBe bs * 256 + b.toNat := by
  simp [ofBe]

/-- Reading back what was written gives the low bits. -/
theorem ofBe_beBytes (n x : Nat) : ofBe (beBytes n x) = x % 256 ^ n := by
  induction n generalizing x with
  | zero => simp [beBytes, ofBe, Nat.mod_one]
  | succ n ih =>
      have hlow : x % 2 ^ 8 = x % 256 := rfl
      rw [beBytes, ofBe_concat, ih, UInt8.toNat_ofNat', hlow, pow_succ' 256 n, Nat.mod_mul]
      ring

theorem ofBe_lt (bs : Bytes) : ofBe bs < 256 ^ bs.length := by
  induction bs using List.reverseRecOn with
  | nil => simp [ofBe]
  | append_singleton bs b ih =>
      have hb : b.toNat < 256 := b.toNat_lt
      rw [ofBe_concat, List.length_append, List.length_singleton, pow_succ]
      omega

/-- Bytes of the same length that read alike are alike. -/
theorem beBytes_ofBe (bs : Bytes) : beBytes bs.length (ofBe bs) = bs := by
  induction bs using List.reverseRecOn with
  | nil => rfl
  | append_singleton bs b ih =>
      have hb : b.toNat < 256 := b.toNat_lt
      have hdiv : (ofBe bs * 256 + b.toNat) / 256 = ofBe bs := by omega
      have hlow : UInt8.ofNat (ofBe bs * 256 + b.toNat) = b := by
        apply UInt8.toNat_inj.1
        rw [UInt8.toNat_ofNat']
        omega
      rw [ofBe_concat, List.length_append, List.length_singleton, beBytes, hdiv, hlow, ih]

theorem beBytes_injOn {n x y : Nat} (hx : x < 256 ^ n) (hy : y < 256 ^ n)
    (h : beBytes n x = beBytes n y) : x = y := by
  have hxy := congrArg ofBe h
  rwa [ofBe_beBytes, ofBe_beBytes, Nat.mod_eq_of_lt hx, Nat.mod_eq_of_lt hy] at hxy

/-! ## Signed integers as unsigned bits -/

namespace S

variable {w : Nat}

/-- Two's complement: the unsigned reading of a signed integer's bits. -/
def toBits (z : S w) : Nat := (z.val % 2 ^ w).toNat

/-- The signed integer with the given bits. -/
def ofBits (hw : 0 < w) (n : Nat) : S w :=
  ⟨if n % 2 ^ w < 2 ^ (w - 1) then (n % 2 ^ w : Nat) else (n % 2 ^ w : Nat) - 2 ^ w, by
    have hlt : n % 2 ^ w < 2 ^ w := Nat.mod_lt _ (Nat.two_pow_pos w)
    have hpow : 2 ^ w = 2 * 2 ^ (w - 1) := by rw [← pow_succ', Nat.sub_add_cancel hw]
    have hcast : ((2 : Int) ^ w) = 2 * 2 ^ (w - 1) := by exact_mod_cast hpow
    have hpos : ((2 ^ (w - 1) : Nat) : Int) = 2 ^ (w - 1) := by norm_cast
    split <;> omega⟩

theorem toBits_lt (z : S w) : z.toBits < 2 ^ w := by
  have h := Int.emod_lt_of_pos z.val (show (0 : Int) < 2 ^ w by positivity)
  have h0 := Int.emod_nonneg z.val (show (2 : Int) ^ w ≠ 0 by positivity)
  have hcast : ((2 ^ w : Nat) : Int) = 2 ^ w := by norm_cast
  unfold toBits
  omega

/-- Writing a signed integer's bits and reading them back is the identity. -/
theorem ofBits_toBits (hw : 0 < w) (z : S w) : ofBits hw z.toBits = z := by
  have hpow : ((2 : Int) ^ w) = 2 * 2 ^ (w - 1) := by rw [← pow_succ', Nat.sub_add_cancel hw]
  have hcast : ((2 ^ (w - 1) : Nat) : Int) = 2 ^ (w - 1) := by norm_cast
  have hmod : z.toBits % 2 ^ w = z.toBits := Nat.mod_eq_of_lt z.toBits_lt
  have hz := z.property
  apply Subtype.ext
  simp only [ofBits, hmod]
  by_cases hneg : z.val < 0
  · have hval : z.val % 2 ^ w = z.val + 2 ^ w := by
      rw [← Int.add_emod_right, Int.emod_eq_of_lt (by omega) (by omega)]
    simp only [toBits, hval]
    split <;> omega
  · have hval : z.val % 2 ^ w = z.val := Int.emod_eq_of_lt (by omega) (by omega)
    simp only [toBits, hval]
    split <;> omega

/-- Euclidean quotient by a positive number. -/
def divEuclid (z : S w) (n : Nat) (hn : 0 < n) : S w :=
  ⟨z.val / n, by
    have hz := z.property
    have hn' : (1 : Int) ≤ n := by omega
    have hpos : (0 : Int) < 2 ^ (w - 1) := by positivity
    have hle : (2 : Int) ^ (w - 1) ≤ 2 ^ (w - 1) * n := le_mul_of_one_le_right hpos.le hn'
    refine ⟨?_, ?_⟩
    · apply Int.le_ediv_of_mul_le (by omega)
      rw [neg_mul]
      omega
    · apply Int.ediv_lt_of_lt_mul (by omega)
      omega⟩

/-- The signed integer equal to a number, when it is in range. -/
def ofInt? (z : Int) : Option (S w) :=
  if h : -(2 ^ (w - 1)) ≤ z ∧ z < 2 ^ (w - 1) then some ⟨z, h⟩ else none

/-- `lo..=hi`, in order. -/
def rangeInclusive (lo hi : S w) : List (S w) :=
  (List.range (hi.val - lo.val + 1).toNat).filterMap fun i => ofInt? (lo.val + i)

theorem ofInt?_val (z : S w) : ofInt? z.val = some z := by
  rw [ofInt?, dif_pos z.property]

theorem rangeInclusive_self (z : S w) : rangeInclusive z z = [z] := by
  simp [rangeInclusive, ofInt?_val]

end S

end Machine
