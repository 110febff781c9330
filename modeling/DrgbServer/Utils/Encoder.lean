import DrgbServer.Utils.MyTypes

/-! # `Encoder`: bytes as Base64 text

The encoder writes no padding, so the two or three characters of a last, short
group tell its length. Texts are lists of characters. -/
namespace DrgbServer.Utils

abbrev Text := List Char

namespace Encoder

def charset : Text := "ABCDEFGHIJKLMNOPQRSTUVWXYZabcdefghijklmnopqrstuvwxyz0123456789+/".toList

def mapset : List Nat := [
  255, 255, 255, 255, 255, 255, 255, 255, 255, 255, 255, 255, 255, 255, 255, 255,
  255, 255, 255, 255, 255, 255, 255, 255, 255, 255, 255, 255, 255, 255, 255, 255,
  255, 255, 255, 255, 255, 255, 255, 255, 255, 255, 255, 62, 255, 255, 255, 63,
  52, 53, 54, 55, 56, 57, 58, 59, 60, 61, 255, 255, 255, 255, 255, 255,
  255, 0, 1, 2, 3, 4, 5, 6, 7, 8, 9, 10, 11, 12, 13, 14,
  15, 16, 17, 18, 19, 20, 21, 22, 23, 24, 25, 255, 255, 255, 255, 255,
  255, 26, 27, 28, 29, 30, 31, 32, 33, 34, 35, 36, 37, 38, 39, 40,
  41, 42, 43, 44, 45, 46, 47, 48, 49, 50, 51, 255, 255, 255, 255, 255,
  255, 255, 255, 255, 255, 255, 255, 255, 255, 255, 255, 255, 255, 255, 255, 255,
  255, 255, 255, 255, 255, 255, 255, 255, 255, 255, 255, 255, 255, 255, 255, 255,
  255, 255, 255, 255, 255, 255, 255, 255, 255, 255, 255, 255, 255, 255, 255, 255,
  255, 255, 255, 255, 255, 255, 255, 255, 255, 255, 255, 255, 255, 255, 255, 255,
  255, 255, 255, 255, 255, 255, 255, 255, 255, 255, 255, 255, 255, 255, 255, 255,
  255, 255, 255, 255, 255, 255, 255, 255, 255, 255, 255, 255, 255, 255, 255, 255,
  255, 255, 255, 255, 255, 255, 255, 255, 255, 255, 255, 255, 255, 255, 255, 255,
  255, 255, 255, 255, 255, 255, 255, 255, 255, 255, 255, 255, 255, 255, 255, 255]

def cut_6_2 (s : Byte) : Byte := (s &&& 0xFC) >>> 2
def cut_2_6 (s : Byte) : Byte := s &&& 0x3F
def mix_2_4 (lhs rhs : Byte) : Byte := (lhs &&& 0x03) <<< 4 ||| (rhs &&& 0xF0) >>> 4
def mix_4_2 (lhs rhs : Byte) : Byte := (lhs &&& 0x0F) <<< 2 ||| (rhs &&& 0xC0) >>> 6
def mix_6_2 (lhs rhs : Byte) : Byte := lhs <<< 2 ||| (rhs &&& 0x30) >>> 4
def mix_4_4 (lhs rhs : Byte) : Byte := (lhs &&& 0x0F) <<< 4 ||| (rhs &&& 0x3C) >>> 2
def mix_2_6 (lhs rhs : Byte) : Byte := (lhs &&& 0x03) <<< 6 ||| rhs

/-- `charset[v]`; every index the encoder forms is below 64. -/
def charOf (v : Byte) : Char := charset.getD v.toNat 'A'

/-- `mapset[c]`; 255 stands for a character outside the alphabet. -/
def valueOf (c : Char) : Nat := mapset.getD c.toNat 255

def encodeBase64 : List Byte → Text
  | [] => []
  | [c1] => [charOf (cut_6_2 c1), charOf (mix_2_4 c1 0)]
  | [c1, c2] => [charOf (cut_6_2 c1), charOf (mix_2_4 c1 c2), charOf (mix_4_2 c2 0)]
  | c1 :: c2 :: c3 :: rest =>
    charOf (cut_6_2 c1) :: charOf (mix_2_4 c1 c2) :: charOf (mix_4_2 c2 c3) ::
      charOf (cut_2_6 c3) :: encodeBase64 rest

/-- The loop of `DecodeBase64`: `prev` is the value of the character before. -/
def decodeFrom (phase : Nat) (prev : Byte) : Text → Except Exn (List Byte)
  | [] => if phase = 1 then .error (.stdOther "Broken Data") else .ok []
  | c :: rest =>
    let d := valueOf c
    -- the source adds the character to the pointer of this text, which is then cut or overrun
    if d ≥ 255 then .error (.stdOther "Unknown Character : ")
    else
      let uc := UInt8.ofNat d
      match phase with
      | 0 => decodeFrom 1 uc rest
      | 1 => (decodeFrom 2 uc rest).map (mix_6_2 prev uc :: ·)
      | 2 => (decodeFrom 3 uc rest).map (mix_4_4 prev uc :: ·)
      | _ => (decodeFrom 0 uc rest).map (mix_2_6 prev uc :: ·)

def decodeBase64 (str : Text) : Except Exn (List Byte) := decodeFrom 0 0 str

/-! ## Bits -/

theorem forall_byte {p : Byte → Prop} (h : ∀ n < 256, p (UInt8.ofNat n)) (b : Byte) : p b := by
  have hb := h b.toNat b.toNat_lt
  rwa [UInt8.ofNat_toNat] at hb

theorem or_and (a b m : Byte) : (a ||| b) &&& m = (a &&& m) ||| (b &&& m) := by
  apply UInt8.toNat_inj.mp
  simp only [UInt8.toNat_and, UInt8.toNat_or]
  exact Nat.and_or_distrib_right _ _ _

theorem or_lt {a b : Byte} (ha : a < 64) (hb : b < 64) : a ||| b < 64 := by
  rw [UInt8.lt_iff_toNat_lt] at *
  rw [UInt8.toNat_or]
  exact Nat.or_lt_two_pow (n := 6) ha hb

/-- The three facts below, checked over all bytes at once. -/
theorem parts_of_byte (b : Byte) :
    (cut_6_2 b < 64 ∧ cut_2_6 b < 64 ∧ (b &&& 0x03) <<< 4 < 64 ∧
      (b &&& 0xF0) >>> 4 < 64 ∧ (b &&& 0x0F) <<< 2 < 64 ∧ (b &&& 0xC0) >>> 6 < 64) ∧
    ((b &&& 0xF0) >>> 4 &&& 0x30 = 0 ∧ (b &&& 0x03) <<< 4 &&& 0x0F = 0 ∧
      (b &&& 0xC0) >>> 6 &&& 0x3C = 0 ∧ (b &&& 0x0F) <<< 2 &&& 0x03 = 0) ∧
    (cut_6_2 b <<< 2 ||| ((b &&& 0x03) <<< 4 &&& 0x30) >>> 4 = b ∧
      ((b &&& 0xF0) >>> 4 &&& 0x0F) <<< 4 ||| ((b &&& 0x0F) <<< 2 &&& 0x3C) >>> 2 = b ∧
      ((b &&& 0xC0) >>> 6 &&& 0x03) <<< 6 ||| cut_2_6 b = b) := by
  refine forall_byte (p := fun b =>
    (cut_6_2 b < 64 ∧ cut_2_6 b < 64 ∧ (b &&& 0x03) <<< 4 < 64 ∧
      (b &&& 0xF0) >>> 4 < 64 ∧ (b &&& 0x0F) <<< 2 < 64 ∧ (b &&& 0xC0) >>> 6 < 64) ∧
    ((b &&& 0xF0) >>> 4 &&& 0x30 = 0 ∧ (b &&& 0x03) <<< 4 &&& 0x0F = 0 ∧
      (b &&& 0xC0) >>> 6 &&& 0x3C = 0 ∧ (b &&& 0x0F) <<< 2 &&& 0x03 = 0) ∧
    (cut_6_2 b <<< 2 ||| ((b &&& 0x03) <<< 4 &&& 0x30) >>> 4 = b ∧
      ((b &&& 0xF0) >>> 4 &&& 0x0F) <<< 4 ||| ((b &&& 0x0F) <<< 2 &&& 0x3C) >>> 2 = b ∧
      ((b &&& 0xC0) >>> 6 &&& 0x03) <<< 6 ||| cut_2_6 b = b)) ?_ b
  decide +kernel

/-- What is cut from a byte is below 64. -/
theorem parts_lt (b : Byte) : cut_6_2 b < 64 ∧ cut_2_6 b < 64 ∧ (b &&& 0x03) <<< 4 < 64 ∧
    (b &&& 0xF0) >>> 4 < 64 ∧ (b &&& 0x0F) <<< 2 < 64 ∧ (b &&& 0xC0) >>> 6 < 64 :=
  (parts_of_byte b).1

/-- A neighbour's bits stand where a byte has none. -/
theorem parts_disjoint (b : Byte) : (b &&& 0xF0) >>> 4 &&& 0x30 = 0 ∧
    (b &&& 0x03) <<< 4 &&& 0x0F = 0 ∧ (b &&& 0xC0) >>> 6 &&& 0x3C = 0 ∧
    (b &&& 0x0F) <<< 2 &&& 0x03 = 0 :=
  (parts_of_byte b).2.1

/-- The two parts of a byte, in each of the three places of a group. -/
theorem parts_join (b : Byte) : cut_6_2 b <<< 2 ||| ((b &&& 0x03) <<< 4 &&& 0x30) >>> 4 = b ∧
    ((b &&& 0xF0) >>> 4 &&& 0x0F) <<< 4 ||| ((b &&& 0x0F) <<< 2 &&& 0x3C) >>> 2 = b ∧
    ((b &&& 0xC0) >>> 6 &&& 0x03) <<< 6 ||| cut_2_6 b = b :=
  (parts_of_byte b).2.2

theorem cut_6_2_lt (b : Byte) : cut_6_2 b < 64 := (parts_lt b).1

theorem cut_2_6_lt (b : Byte) : cut_2_6 b < 64 := (parts_lt b).2.1

theorem mix_2_4_lt (a b : Byte) : mix_2_4 a b < 64 :=
  or_lt (parts_lt a).2.2.1 (parts_lt b).2.2.2.1

theorem mix_4_2_lt (a b : Byte) : mix_4_2 a b < 64 :=
  or_lt (parts_lt a).2.2.2.2.1 (parts_lt b).2.2.2.2.2

/-- The first byte of a group, from its first two values. -/
theorem mix_6_2_cut (a b : Byte) : mix_6_2 (cut_6_2 a) (mix_2_4 a b) = a := by
  obtain ⟨hb, _⟩ := parts_disjoint b
  rw [mix_6_2, mix_2_4, or_and, hb, UInt8.or_zero]
  exact (parts_join a).1

/-- The second, from the second and third. -/
theorem mix_4_4_mix (a b c : Byte) : mix_4_4 (mix_2_4 a b) (mix_4_2 b c) = b := by
  obtain ⟨_, ha, _⟩ := parts_disjoint a
  obtain ⟨_, _, hc, _⟩ := parts_disjoint c
  rw [mix_4_4, mix_2_4, mix_4_2, or_and, or_and, ha, hc, UInt8.zero_or, UInt8.or_zero]
  exact (parts_join b).2.1

/-- The third, from the third and fourth. -/
theorem mix_2_6_mix (b c : Byte) : mix_2_6 (mix_4_2 b c) (cut_2_6 c) = c := by
  obtain ⟨_, _, _, hb⟩ := parts_disjoint b
  rw [mix_2_6, mix_4_2, or_and, hb, UInt8.zero_or]
  exact (parts_join c).2.2

/-! ## The round trip -/

theorem valueOf_charOf {v : Byte} (h : v < 64) : valueOf (charOf v) = v.toNat := by
  have htable : ∀ n < 64, valueOf (charset.getD n 'A') = n := by decide +kernel
  exact htable v.toNat (UInt8.lt_iff_toNat_lt.mp h)

/-- A character of the alphabet is read as its value. -/
theorem decodeFrom_charOf (phase : Nat) (prev : Byte) {v : Byte} (h : v < 64) (rest : Text) :
    decodeFrom phase prev (charOf v :: rest) = match phase with
      | 0 => decodeFrom 1 v rest
      | 1 => (decodeFrom 2 v rest).map (mix_6_2 prev v :: ·)
      | 2 => (decodeFrom 3 v rest).map (mix_4_4 prev v :: ·)
      | _ => (decodeFrom 0 v rest).map (mix_2_6 prev v :: ·) := by
  have hv : v.toNat < 64 := UInt8.lt_iff_toNat_lt.mp h
  rw [decodeFrom]
  simp only [valueOf_charOf h, UInt8.ofNat_toNat]
  rw [if_neg (by omega)]

theorem decodeFrom_encodeBase64 (bytes : List Byte) (prev : Byte) :
    decodeFrom 0 prev (encodeBase64 bytes) = .ok bytes := by
  induction bytes using encodeBase64.induct generalizing prev with
  | case1 => rfl
  | case2 c1 =>
    simp only [encodeBase64, decodeFrom_charOf, cut_6_2_lt, mix_2_4_lt, mix_6_2_cut]
    rfl
  | case3 c1 c2 =>
    simp only [encodeBase64, decodeFrom_charOf, cut_6_2_lt, mix_2_4_lt, mix_4_2_lt, mix_6_2_cut,
      mix_4_4_mix]
    rfl
  | case4 c1 c2 c3 rest ih =>
    simp only [encodeBase64, decodeFrom_charOf, cut_6_2_lt, mix_2_4_lt, mix_4_2_lt, cut_2_6_lt,
      mix_6_2_cut, mix_4_4_mix, mix_2_6_mix, ih]
    rfl

/-- **What was encoded is decoded again**, whatever its length. -/
theorem decodeBase64_encodeBase64 (bytes : List Byte) :
    decodeBase64 (encodeBase64 bytes) = .ok bytes := decodeFrom_encodeBase64 bytes 0

theorem encodeBase64_injective {a b : List Byte} (h : encodeBase64 a = encodeBase64 b) : a = b := by
  have hd := congrArg decodeBase64 h
  rw [decodeBase64_encodeBase64, decodeBase64_encodeBase64] at hd
  exact Except.ok.inj hd

/-- Four characters for three bytes, without padding. -/
theorem length_encodeBase64 (bytes : List Byte) :
    (encodeBase64 bytes).length = (4 * bytes.length + 2) / 3 := by
  fun_induction encodeBase64 bytes with
  | case1 => rfl
  | case2 c1 => simp
  | case3 c1 c2 => simp
  | case4 c1 c2 c3 rest ih =>
    simp only [List.length_cons, ih]
    omega

theorem charOf_mem {v : Byte} (h : v < 64) : charOf v ∈ charset := by
  have htable : ∀ n < 64, charset.getD n 'A' ∈ charset := by decide +kernel
  exact htable v.toNat (UInt8.lt_iff_toNat_lt.mp h)

/-- An encoded text is made of the 64 characters. -/
theorem encodeBase64_charset (bytes : List Byte) : ∀ c ∈ encodeBase64 bytes, c ∈ charset := by
  induction bytes using encodeBase64.induct with
  | case1 => simp [encodeBase64]
  | case2 c1 => simp [encodeBase64, charOf_mem, cut_6_2_lt, mix_2_4_lt]
  | case3 c1 c2 => simp [encodeBase64, charOf_mem, cut_6_2_lt, mix_2_4_lt, mix_4_2_lt]
  | case4 c1 c2 c3 rest ih =>
    simpa [encodeBase64, charOf_mem, cut_6_2_lt, mix_2_4_lt, mix_4_2_lt, cut_2_6_lt] using ih

/-- None of them ends an argument of a command, starts a format or controls a terminal. -/
theorem charset_plain : ∀ c ∈ charset, c ≠ ' ' ∧ c ≠ '%' ∧ 32 < c.toNat ∧ c.toNat < 127 := by
  have htable : charset.all (fun c =>
      c ≠ ' ' ∧ c ≠ '%' ∧ 32 < c.toNat ∧ c.toNat < 127) = true := by decide +kernel
  simpa using htable

theorem space_notMem_encodeBase64 (bytes : List Byte) : ' ' ∉ encodeBase64 bytes :=
  fun h => (charset_plain ' ' (encodeBase64_charset bytes ' ' h)).1 rfl

theorem encodeBase64_ne_nil {bytes : List Byte} (h : bytes ≠ []) : encodeBase64 bytes ≠ [] := by
  cases bytes using encodeBase64.fun_cases <;> simp_all [encodeBase64]

end Encoder
end DrgbServer.Utils
