import DrgbServer.Utils.Encoder

/-! # `Encoder` on the machine

`EncodeBase64` counts its groups with an `int` and computes the places of their bytes from
it; `DecodeBase64` indexes `mapset` with a `char`, which is signed, and adds a `char` to the
address of a message. Here a `std::string` is a list of bytes, and `none` is what the
language leaves undefined: an `int` that overflows, an index or a pointer outside of its
array. `Encoder.lean` has the two functions on texts, without such limits. -/
namespace DrgbServer.Utils
namespace Encoder.Machine

/-- A `char`. -/
def signed (c : Byte) : Int := (c.toNat : Int).bmod 256

def byteOf (c : Char) : Byte := UInt8.ofNat c.toNat

def chr (c : Byte) : Char := Char.ofNat c.toNat

/-! ## The source -/

/-- `bytes[3 * i + k]`. -/
def byteAt (bytes : List Byte) (i k : Int) : Option Byte := do
  let place ← int (3 * i)
  let place ← int (place + k)
  bytes[place.toNat]?

/-- The loop of `EncodeBase64`, with the number of groups to come. -/
def encodeGroups (bytes : List Byte) : Nat → Int → Option Text
  | 0, _ => some []
  | left + 1, i => do
    let c1 ← byteAt bytes i 0
    let c2 ← byteAt bytes i 1
    let c3 ← byteAt bytes i 2
    let next ← int (i + 1)
    let rest ← encodeGroups bytes left next
    some (charOf (cut_6_2 c1) :: charOf (mix_2_4 c1 c2) :: charOf (mix_4_2 c2 c3) ::
      charOf (cut_2_6 c3) :: rest)

/-- The `switch` over `len % 3`. -/
def encodeTail (bytes : List Byte) : Text :=
  let len := bytes.length
  match len % 3 with
  | 1 =>
    let c1 := bytes.getD (len - 1) 0
    [charOf (cut_6_2 c1), charOf (mix_2_4 c1 0)]
  | 2 =>
    let c1 := bytes.getD (len - 2) 0
    let c2 := bytes.getD (len - 1) 0
    [charOf (cut_6_2 c1), charOf (mix_2_4 c1 c2), charOf (mix_4_2 c2 0)]
  | _ => []

def encodeBase64 (bytes : List Byte) : Option Text :=
  (encodeGroups bytes (bytes.length / 3) 0).map (· ++ encodeTail bytes)

def mapsetAt (index : Int) : Option Nat := if 0 ≤ index then mapset[index.toNat]? else none

def unknownCharacter : Text := "Unknown Character : ".toList

/-- `"Unknown Character : " + c`: what is read from the address as far as the terminator. -/
def unknown (c : Byte) : Option Exn :=
  if 0 ≤ signed c ∧ signed c ≤ unknownCharacter.length then
    some (.stdOther (String.ofList (unknownCharacter.drop (signed c).toNat)))
  else none

/-- The loop of `DecodeBase64`: `prev` is the value of the character before. -/
def decodeChars (phase : Nat) (prev : Byte) : List Byte → Option (Except Exn (List Byte))
  | [] => some (if phase = 1 then .error (.stdOther "Broken Data") else .ok [])
  | c :: rest => do
    let d ← mapsetAt (signed c)
    if d ≥ 255 then (unknown c).map .error
    else
      let uc := UInt8.ofNat d
      match phase with
      | 0 => decodeChars 1 uc rest
      | 1 => (decodeChars 2 uc rest).map (·.map (mix_6_2 prev uc :: ·))
      | 2 => (decodeChars 3 uc rest).map (·.map (mix_4_4 prev uc :: ·))
      | _ => (decodeChars 0 uc rest).map (·.map (mix_2_6 prev uc :: ·))

def decodeBase64 (str : List Byte) : Option (Except Exn (List Byte)) := decodeChars 0 0 str

/-! ## The table -/

/-- The byte is one of the 64 characters. -/
def inAlphabet (c : Byte) : Bool := charset.contains (chr c)

/-- The alphabet by its codes. -/
def alphabetCodes : List Nat :=
  List.range' 65 26 ++ List.range' 97 26 ++ List.range' 48 10 ++ [43, 47]

theorem charset_codes : charset.map Char.toNat = alphabetCodes := by decide +kernel

theorem toNat_chr (c : Byte) : (chr c).toNat = c.toNat :=
  forall_byte (p := fun c => (chr c).toNat = c.toNat) (by decide +kernel) c

theorem inAlphabet_eq (c : Byte) : inAlphabet c = alphabetCodes.contains c.toNat := by
  rw [Bool.eq_iff_iff, inAlphabet, List.contains_iff_mem, List.contains_iff_mem, ← charset_codes,
    ← toNat_chr, List.mem_map_of_injective fun _ _ => Char.toNat_inj.mp]

theorem signed_of_lt {c : Byte} (h : c.toNat < 128) : signed c = c.toNat :=
  Int.bmod_eq_of_le (by omega) (by omega)

theorem signed_of_le {c : Byte} (h : 128 ≤ c.toNat) : signed c = c.toNat - 256 := by
  have hlt := c.toNat_lt
  unfold signed
  rw [Int.bmod_def]
  split
  · omega
  · omega

/-- The table has a place for each byte of ASCII. -/
theorem mapsetAt_of_lt {c : Byte} (h : c.toNat < 128) :
    mapsetAt (signed c) = some (valueOf (chr c)) := by
  have hlength : mapset.length = 256 := by decide +kernel
  have hplace : c.toNat < mapset.length := by omega
  rw [signed_of_lt h, mapsetAt, if_pos (Int.natCast_nonneg _), Int.toNat_natCast, valueOf,
    toNat_chr, List.getD_eq_getElem?_getD, List.getElem?_eq_getElem hplace]
  rfl

/-- What is negative as a `char` has no place in it. -/
theorem mapsetAt_of_le {c : Byte} (h : 128 ≤ c.toNat) : mapsetAt (signed c) = none := by
  have hlt := c.toNat_lt
  rw [signed_of_le h, mapsetAt, if_neg (by omega)]

/-- The alphabet has values, the rest of ASCII has none. -/
theorem mapset_alphabet : ∀ n < 128,
    if alphabetCodes.contains n then mapset.getD n 255 < 64 else mapset.getD n 255 = 255 := by
  decide +kernel

theorem valueOf_chr {c : Byte} (h : c.toNat < 128) :
    if inAlphabet c then valueOf (chr c) < 64 else valueOf (chr c) = 255 := by
  rw [inAlphabet_eq, valueOf, toNat_chr]
  exact mapset_alphabet c.toNat h

theorem toNat_of_inAlphabet {c : Byte} (h : inAlphabet c = true) : c.toNat < 128 := by
  have hascii : ∀ n ∈ alphabetCodes, n < 128 := by decide
  rw [inAlphabet_eq, List.contains_iff_mem] at h
  exact hascii _ h

theorem mapsetAt_of_alphabet {c : Byte} (h : inAlphabet c = true) :
    mapsetAt (signed c) = some (valueOf (chr c)) ∧ valueOf (chr c) < 64 := by
  have hlt := toNat_of_inAlphabet h
  have hvalue := valueOf_chr hlt
  rw [if_pos h] at hvalue
  exact ⟨mapsetAt_of_lt hlt, hvalue⟩

/-- The message starts inside of its text for the first 21 bytes only. -/
theorem unknown_isSome (c : Byte) : (unknown c).isSome = true ↔ c.toNat ≤ 20 := by
  have hlength : (unknownCharacter.length : Int) = 20 := rfl
  have hsigned : (0 ≤ signed c ∧ signed c ≤ unknownCharacter.length) ↔ c.toNat ≤ 20 := by
    rw [hlength]
    rcases lt_or_ge c.toNat 128 with hlt | hge
    · rw [signed_of_lt hlt]
      omega
    · have hbyte := c.toNat_lt
      rw [signed_of_le hge]
      omega
  rw [unknown, ← hsigned]
  split
  · next h => exact iff_of_true rfl h
  · next h => exact iff_of_false nofun h

/-! ## The decoder -/

theorem decodeChars_cons {phase : Nat} {prev c : Byte} (hc : inAlphabet c = true)
    (rest : List Byte) : decodeChars phase prev (c :: rest) =
      match phase with
      | 0 => decodeChars 1 (UInt8.ofNat (valueOf (chr c))) rest
      | 1 => (decodeChars 2 (UInt8.ofNat (valueOf (chr c))) rest).map
          (·.map (mix_6_2 prev (UInt8.ofNat (valueOf (chr c))) :: ·))
      | 2 => (decodeChars 3 (UInt8.ofNat (valueOf (chr c))) rest).map
          (·.map (mix_4_4 prev (UInt8.ofNat (valueOf (chr c))) :: ·))
      | _ => (decodeChars 0 (UInt8.ofNat (valueOf (chr c))) rest).map
          (·.map (mix_2_6 prev (UInt8.ofNat (valueOf (chr c))) :: ·)) := by
  obtain ⟨hvalue, hlt⟩ := mapsetAt_of_alphabet hc
  rw [decodeChars, hvalue, Option.bind_eq_bind, Option.bind_some, if_neg (by omega)]

/-- A character outside of the alphabet ends the loop. -/
theorem decodeChars_foreign {phase : Nat} {prev c : Byte} (hc : inAlphabet c = false)
    (rest : List Byte) : decodeChars phase prev (c :: rest) = (unknown c).map .error := by
  rcases lt_or_ge c.toNat 128 with hlt | hge
  · have hvalue := valueOf_chr hlt
    rw [hc, if_neg Bool.false_ne_true] at hvalue
    rw [decodeChars, mapsetAt_of_lt hlt, Option.bind_eq_bind, Option.bind_some, hvalue,
      if_pos le_rfl]
  · have hnone : unknown c = none := by
      rw [← Option.not_isSome_iff_eq_none, unknown_isSome]
      omega
    rw [decodeChars, mapsetAt_of_le hge, Option.bind_eq_bind, Option.bind_none, hnone,
      Option.map_none]

/-- The bytes that are complete after so many characters. -/
def complete (chars : Nat) : Nat := 3 * chars / 4

/-- The result of the loop over `n` characters of the alphabet, from a phase on. -/
def Counts (phase n : Nat) (result : Except Exn (List Byte)) : Prop :=
  if (phase + n) % 4 = 1 then result = .error (.stdOther "Broken Data")
  else ∃ bytes, result = .ok bytes ∧ complete phase + bytes.length = complete (phase + n)

/-- A phase that completes a byte, before the others. -/
theorem Counts.emit {phase next n : Nat} {result : Except Exn (List Byte)}
    (h : Counts next n result) (b : Byte) (hmod : (next + n) % 4 = (phase + (n + 1)) % 4)
    (hbyte : complete phase + 1 + complete (next + n) =
      complete (phase + (n + 1)) + complete next) :
    Counts phase (n + 1) (result.map (b :: ·)) := by
  unfold Counts at h ⊢
  rw [hmod] at h
  split at h
  · rename_i hbroken
    rw [if_pos hbroken, h]
    rfl
  · rename_i hwhole
    rw [if_neg hwhole]
    obtain ⟨bytes, rfl, hlen⟩ := h
    refine ⟨b :: bytes, rfl, ?_⟩
    rw [List.length_cons]
    omega

theorem decodeChars_alphabet {str : List Byte} (hstr : ∀ c ∈ str, inAlphabet c = true)
    (phase : Nat) (hphase : phase < 4) (prev : Byte) :
    ∃ result, decodeChars phase prev str = some result ∧ Counts phase str.length result := by
  induction str generalizing phase prev with
  | nil =>
    refine ⟨_, rfl, ?_⟩
    rw [Counts, List.length_nil, Nat.add_zero, Nat.mod_eq_of_lt hphase]
    split
    · rfl
    · exact ⟨[], rfl, rfl⟩
  | cons c rest ih =>
    obtain ⟨hc, hrest⟩ := List.forall_mem_cons.mp hstr
    have hnext := fun (next : Nat) (h : next < 4) =>
      ih hrest _ h (UInt8.ofNat (valueOf (chr c)))
    rw [decodeChars_cons hc, List.length_cons]
    -- the phases in turn: the first completes no byte, the others one each
    obtain rfl | rfl | rfl | rfl : phase = 0 ∨ phase = 1 ∨ phase = 2 ∨ phase = 3 := by omega
    · obtain ⟨result, hrun, hresult⟩ := hnext 1 (by omega)
      refine ⟨result, hrun, ?_⟩
      unfold Counts complete at hresult ⊢
      rwa [show 1 + rest.length = 0 + (rest.length + 1) by omega] at hresult
    · obtain ⟨result, hrun, hresult⟩ := hnext 2 (by omega)
      refine ⟨_, by rw [hrun]; rfl, hresult.emit _ (by omega) (by unfold complete; omega)⟩
    · obtain ⟨result, hrun, hresult⟩ := hnext 3 (by omega)
      refine ⟨_, by rw [hrun]; rfl, hresult.emit _ (by omega) (by unfold complete; omega)⟩
    · obtain ⟨result, hrun, hresult⟩ := hnext 0 (by omega)
      refine ⟨_, by rw [hrun]; rfl, hresult.emit _ (by omega) (by unfold complete; omega)⟩

/-- The first character outside of the alphabet decides. -/
theorem decodeChars_of_foreign {before rest : List Byte} {c : Byte}
    (hbefore : ∀ b ∈ before, inAlphabet b = true) (hc : inAlphabet c = false) {phase : Nat}
    (hphase : phase < 4) (prev : Byte) :
    decodeChars phase prev (before ++ c :: rest) = (unknown c).map .error := by
  induction before generalizing phase prev with
  | nil => exact decodeChars_foreign hc rest
  | cons b before ih =>
    obtain ⟨hb, hbefore⟩ := List.forall_mem_cons.mp hbefore
    have hnext := fun (next : Nat) (h : next < 4) =>
      ih hbefore h (UInt8.ofNat (valueOf (chr b)))
    have herror : ∀ byte : Byte, ((unknown c).map Except.error).map
        (·.map (byte :: ·)) = (unknown c).map (Except.error (α := List Byte)) := by
      intro byte
      cases unknown c <;> rfl
    rw [List.cons_append, decodeChars_cons hb]
    obtain rfl | rfl | rfl | rfl : phase = 0 ∨ phase = 1 ∨ phase = 2 ∨ phase = 3 := by omega
    · exact hnext 1 (by omega)
    · exact (congrArg (Option.map _) (hnext 2 (by omega))).trans (herror (mix_6_2 prev _))
    · exact (congrArg (Option.map _) (hnext 3 (by omega))).trans (herror (mix_4_4 prev _))
    · exact (congrArg (Option.map _) (hnext 0 (by omega))).trans (herror (mix_2_6 prev _))

/-! ## What the decoder accepts -/

/-- The decoder does what it says: it gives the bytes of a text over the alphabet whose last
group has more than one character, and throws at any other text. -/
def Specified (str : List Byte) : Prop :=
  if str.all inAlphabet = true ∧ str.length % 4 ≠ 1 then
    ∃ bytes, decodeBase64 str = some (.ok bytes) ∧ bytes.length = 3 * str.length / 4
  else ∃ what, decodeBase64 str = some (.error (.stdOther what))

theorem specified_of_alphabet {str : List Byte} (h : ∀ c ∈ str, inAlphabet c = true) :
    Specified str := by
  obtain ⟨result, hrun, hresult⟩ := decodeChars_alphabet h 0 (by omega) 0
  unfold Specified
  unfold Counts complete at hresult
  rw [Nat.zero_add] at hresult
  by_cases hmod : str.length % 4 = 1
  · rw [if_pos hmod] at hresult
    rw [if_neg fun hall => hall.2 hmod, decodeBase64, hrun, hresult]
    exact ⟨_, rfl⟩
  · rw [if_neg hmod] at hresult
    obtain ⟨bytes, rfl, hlen⟩ := hresult
    rw [if_pos ⟨List.all_eq_true.mpr h, hmod⟩]
    exact ⟨bytes, hrun, by omega⟩

theorem specified_of_foreign {before : List Byte} (hbefore : ∀ b ∈ before, inAlphabet b = true)
    {c : Byte} (hc : inAlphabet c = false) (rest : List Byte) :
    Specified (before ++ c :: rest) ↔ c.toNat ≤ 20 := by
  have hforeign : ¬ (before ++ c :: rest).all inAlphabet = true := by
    intro hall
    rw [List.all_eq_true.mp hall c (by simp)] at hc
    cases hc
  rw [Specified, if_neg fun h => hforeign h.1, decodeBase64,
    decodeChars_of_foreign hbefore hc (by omega), ← unknown_isSome]
  constructor
  · rintro ⟨what, h⟩
    obtain ⟨e, he, -⟩ := Option.map_eq_some_iff.mp h
    rw [he]
    rfl
  · intro h
    obtain ⟨e, he⟩ := Option.isSome_iff_exists.mp h
    unfold unknown at he
    split at he
    · cases he
      exact ⟨_, by rw [unknown, if_pos (by assumption)]; rfl⟩
    · cases he

/-- **The decoder does what it says** at exactly the texts whose first character outside of
the alphabet, if there is one, has a value of at most 20: the address of the message is then
inside of it. At any other text it forms an index or a pointer outside of its array. -/
theorem specified_iff (str : List Byte) :
    Specified str ↔ ∀ c, str.find? (!inAlphabet ·) = some c → c.toNat ≤ 20 := by
  cases hfind : str.find? (!inAlphabet ·) with
  | none =>
    refine ⟨fun _ => nofun, fun _ => specified_of_alphabet fun c hc => ?_⟩
    simpa using List.find?_eq_none.mp hfind c hc
  | some c =>
    obtain ⟨hc, before, rest, rfl, hbefore⟩ := List.find?_eq_some_iff_append.mp hfind
    rw [specified_of_foreign (fun b hb => by simpa using hbefore b hb) (by simpa using hc)]
    simp

/-- The three characters of `BrokenTest`: the message is looked for behind its end. -/
theorem not_specified_broken : ¬ Specified [45, 61, 34] := by
  have hempty : ∀ b ∈ ([] : List Byte), inAlphabet b = true := by simp
  have hdash : inAlphabet 45 = false := by decide +kernel
  have hforeign := specified_of_foreign hempty hdash [61, 34]
  intro h
  have : (45 : Byte).toNat ≤ 20 := hforeign.mp h
  revert this
  decide

/-! ## The encoder -/

theorem byteAt_eq {bytes : List Byte} {i k place sum : Int} (hplace : int (3 * i) = some place)
    (hsum : int (place + k) = some sum) : byteAt bytes i k = bytes[sum.toNat]? := by
  rw [byteAt, hplace]
  simp only [Option.bind_eq_bind, Option.bind_some, hsum]

theorem byteAt_of_lt {bytes : List Byte} {i k : Nat} (h : 3 * i + k < 2 ^ 31) :
    byteAt bytes i k = bytes[3 * i + k]? := by
  have hplace : int (3 * i) = some (3 * i : Int) := int_of_fits (by omega)
  have hsum : int (3 * i + k) = some (3 * i + k : Int) := int_of_fits (by omega)
  have hnat : (3 * i + k : Int).toNat = 3 * i + k := by omega
  rw [byteAt_eq hplace hsum, hnat]

/-- The third byte of a group is out of reach. -/
theorem byteAt_two_eq_none {bytes : List Byte} {i : Int} (h : 2 ^ 31 ≤ 3 * i + 2) :
    byteAt bytes i 2 = none := by
  have hsum : int (3 * i + 2) = none := int_of_overflow h
  rw [byteAt, Option.bind_eq_bind, Option.bind_eq_none_iff]
  intro place hplace
  obtain ⟨-, hvalue⟩ := Option.ite_none_right_eq_some.mp hplace
  rw [← Option.some.inj hvalue, hsum]
  rfl

theorem encodeGroups_succ {bytes : List Byte} {left : Nat} {i next : Int} {c1 c2 c3 : Byte}
    {rest : Text} (h1 : byteAt bytes i 0 = some c1) (h2 : byteAt bytes i 1 = some c2)
    (h3 : byteAt bytes i 2 = some c3) (hnext : int (i + 1) = some next)
    (hrest : encodeGroups bytes left next = some rest) :
    encodeGroups bytes (left + 1) i = some (charOf (cut_6_2 c1) :: charOf (mix_2_4 c1 c2) ::
      charOf (mix_4_2 c2 c3) :: charOf (cut_2_6 c3) :: rest) := by
  simp only [encodeGroups, Option.bind_eq_bind, h1, h2, h3, hnext, hrest, Option.bind_some]

theorem getD_drop (bytes : List Byte) (n k : Nat) :
    bytes.getD (n + k) 0 = (bytes.drop n).getD k 0 := by
  rw [List.getD_eq_getElem?_getD, List.getD_eq_getElem?_getD, List.getElem?_drop]

/-- The short group at the end. -/
theorem encodeTail_eq (bytes : List Byte) :
    encodeTail bytes = Encoder.encodeBase64 (bytes.drop (3 * (bytes.length / 3))) := by
  have hlen : (bytes.drop (3 * (bytes.length / 3))).length = bytes.length % 3 := by
    rw [List.length_drop]
    omega
  have hget := getD_drop bytes (3 * (bytes.length / 3))
  unfold encodeTail
  match hdrop : bytes.drop (3 * (bytes.length / 3)) with
  | [] =>
    rw [hdrop, List.length_nil] at hlen
    simp only [← hlen]
    rfl
  | [c1] =>
    rw [hdrop, List.length_singleton] at hlen
    have h1 := hget 0
    rw [hdrop, show 3 * (bytes.length / 3) + 0 = bytes.length - 1 by omega] at h1
    simp only [← hlen, h1]
    rfl
  | [c1, c2] =>
    rw [hdrop, List.length_cons, List.length_singleton] at hlen
    have h1 := hget 0
    have h2 := hget 1
    rw [hdrop, show 3 * (bytes.length / 3) + 0 = bytes.length - 2 by omega] at h1
    rw [hdrop, show 3 * (bytes.length / 3) + 1 = bytes.length - 1 by omega] at h2
    simp only [← hlen, h1, h2]
    rfl
  | _ :: _ :: _ :: _ =>
    rw [hdrop] at hlen
    simp only [List.length_cons] at hlen
    omega

/-- Encoding from a group on. -/
theorem encodeGroups_eq {bytes : List Byte} (hlen : bytes.length ≤ 2 ^ 31) :
    ∀ (left i : Nat), i + left = bytes.length / 3 → ∃ text,
      encodeGroups bytes left i = some text ∧
        text ++ encodeTail bytes = Encoder.encodeBase64 (bytes.drop (3 * i)) := by
  intro left
  induction left with
  | zero =>
    intro i hi
    refine ⟨[], rfl, ?_⟩
    rw [encodeTail_eq, ← hi]
    rfl
  | succ left ih =>
    intro i hi
    obtain ⟨text, hrun, htext⟩ := ih (i + 1) (by omega)
    have hbyte : ∀ k : Nat, k < 3 → byteAt bytes i k = some ((bytes.drop (3 * i)).getD k 0) := by
      intro k hk
      rw [byteAt_of_lt (by omega), ← getD_drop, List.getD_eq_getElem?_getD,
        List.getElem?_eq_getElem (by omega)]
      rfl
    have hdropLen : 3 ≤ (bytes.drop (3 * i)).length := by
      rw [List.length_drop]
      omega
    have hrest : bytes.drop (3 * (i + 1)) = (bytes.drop (3 * i)).drop 3 := by
      rw [List.drop_drop]
      rfl
    rw [hrest] at htext
    match hdrop : bytes.drop (3 * i) with
    | c1 :: c2 :: c3 :: rest =>
      rw [hdrop] at htext hbyte
      refine ⟨_, encodeGroups_succ (hbyte 0 (by omega)) (hbyte 1 (by omega)) (hbyte 2 (by omega))
        (int_of_fits (by omega)) hrun, ?_⟩
      have htail : text ++ encodeTail bytes = Encoder.encodeBase64 rest := htext
      rw [Encoder.encodeBase64, ← htail]
      rfl
    | [] | [_] | [_, _] =>
      rw [hdrop] at hdropLen
      simp only [List.length_cons, List.length_nil] at hdropLen
      omega

theorem encodeBase64_of_le {bytes : List Byte} (hlen : bytes.length ≤ 2 ^ 31) :
    encodeBase64 bytes = some (Encoder.encodeBase64 bytes) := by
  obtain ⟨text, hrun, htext⟩ := encodeGroups_eq hlen (bytes.length / 3) 0 (Nat.zero_add _)
  rw [encodeBase64, show (0 : Int) = ((0 : Nat) : Int) from rfl, hrun, Option.map_some, htext]
  rfl

/-- Where the last group lies beyond the range of an `int` the loop overflows. -/
theorem encodeGroups_overflow (bytes : List Byte) : ∀ (left : Nat) (i : Int), 0 < left →
    2 ^ 31 ≤ 3 * (i + left) - 1 → encodeGroups bytes left i = none := by
  intro left
  induction left with
  | zero => exact fun _ h => absurd h (lt_irrefl 0)
  | succ left ih =>
    intro i _ hbig
    simp only [encodeGroups, Option.bind_eq_bind, Option.bind_eq_none_iff]
    intro c1 _ c2 _ c3 h3 next hnext
    obtain ⟨-, hvalue⟩ := Option.ite_none_right_eq_some.mp hnext
    cases left with
    | zero =>
      rw [byteAt_two_eq_none (by push_cast at hbig; omega)] at h3
      cases h3
    | succ left =>
      rw [ih next (Nat.succ_pos left) (by
        rw [← Option.some.inj hvalue]
        push_cast at hbig ⊢
        omega)]
      exact nofun

theorem encodeBase64_overflow {bytes : List Byte} (hlen : 2 ^ 31 < bytes.length) :
    encodeBase64 bytes = none := by
  rw [encodeBase64, encodeGroups_overflow bytes (bytes.length / 3) 0 (by omega) (by omega)]
  rfl

/-! ## The round trip -/

/-- Over the alphabet the two decoders are one. -/
theorem decodeChars_eq_decodeFrom {str : List Byte} (hstr : ∀ c ∈ str, inAlphabet c = true)
    (phase : Nat) (prev : Byte) :
    decodeChars phase prev str = some (decodeFrom phase prev (str.map chr)) := by
  induction str generalizing phase prev with
  | nil => rfl
  | cons c rest ih =>
    obtain ⟨hc, hrest⟩ := List.forall_mem_cons.mp hstr
    have hlt := (mapsetAt_of_alphabet hc).2
    rw [decodeChars_cons hc, List.map_cons, decodeFrom]
    dsimp only
    rw [if_neg (by omega)]
    rcases phase with _ | _ | _ | phase
    · exact ih hrest 1 _
    · exact congrArg (Option.map _) (ih hrest 2 _)
    · exact congrArg (Option.map _) (ih hrest 3 _)
    · exact congrArg (Option.map _) (ih hrest 0 _)

theorem chr_byteOf {c : Char} (h : c ∈ charset) :
    chr (byteOf c) = c ∧ inAlphabet (byteOf c) = true := by
  have htable : charset.all (fun c => chr (byteOf c) = c ∧ inAlphabet (byteOf c) = true) = true := by
    decide +kernel
  simpa using List.all_eq_true.mp htable c h

theorem decodeBase64_of_charset {text : Text} (h : ∀ c ∈ text, c ∈ charset) :
    decodeBase64 (text.map byteOf) = some (Encoder.decodeBase64 text) := by
  have hstr : ∀ c ∈ text.map byteOf, inAlphabet c = true := by
    intro c hc
    obtain ⟨a, ha, rfl⟩ := List.mem_map.mp hc
    exact (chr_byteOf (h a ha)).2
  have hmap : (text.map byteOf).map chr = text := by
    rw [List.map_map]
    exact (List.map_congr_left fun c hc => (chr_byteOf (h c hc)).1).trans (List.map_id text)
  rw [decodeBase64, decodeChars_eq_decodeFrom hstr, hmap]
  rfl

/-- The encoder gives a text that the decoder takes back, of four characters for three bytes,
all from the alphabet and so none that a command or a format treats otherwise, and gives it
for no other bytes. -/
def RoundTrips (bytes : List Byte) : Prop :=
  ∃ text, encodeBase64 bytes = some text ∧
    decodeBase64 (text.map byteOf) = some (.ok bytes) ∧
    text.length = (4 * bytes.length + 2) / 3 ∧
    (∀ c ∈ text, c ∈ charset ∧ c ≠ ' ' ∧ c ≠ '%' ∧ 32 < c.toNat ∧ c.toNat < 127) ∧
    ∀ others, encodeBase64 others = some text → others = bytes

/-- **Base64 round trip**: for exactly the sequences of at most 2^31 bytes. From there on the
place of a byte does not fit the `int` it is computed in. -/
theorem roundTrips_iff (bytes : List Byte) : RoundTrips bytes ↔ bytes.length ≤ 2 ^ 31 := by
  constructor
  · rintro ⟨text, htext, -⟩
    by_contra hlen
    rw [encodeBase64_overflow (not_le.mp hlen)] at htext
    cases htext
  · intro hlen
    have hcharset := encodeBase64_charset bytes
    refine ⟨_, encodeBase64_of_le hlen, ?_, length_encodeBase64 bytes,
      fun c hc => ⟨hcharset c hc, charset_plain c (hcharset c hc)⟩, ?_⟩
    · rw [decodeBase64_of_charset hcharset, decodeBase64_encodeBase64]
    · intro others hothers
      have hfits : others.length ≤ 2 ^ 31 := by
        by_contra hlen
        rw [encodeBase64_overflow (not_le.mp hlen)] at hothers
        cases hothers
      rw [encodeBase64_of_le hfits] at hothers
      exact encodeBase64_injective (Option.some.inj hothers)

/-- The place of the first byte of the last group does not fit. -/
theorem not_roundTrips_long : ¬ RoundTrips (List.replicate (2 ^ 31 + 4) 0) := by
  rintro ⟨text, htext, -⟩
  rw [encodeBase64_overflow (by
    rw [List.length_replicate]
    exact Nat.lt_add_of_pos_right four_pos)] at htext
  cases htext

end Encoder.Machine
end DrgbServer.Utils
