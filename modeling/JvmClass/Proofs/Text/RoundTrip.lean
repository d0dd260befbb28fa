/-
  Texts survive modified UTF-8.

  * `Utf16.decode_ofString`: the units of a text spell it;
  * `ModifiedUtf8.unitsRev_encode`: the units of a text are read off its bytes;
  * `ModifiedUtf8.decode_eq_decodeUnits`: the direct way for plain ASCII gives
    what reading unit by unit gives;
  * `ModifiedUtf8.decode_encode`: the bytes of a text spell it.
-/
import JvmClass.Text.ModifiedUtf8

namespace JvmClass

namespace Utf16

theorem toNat_char (c : Char) : c.toNat < 0xD800 ∨ (0xDFFF < c.toNat ∧ c.toNat < 0x110000) := by
  have := c.valid
  simp only [UInt32.isValidChar, Nat.isValidChar] at this
  exact this

theorem units_lt (c : Char) : ∀ unit ∈ units c, unit < 0x10000 := by
  have := toNat_char c
  intro unit h
  unfold units at h
  split at h
  · simp only [List.mem_singleton] at h; omega
  · simp only [List.mem_cons, List.not_mem_nil, or_false] at h; omega

theorem ofString_lt (text : String) : ∀ unit ∈ ofString text, unit < 0x10000 := by
  intro unit h
  simp only [ofString, List.mem_flatMap] at h
  obtain ⟨c, -, h⟩ := h
  exact units_lt c unit h

theorem single_toNat {c : Char} : single c.toNat = c := by
  have := toNat_char c
  have hhigh : isHigh c.toNat = false := by simp [isHigh]; omega
  have hlow : isLow c.toNat = false := by simp [isLow]; omega
  simp [single, hhigh, hlow, Char.ofNat_toNat]

theorem pair_units {c : Char} (h : 0x10000 ≤ c.toNat) :
    pair (0xD800 + (c.toNat - 0x10000) / 0x400) (0xDC00 + (c.toNat - 0x10000) % 0x400) = c := by
  have : 0x10000 + (0xD800 + (c.toNat - 0x10000) / 0x400 - 0xD800) * 0x400 +
      (0xDC00 + (c.toNat - 0x10000) % 0x400 - 0xDC00) = c.toNat := by omega
  rw [pair, this, Char.ofNat_toNat]

/-- The units of a character are read as that character, whatever follows. -/
theorem decodeRev_units (done : List Char) (c : Char) (rest : List Nat) :
    decodeRev done (units c ++ rest) = decodeRev (c :: done) rest := by
  have hc := toNat_char c
  unfold units
  split
  · have hhigh : isHigh c.toNat = false := by simp [isHigh]; omega
    cases rest with
    | nil => simp [decodeRev, single_toNat]
    | cons next rest => simp [decodeRev, hhigh, single_toNat]
  · have hhigh : isHigh (0xD800 + (c.toNat - 0x10000) / 0x400) = true := by
      simp [isHigh]; omega
    have hlow : isLow (0xDC00 + (c.toNat - 0x10000) % 0x400) = true := by
      simp [isLow]; omega
    simp only [List.cons_append, List.nil_append, decodeRev, hhigh, hlow, Bool.and_self, if_true]
    rw [pair_units (by omega)]

theorem decodeRev_flatMap_units (done cs : List Char) :
    decodeRev done (cs.flatMap units) = done.reverse ++ cs := by
  induction cs generalizing done with
  | nil => simp [decodeRev]
  | cons c cs ih => rw [List.flatMap_cons, decodeRev_units, ih]; simp

/-- **The units of a text spell it.** -/
theorem decode_ofString (text : String) : decode (ofString text) = text := by
  simp [decode, ofString, decodeRev_flatMap_units]

end Utf16

namespace ModifiedUtf8

theorem unitsRev_of_lt {b : UInt8} (hb : b.toNat < 0x80) (done : List Nat) (rest : Bytes) :
    unitsRev done (b :: rest) = unitsRev (b.toNat :: done) rest := by
  have h6 : b.toNat / 0x20 ≠ 6 := by omega
  have h14 : b.toNat / 0x10 ≠ 14 := by omega
  have hunit : unit1 b = b.toNat := by simp [unit1, hb]
  match rest with
  | [] => simp [unitsRev, hunit]
  | [c] => simp [unitsRev, hunit, h6]
  | c :: d :: rest => rw [unitsRev]; simp [hunit, h6, h14]

/-- The bytes of a unit are read as that unit, whatever follows. -/
theorem unitsRev_encodeUnit {unit : Nat} (h : unit < 0x10000) (done : List Nat) (rest : Bytes) :
    unitsRev done (encodeUnit unit ++ rest) = unitsRev (unit :: done) rest := by
  unfold encodeUnit
  split
  · have hb : (UInt8.ofNat unit).toNat = unit := by simp [UInt8.toNat_ofNat']; omega
    rw [List.singleton_append, unitsRev_of_lt (by omega), hb]
  · split
    · have hb : (UInt8.ofNat (0xC0 + unit / 0x40)).toNat = 0xC0 + unit / 0x40 := by
        simp [UInt8.toNat_ofNat']; omega
      have hc : (UInt8.ofNat (0x80 + unit % 0x40)).toNat = 0x80 + unit % 0x40 := by
        simp [UInt8.toNat_ofNat']; omega
      have hlead : (UInt8.ofNat (0xC0 + unit / 0x40)).toNat / 0x20 = 6 := by omega
      have hcont : isContinuation (UInt8.ofNat (0x80 + unit % 0x40)) = true := by
        simp [isContinuation]; omega
      have hunit : unit2 (UInt8.ofNat (0xC0 + unit / 0x40)) (UInt8.ofNat (0x80 + unit % 0x40)) =
          unit := by rw [unit2, hb, hc]; omega
      match rest with
      | [] => simp only [List.append_nil, unitsRev, hlead, hcont, hunit, and_self, if_true]
      | d :: rest =>
        simp only [List.cons_append, List.nil_append, unitsRev, hlead, hcont, hunit, and_self,
          if_true]
    · have hb : (UInt8.ofNat (0xE0 + unit / 0x1000)).toNat = 0xE0 + unit / 0x1000 := by
        simp [UInt8.toNat_ofNat']; omega
      have hc : (UInt8.ofNat (0x80 + unit / 0x40 % 0x40)).toNat = 0x80 + unit / 0x40 % 0x40 := by
        simp [UInt8.toNat_ofNat']; omega
      have hd : (UInt8.ofNat (0x80 + unit % 0x40)).toNat = 0x80 + unit % 0x40 := by
        simp [UInt8.toNat_ofNat']; omega
      have hlead6 : ¬ (UInt8.ofNat (0xE0 + unit / 0x1000)).toNat / 0x20 = 6 := by omega
      have hlead : (UInt8.ofNat (0xE0 + unit / 0x1000)).toNat / 0x10 = 14 := by omega
      have hcont₁ : isContinuation (UInt8.ofNat (0x80 + unit / 0x40 % 0x40)) = true := by
        simp [isContinuation]; omega
      have hcont₂ : isContinuation (UInt8.ofNat (0x80 + unit % 0x40)) = true := by
        simp [isContinuation]; omega
      have hunit : unit3 (UInt8.ofNat (0xE0 + unit / 0x1000))
          (UInt8.ofNat (0x80 + unit / 0x40 % 0x40)) (UInt8.ofNat (0x80 + unit % 0x40)) = unit := by
        rw [unit3, hb, hc, hd]; omega
      simp only [List.cons_append, List.nil_append]
      rw [unitsRev]
      simp only [hlead6, hlead, hcont₁, hcont₂, hunit, false_and, and_self, if_true, if_false]

theorem unitsRev_flatMap_encodeUnit {units : List Nat} (h : ∀ unit ∈ units, unit < 0x10000)
    (done : List Nat) : unitsRev done (units.flatMap encodeUnit) = done.reverse ++ units := by
  induction units generalizing done with
  | nil => simp [unitsRev]
  | cons unit units ih =>
    rw [List.flatMap_cons, unitsRev_encodeUnit (h _ List.mem_cons_self),
      ih fun u hu => h u (List.mem_cons_of_mem _ hu)]
    simp

theorem unitsRev_encode (text : String) : unitsRev [] (encode text) = Utf16.ofString text :=
  unitsRev_flatMap_encodeUnit (Utf16.ofString_lt text) []

theorem toNat_of_isPlain {b : UInt8} (h : isPlain b) : b.toNat < 0x80 := by
  simp only [isPlain, Bool.and_eq_true, decide_eq_true_eq] at h
  exact h.2

theorem unitsRev_of_isPlain {bytes : Bytes} (h : bytes.all isPlain) (done : List Nat) :
    unitsRev done bytes = done.reverse ++ bytes.map UInt8.toNat := by
  induction bytes generalizing done with
  | nil => simp [unitsRev]
  | cons b bytes ih =>
    rw [List.all_cons, Bool.and_eq_true] at h
    rw [unitsRev_of_lt (toNat_of_isPlain h.1), ih h.2]
    simp

theorem decodeRev_of_lt {units : List Nat} (h : ∀ unit ∈ units, unit < 0x80) (done : List Char) :
    Utf16.decodeRev done units = done.reverse ++ units.map Char.ofNat := by
  induction units generalizing done with
  | nil => simp [Utf16.decodeRev]
  | cons unit units ih =>
    have hunit := h unit List.mem_cons_self
    have hhigh : Utf16.isHigh unit = false := by simp [Utf16.isHigh]; omega
    have hlow : Utf16.isLow unit = false := by simp [Utf16.isLow]; omega
    have hsingle : Utf16.single unit = Char.ofNat unit := by simp [Utf16.single, hhigh, hlow]
    have hrest : Utf16.decodeRev done (unit :: units) =
        Utf16.decodeRev (Char.ofNat unit :: done) units := by
      cases units <;> simp [Utf16.decodeRev, hhigh, hsingle]
    rw [hrest, ih fun u hu => h u (List.mem_cons_of_mem _ hu)]
    simp

/-- **The direct way for plain ASCII** gives what reading unit by unit
    gives. -/
theorem decode_eq_decodeUnits (bytes : Bytes) : decode bytes = decodeUnits bytes := by
  unfold decode
  split
  next h =>
    have hlt : ∀ unit ∈ bytes.map UInt8.toNat, unit < 0x80 := by
      intro unit hunit
      obtain ⟨b, hb, rfl⟩ := List.mem_map.mp hunit
      exact toNat_of_isPlain (List.all_eq_true.mp h b hb)
    rw [decodeUnits, unitsRev_of_isPlain h, List.reverse_nil, List.nil_append, Utf16.decode,
      decodeRev_of_lt hlt, List.map_map]
    rfl
  · rfl

/-- **The bytes of a text spell it.** -/
theorem decode_encode (text : String) : decode (encode text) = text := by
  rw [decode_eq_decodeUnits, decodeUnits, unitsRev_encode, Utf16.decode_ofString]

end ModifiedUtf8

end JvmClass
