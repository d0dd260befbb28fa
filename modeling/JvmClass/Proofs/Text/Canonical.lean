/-
  The strings of bytes that spell a text.

  * `Canonical`: every character is written in its one form, the shortest for
    its units but for `NUL`, and surrogates come in pairs;
  * `canonical_iff`: exactly these are the forms of texts;
  * `roundTrips_text`: a text is read back from its form, and a string of bytes
    is written back exactly if it is one.
-/
import JvmClass.Proofs.Text.RoundTrip

namespace JvmClass.ModifiedUtf8

/-- A byte `10xxxxxx`. -/
def Follows (b : UInt8) : Prop := 0x80 ≤ b.toNat ∧ b.toNat < 0xC0

/-- The form of one character. -/
inductive CharForm : Bytes → Prop
  | ascii {b : UInt8} : 1 ≤ b.toNat → b.toNat < 0x80 → CharForm [b]
  | nul : CharForm [0xC0, 0x80]
  | two {b c : UInt8} : 0xC2 ≤ b.toNat → b.toNat < 0xE0 → Follows c → CharForm [b, c]
  /-- Three bytes would do with two below `E0 A0`, and are a surrogate from
      `ED A0` to `ED BF`. -/
  | three {b c d : UInt8} : 0xE0 ≤ b.toNat → b.toNat < 0xF0 → Follows c → Follows d →
      (b.toNat = 0xE0 → 0xA0 ≤ c.toNat) → (b.toNat = 0xED → c.toNat < 0xA0) → CharForm [b, c, d]
  /-- A surrogate pair. -/
  | pair {c d e f : UInt8} : 0xA0 ≤ c.toNat → c.toNat < 0xB0 → Follows d →
      0xB0 ≤ e.toNat → e.toNat < 0xC0 → Follows f → CharForm [0xED, c, d, 0xED, e, f]

/-- Forms of characters, one after the other. -/
inductive Canonical : Bytes → Prop
  | nil : Canonical []
  | cons {form rest : Bytes} : CharForm form → Canonical rest → Canonical (form ++ rest)

/-! ## The form of a text -/

theorem toNat_ofNat {n : Nat} (h : n < 0x100) : (UInt8.ofNat n).toNat = n := by
  rw [UInt8.toNat_ofNat']
  omega

theorem charForm_encodeUnit {unit : Nat} (h : unit < 0x10000)
    (hplain : unit < 0xD800 ∨ 0xDFFF < unit) : CharForm (encodeUnit unit) := by
  unfold encodeUnit
  split
  next hascii =>
    have hb := toNat_ofNat (n := unit) (by omega)
    exact .ascii (by omega) (by omega)
  next =>
    split
    next htwo =>
      have hb := toNat_ofNat (n := 0xC0 + unit / 0x40) (by omega)
      have hc := toNat_ofNat (n := 0x80 + unit % 0x40) (by omega)
      by_cases hzero : unit = 0
      · subst hzero
        exact .nul
      · exact .two (by omega) (by omega) ⟨by omega, by omega⟩
    next hthree =>
      have hb := toNat_ofNat (n := 0xE0 + unit / 0x1000) (by omega)
      have hc := toNat_ofNat (n := 0x80 + unit / 0x40 % 0x40) (by omega)
      have hd := toNat_ofNat (n := 0x80 + unit % 0x40) (by omega)
      exact .three (by omega) (by omega) ⟨by omega, by omega⟩ ⟨by omega, by omega⟩
        (by omega) (by omega)

theorem encodeUnit_surrogate {unit : Nat} (hlow : 0xD800 ≤ unit) (hhigh : unit ≤ 0xDFFF) :
    encodeUnit unit = [0xED, UInt8.ofNat (0xA0 + (unit - 0xD800) / 0x40),
      UInt8.ofNat (0x80 + unit % 0x40)] := by
  have hb : 0xE0 + unit / 0x1000 = 0xED := by omega
  have hc : 0x80 + unit / 0x40 % 0x40 = 0xA0 + (unit - 0xD800) / 0x40 := by omega
  unfold encodeUnit
  rw [if_neg (by omega), if_neg (by omega), hb, hc]
  rfl

theorem charForm_units (c : Char) : CharForm ((Utf16.units c).flatMap encodeUnit) := by
  have hc := Utf16.toNat_char c
  unfold Utf16.units
  split
  next hplane =>
    rw [List.flatMap_singleton]
    exact charForm_encodeUnit hplane (by omega)
  next hplane =>
    obtain ⟨n, hn, hlt⟩ : ∃ n, c.toNat - 0x10000 = n ∧ n < 0x100000 := ⟨_, rfl, by omega⟩
    rw [hn, List.flatMap_cons, List.flatMap_singleton,
      @encodeUnit_surrogate (0xD800 + n / 0x400) (by omega) (by omega),
      @encodeUnit_surrogate (0xDC00 + n % 0x400) (by omega) (by omega)]
    have hc := toNat_ofNat (n := 0xA0 + (0xD800 + n / 0x400 - 0xD800) / 0x40) (by omega)
    have hd := toNat_ofNat (n := 0x80 + (0xD800 + n / 0x400) % 0x40) (by omega)
    have he := toNat_ofNat (n := 0xA0 + (0xDC00 + n % 0x400 - 0xD800) / 0x40) (by omega)
    have hf := toNat_ofNat (n := 0x80 + (0xDC00 + n % 0x400) % 0x40) (by omega)
    exact .pair (by omega) (by omega) ⟨by omega, by omega⟩ (by omega) (by omega)
      ⟨by omega, by omega⟩

theorem encode_ofList_cons (c : Char) (cs : List Char) :
    encode (String.ofList (c :: cs)) =
      (Utf16.units c).flatMap encodeUnit ++ encode (String.ofList cs) := by
  simp [encode, Utf16.ofString]

theorem canonical_encode (text : String) : Canonical (encode text) := by
  rw [← String.ofList_toList (s := text)]
  induction text.toList with
  | nil => exact .nil
  | cons c cs ih =>
    rw [encode_ofList_cons]
    exact .cons (charForm_units c) ih

/-! ## The text of a form -/

theorem exists_char {n : Nat} (h : n < 0xD800 ∨ (0xDFFF < n ∧ n < 0x110000)) :
    ∃ c : Char, c.toNat = n :=
  ⟨Char.ofNatAux n h, rfl⟩

theorem ofNat_eq {b : UInt8} {n : Nat} (h : n = b.toNat) : UInt8.ofNat n = b := by
  rw [h, UInt8.ofNat_toNat]

/-- The character of a unit that is no surrogate is written as the unit is. -/
theorem exists_units {unit : Nat} (h : unit < 0x10000) (hplain : unit < 0xD800 ∨ 0xDFFF < unit) :
    ∃ c, encodeUnit unit = (Utf16.units c).flatMap encodeUnit := by
  obtain ⟨c, rfl⟩ := exists_char (n := unit) (by omega)
  exact ⟨c, by rw [Utf16.units, if_pos h, List.flatMap_singleton]⟩

theorem encodeUnit_two {b c : UInt8} (hb : 0xC2 ≤ b.toNat) (hb' : b.toNat < 0xE0)
    (hc : Follows c) :
    encodeUnit ((b.toNat - 0xC0) * 0x40 + (c.toNat - 0x80)) = [b, c] := by
  obtain ⟨hc, hc'⟩ := hc
  unfold encodeUnit
  rw [if_neg (by omega), if_pos (by omega), ofNat_eq (b := b) (by omega),
    ofNat_eq (b := c) (by omega)]

theorem encodeUnit_three {b c d : UInt8} (hb : 0xE0 ≤ b.toNat) (hb' : b.toNat < 0xF0)
    (hc : Follows c) (hd : Follows d) (hshortest : b.toNat = 0xE0 → 0xA0 ≤ c.toNat) :
    encodeUnit ((b.toNat - 0xE0) * 0x1000 + (c.toNat - 0x80) * 0x40 + (d.toNat - 0x80)) =
      [b, c, d] := by
  obtain ⟨hc, hc'⟩ := hc
  obtain ⟨hd, hd'⟩ := hd
  unfold encodeUnit
  rw [if_neg (by omega), if_neg (by omega), ofNat_eq (b := b) (by omega),
    ofNat_eq (b := c) (by omega), ofNat_eq (b := d) (by omega)]

theorem CharForm.exists_units {form : Bytes} (h : CharForm form) :
    ∃ c, form = (Utf16.units c).flatMap encodeUnit := by
  cases h with
  | @ascii b hpos hlt =>
    obtain ⟨c, hc⟩ := @ModifiedUtf8.exists_units b.toNat (by omega) (by omega)
    refine ⟨c, hc ▸ ?_⟩
    rw [encodeUnit, if_pos ⟨hpos, hlt⟩, UInt8.ofNat_toNat]
  | nul => exact ⟨'\x00', rfl⟩
  | @two b c hb hb' hc =>
    rw [← encodeUnit_two hb hb' hc]
    obtain ⟨hc, hc'⟩ := hc
    exact ModifiedUtf8.exists_units (by omega) (by omega)
  | @three b c d hb hb' hc hd hshortest hplain =>
    rw [← encodeUnit_three hb hb' hc hd hshortest]
    obtain ⟨hc, hc'⟩ := hc
    obtain ⟨hd, hd'⟩ := hd
    exact ModifiedUtf8.exists_units (by omega) (by omega)
  | @pair c d e f hc hc' hd he he' hf =>
    obtain ⟨hd, hd'⟩ := hd
    obtain ⟨hf, hf'⟩ := hf
    -- The ten bits that each surrogate carries.
    obtain ⟨high, hhigh⟩ : ∃ n, (c.toNat - 0xA0) * 0x40 + (d.toNat - 0x80) = n := ⟨_, rfl⟩
    obtain ⟨low, hlow⟩ : ∃ n, (e.toNat - 0xB0) * 0x40 + (f.toNat - 0x80) = n := ⟨_, rfl⟩
    obtain ⟨char, hchar⟩ := exists_char (n := 0x10000 + high * 0x400 + low) (by omega)
    have hfirst : 0xD800 + (char.toNat - 0x10000) / 0x400 = 0xD800 + high := by omega
    have hsecond : 0xDC00 + (char.toNat - 0x10000) % 0x400 = 0xDC00 + low := by omega
    refine ⟨char, ?_⟩
    rw [Utf16.units, if_neg (by omega), hfirst, hsecond, List.flatMap_cons, List.flatMap_singleton,
      encodeUnit_surrogate (by omega) (by omega), encodeUnit_surrogate (by omega) (by omega),
      ofNat_eq (b := c) (by omega), ofNat_eq (b := d) (by omega), ofNat_eq (b := e) (by omega),
      ofNat_eq (b := f) (by omega)]
    rfl

/-- **The canonical strings of bytes are the forms of texts.** -/
theorem canonical_iff {bytes : Bytes} : Canonical bytes ↔ ∃ text, bytes = encode text := by
  constructor
  · intro h
    induction h with
    | nil => exact ⟨"", rfl⟩
    | cons hform _ ih =>
      obtain ⟨c, rfl⟩ := hform.exists_units
      obtain ⟨text, rfl⟩ := ih
      refine ⟨String.ofList (c :: text.toList), ?_⟩
      rw [encode_ofList_cons, String.ofList_toList]
  · rintro ⟨text, rfl⟩
    exact canonical_encode text

/-! ## Both ways -/

/-- The bytes of a unit are not zero, and not above `EF`. -/
theorem bounds_encodeUnit {unit : Nat} (h : unit < 0x10000) :
    ∀ b ∈ encodeUnit unit, 0 < b.toNat ∧ b.toNat ≤ 0xEF := by
  unfold encodeUnit
  split
  next => simp [UInt8.toNat_ofNat']; omega
  next =>
    split
    next => simp [UInt8.toNat_ofNat']; omega
    next => simp [UInt8.toNat_ofNat']; omega

theorem bounds_encode (text : String) : ∀ b ∈ encode text, 0 < b.toNat ∧ b.toNat ≤ 0xEF := by
  intro b hb
  obtain ⟨unit, hunit, hb⟩ := List.mem_flatMap.mp hb
  exact bounds_encodeUnit (Utf16.ofString_lt text unit hunit) b hb

/-- **A text is read back from its form**, which has no zero byte and none
    above `EF`; reading by way of units gives what the direct way gives; and a
    string of bytes is written back exactly if it is the form of a text, that is,
    if it is canonical. -/
theorem roundTrips_text :
    (∀ text, decode (encode text) = text ∧ ∀ b ∈ encode text, 0 < b.toNat ∧ b.toNat ≤ 0xEF) ∧
      ∀ bytes, decode bytes = decodeUnits bytes ∧
        (encode (decode bytes) = bytes ↔ ∃ text, bytes = encode text) ∧
        ((∃ text, bytes = encode text) ↔ Canonical bytes) := by
  refine ⟨fun text => ⟨decode_encode text, bounds_encode text⟩, fun bytes => ?_⟩
  refine ⟨decode_eq_decodeUnits bytes, ⟨fun h => ⟨_, h.symm⟩, ?_⟩, canonical_iff.symm⟩
  rintro ⟨text, rfl⟩
  rw [decode_encode]

/-- A text with characters of one byte to six, one of them `NUL`, is read back
    from its form; a lone surrogate is no form of a text. -/
theorem roundTrips_text_mixed :
    encode "a\x00é€😀" =
        [0x61, 0xC0, 0x80, 0xC3, 0xA9, 0xE2, 0x82, 0xAC, 0xED, 0xA0, 0xBD, 0xED, 0xB8, 0x80] ∧
      decode (encode "a\x00é€😀") = "a\x00é€😀" ∧
      0xED ∈ encode "a\x00é€😀" ∧ 0 < (0xED : UInt8).toNat ∧ (0xED : UInt8).toNat ≤ 0xEF ∧
      encode (decode [0xED, 0xA0, 0xBD]) ≠ [0xED, 0xA0, 0xBD] ∧ ¬ Canonical [0xED, 0xA0, 0xBD] := by
  have hform : encode "a\x00é€😀" =
      [0x61, 0xC0, 0x80, 0xC3, 0xA9, 0xE2, 0x82, 0xAC, 0xED, 0xA0, 0xBD, 0xED, 0xB8, 0x80] := by
    decide +kernel
  have hmem : 0xED ∈ encode "a\x00é€😀" := by rw [hform]; decide
  have hlone : encode (decode [0xED, 0xA0, 0xBD]) ≠ [0xED, 0xA0, 0xBD] := by decide +kernel
  obtain ⟨hread, hbounds⟩ := roundTrips_text.1 "a\x00é€😀"
  obtain ⟨-, hwritten, hcanonical⟩ := roundTrips_text.2 [0xED, 0xA0, 0xBD]
  refine ⟨hform, hread, hmem, (hbounds _ hmem).1, (hbounds _ hmem).2, hlone, ?_⟩
  exact fun h => hlone (hwritten.mpr (hcanonical.mpr h))

end JvmClass.ModifiedUtf8
