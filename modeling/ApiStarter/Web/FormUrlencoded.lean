import Mathlib.Data.List.Basic

/-!
# Form encoding

Text is encoded byte by byte: letters, digits and a few marks stand for
themselves, a blank becomes a plus sign and every other byte is written as `%`
and two digits.  Pairs of texts are joined by `=` and `&`, which no encoded text
contains, so the pairs that are read back are those that were written.
-/

namespace Web

/-- The text in UTF-8. -/
def utf8 (text : List Char) : List UInt8 := text.flatMap String.utf8EncodeChar

/-- A UTF-8 decoder.  What it makes of bytes that encode no text is its own affair. -/
structure Utf8Decoder where
  decode : List UInt8 → String
  decode_utf8 : ∀ s : String, decode (utf8 s.toList) = s

/-- The decoder that reads ill-formed bytes as nothing. -/
def Utf8Decoder.strict : Utf8Decoder where
  decode bytes := (String.fromUTF8? bytes.toByteArray).getD ""
  decode_utf8 s := by
    have hbytes : (utf8 s.toList).toByteArray = s.toByteArray := String.utf8Encode_toList
    rw [hbytes, String.fromUTF8?, dif_pos s.isValidUTF8]
    rfl

/-! ## Bytes as digits -/

def hexDigit (n : ℕ) : Char := Char.ofNat (if n < 10 then 48 + n else 55 + n)

def hexValue (c : Char) : Option ℕ :=
  if 48 ≤ c.toNat ∧ c.toNat ≤ 57 then some (c.toNat - 48)
  else if 65 ≤ c.toNat ∧ c.toNat ≤ 70 then some (c.toNat - 55)
  else if 97 ≤ c.toNat ∧ c.toNat ≤ 102 then some (c.toNat - 87)
  else none

def percentEncode (b : UInt8) : List Char :=
  ['%', hexDigit (b.toNat / 16), hexDigit (b.toNat % 16)]

/-- The bytes of a text in which `%` and two digits stand for a byte. -/
def percentDecode : List Char → List UInt8
  | [] => []
  | '%' :: a :: b :: rest =>
      match hexValue a, hexValue b with
      | some x, some y => UInt8.ofNat (16 * x + y) :: percentDecode rest
      | _, _ => 37 :: percentDecode (a :: b :: rest)
  | c :: rest => String.utf8EncodeChar c ++ percentDecode rest

theorem hexValue_hexDigit {n : ℕ} (h : n < 16) : hexValue (hexDigit n) = some n := by
  have hall : ∀ n < 16, hexValue (hexDigit n) = some n := by decide
  exact hall n h

theorem percentDecode_percentEncode (b : UInt8) (rest : List Char) :
    percentDecode (percentEncode b ++ rest) = b :: percentDecode rest := by
  have hb := b.toNat_lt
  have hhigh : hexValue (hexDigit (b.toNat / 16)) = some (b.toNat / 16) :=
    hexValue_hexDigit (by omega)
  have hlow : hexValue (hexDigit (b.toNat % 16)) = some (b.toNat % 16) :=
    hexValue_hexDigit (by omega)
  have hbyte : UInt8.ofNat (16 * (b.toNat / 16) + b.toNat % 16) = b := by
    rw [Nat.div_add_mod]
    exact UInt8.ofNat_toNat
  simp only [percentEncode, List.cons_append, List.nil_append, percentDecode, hhigh, hlow, hbyte]

theorem percentDecode_cons {c : Char} (h : c ≠ '%') (rest : List Char) :
    percentDecode (c :: rest) = String.utf8EncodeChar c ++ percentDecode rest := by
  rw [percentDecode]
  rintro a b tail rfl
  exact absurd rfl h

/-! ## Encoded texts -/

/-- The bytes that stand for themselves. -/
def isFormByte (b : UInt8) : Bool :=
  b == 42 || b == 45 || b == 46 || b == 95 || (48 ≤ b && b ≤ 57) || (65 ≤ b && b ≤ 90) ||
    (97 ≤ b && b ≤ 122)

def formEncodeByte (b : UInt8) : List Char :=
  if b = 32 then ['+'] else if isFormByte b then [Char.ofNat b.toNat] else percentEncode b

def formEncode (s : String) : List Char := (utf8 s.toList).flatMap formEncodeByte

def plusToBlank (c : Char) : Char := if c = '+' then ' ' else c

def formDecode (decoder : Utf8Decoder) (text : List Char) : String :=
  decoder.decode (percentDecode (text.map plusToBlank))

/-- An encoded text has no separator in it and consists of visible characters. -/
structure IsFormChar (c : Char) : Prop where
  ne_amp : c ≠ '&'
  ne_eq : c ≠ '='
  visible : 32 < c.toNat ∧ c.toNat < 127

theorem toNat_lt_of_isFormByte {b : UInt8} (h : isFormByte b = true) :
    32 < b.toNat ∧ b.toNat < 127 ∧ b.toNat ≠ 37 ∧ b.toNat ≠ 38 ∧ b.toNat ≠ 43 ∧ b.toNat ≠ 61 := by
  simp only [isFormByte, Bool.or_eq_true, beq_iff_eq, Bool.and_eq_true, decide_eq_true_eq,
    UInt8.le_iff_toNat_le, ← UInt8.toNat_inj, UInt8.reduceToNat] at h
  omega

theorem toNat_ofNat_of_lt {n : ℕ} (h : n < 128) : (Char.ofNat n).toNat = n := by
  have hall : ∀ n < 128, (Char.ofNat n).toNat = n := by decide
  exact hall n h

theorem utf8EncodeChar_ofNat {n : ℕ} (h : n < 128) :
    String.utf8EncodeChar (Char.ofNat n) = [UInt8.ofNat n] := by
  have hall : ∀ n < 128, String.utf8EncodeChar (Char.ofNat n) = [UInt8.ofNat n] := by decide
  exact hall n h

theorem isFormChar_hexDigit {n : ℕ} (h : n < 16) : IsFormChar (hexDigit n) := by
  have hall : ∀ n < 16, hexDigit n ≠ '&' ∧ hexDigit n ≠ '=' ∧ 32 < (hexDigit n).toNat ∧
      (hexDigit n).toNat < 127 := by decide
  obtain ⟨hamp, heq, hvisible⟩ := hall n h
  exact ⟨hamp, heq, hvisible⟩

theorem isFormChar_of_mem_byte {b : UInt8} {c : Char} (h : c ∈ formEncodeByte b) :
    IsFormChar c := by
  unfold formEncodeByte at h
  split at h
  · obtain rfl := List.mem_singleton.mp h
    exact ⟨by decide, by decide, by decide⟩
  · split at h
    next hb =>
      obtain rfl := List.mem_singleton.mp h
      have hrange := toNat_lt_of_isFormByte hb
      have hnat : (Char.ofNat b.toNat).toNat = b.toNat := toNat_ofNat_of_lt (by omega)
      refine ⟨fun hamp ↦ ?_, fun heq ↦ ?_, by omega⟩
      · exact hrange.2.2.2.1 (hnat.symm.trans (hamp ▸ rfl))
      · exact hrange.2.2.2.2.2 (hnat.symm.trans (heq ▸ rfl))
    next =>
      have hb := b.toNat_lt
      rcases List.mem_cons.mp h with rfl | h
      · exact ⟨by decide, by decide, by decide⟩
      · rcases List.mem_cons.mp h with rfl | h
        · exact isFormChar_hexDigit (by omega)
        · obtain rfl := List.mem_singleton.mp h
          exact isFormChar_hexDigit (by omega)

theorem isFormChar_of_mem {s : String} {c : Char} (h : c ∈ formEncode s) : IsFormChar c := by
  obtain ⟨b, -, hb⟩ := List.mem_flatMap.mp h
  exact isFormChar_of_mem_byte hb

theorem plusToBlank_hexDigit {n : ℕ} (h : n < 16) : plusToBlank (hexDigit n) = hexDigit n := by
  have hall : ∀ n < 16, plusToBlank (hexDigit n) = hexDigit n := by decide
  exact hall n h

theorem percentDecode_formEncodeByte (b : UInt8) (rest : List Char) :
    percentDecode ((formEncodeByte b).map plusToBlank ++ rest) = b :: percentDecode rest := by
  unfold formEncodeByte
  split
  next hb =>
    rw [hb]
    exact percentDecode_cons (by decide) rest
  next =>
    split
    next hb =>
      have hrange := toNat_lt_of_isFormByte hb
      have hnat : (Char.ofNat b.toNat).toNat = b.toNat := toNat_ofNat_of_lt (by omega)
      have hplus : Char.ofNat b.toNat ≠ '+' := fun h ↦ hrange.2.2.2.2.1 (hnat.symm.trans (h ▸ rfl))
      have hpercent : Char.ofNat b.toNat ≠ '%' := fun h ↦ hrange.2.2.1 (hnat.symm.trans (h ▸ rfl))
      rw [List.map_singleton, plusToBlank, if_neg hplus, List.singleton_append,
        percentDecode_cons hpercent, utf8EncodeChar_ofNat (by omega), UInt8.ofNat_toNat]
      rfl
    next =>
      have hb := b.toNat_lt
      have hsame : (percentEncode b).map plusToBlank = percentEncode b := by
        simp only [percentEncode, List.map_cons, List.map_nil]
        rw [plusToBlank_hexDigit (by omega), plusToBlank_hexDigit (by omega)]
        rfl
      rw [hsame, percentDecode_percentEncode]

theorem percentDecode_formEncode (bytes : List UInt8) :
    percentDecode ((bytes.flatMap formEncodeByte).map plusToBlank) = bytes := by
  induction bytes with
  | nil => rfl
  | cons b bytes ih =>
      rw [List.flatMap_cons, List.map_append, percentDecode_formEncodeByte, ih]

/-- An encoded text is read back. -/
theorem formDecode_formEncode (decoder : Utf8Decoder) (s : String) :
    formDecode decoder (formEncode s) = s := by
  rw [formDecode, formEncode, percentDecode_formEncode, decoder.decode_utf8]

/-! ## Pairs -/

def formPair (pair : String × String) : List Char :=
  formEncode pair.1 ++ '=' :: formEncode pair.2

/-- `application/x-www-form-urlencoded` serializing -/
def formSerialize (pairs : List (String × String)) : List Char :=
  ['&'].intercalate (pairs.map formPair)

/-- `application/x-www-form-urlencoded` parsing -/
def formParse (decoder : Utf8Decoder) (text : List Char) : List (String × String) :=
  ((text.splitOn '&').filter (· ≠ [])).map fun sequence ↦
    (formDecode decoder (sequence.takeWhile (· ≠ '=')),
      formDecode decoder ((sequence.dropWhile (· ≠ '=')).drop 1))

/-- The first value under the name. -/
def formValue (decoder : Utf8Decoder) (text : List Char) (name : String) : Option String :=
  ((formParse decoder text).find? fun pair ↦ decide (pair.1 = name)).map Prod.snd

theorem amp_notMem_formPair (pair : String × String) : '&' ∉ formPair pair := by
  intro hmem
  rcases List.mem_append.mp hmem with hmem | hmem
  · exact (isFormChar_of_mem hmem).ne_amp rfl
  · rcases List.mem_cons.mp hmem with heq | hmem
    · exact absurd heq (by decide)
    · exact (isFormChar_of_mem hmem).ne_amp rfl

theorem visible_of_mem_formSerialize {pairs : List (String × String)} {c : Char}
    (h : c ∈ formSerialize pairs) : 32 < c.toNat ∧ c.toNat < 127 := by
  unfold formSerialize at h
  have hpair {p : String × String} (hp : c ∈ formPair p) : 32 < c.toNat ∧ c.toNat < 127 := by
    rcases List.mem_append.mp hp with hp | hp
    · exact (isFormChar_of_mem hp).visible
    · rcases List.mem_cons.mp hp with rfl | hp
      · exact by decide
      · exact (isFormChar_of_mem hp).visible
  induction pairs with
  | nil => cases h
  | cons p pairs ih =>
      cases pairs with
      | nil => exact hpair (by simpa using h)
      | cons p' pairs =>
          rw [List.map_cons, List.map_cons, List.intercalate_cons_cons, ← List.map_cons] at h
          rcases List.mem_append.mp h with h | h
          · rcases List.mem_append.mp h with h | h
            · exact hpair h
            · obtain rfl := List.mem_singleton.mp h
              exact by decide
          · exact ih h

theorem decode_formPair (decoder : Utf8Decoder) (pair : String × String) :
    (formDecode decoder ((formPair pair).takeWhile (· ≠ '=')),
      formDecode decoder (((formPair pair).dropWhile (· ≠ '=')).drop 1)) = pair := by
  have hname : ∀ c ∈ formEncode pair.1, decide (c ≠ '=') = true := fun c hc ↦
    decide_eq_true (isFormChar_of_mem hc).ne_eq
  rw [formPair, List.takeWhile_append_of_pos hname, List.dropWhile_append_of_pos hname]
  simp [formDecode_formEncode]

/-- What is read back are the pairs that were written. -/
theorem formParse_formSerialize (decoder : Utf8Decoder) (pairs : List (String × String)) :
    formParse decoder (formSerialize pairs) = pairs := by
  cases pairs with
  | nil => rfl
  | cons pair pairs =>
      have hsplit : (formSerialize (pair :: pairs)).splitOn '&' = (pair :: pairs).map formPair := by
        apply List.splitOn_intercalate
        · intro sequence hsequence
          obtain ⟨p, -, rfl⟩ := List.mem_map.mp hsequence
          exact amp_notMem_formPair p
        · exact List.cons_ne_nil _ _
      have hfilter : ((pair :: pairs).map formPair).filter (· ≠ []) =
          (pair :: pairs).map formPair := by
        apply List.filter_eq_self.mpr
        intro sequence hsequence
        obtain ⟨p, -, rfl⟩ := List.mem_map.mp hsequence
        simp [formPair]
      rw [formParse, hsplit, hfilter, List.map_map]
      exact List.map_id'' (fun p ↦ decode_formPair decoder p) _

end Web
