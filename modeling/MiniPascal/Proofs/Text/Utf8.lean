import MiniPascal.Text.Utf8

/-!
# Writing and reading text files

A file holds the UTF-8 bytes of its text. Reading takes one character after the other from the
bytes: `decodeFrom_char` says that the bytes of a character give that character, whatever follows.

**What was written is read** (`decode_toUTF8`). Line ends are unified on the way in, so a text comes
back as it was if there is no carriage return in it (`unifyNewlines_eq_self`).
-/

namespace MiniPascal.Text

/-! ## Characters -/

section Characters

variable (position : Nat) (done : List Char) (rest : List UInt8)

/-- The first byte of a character that owes more. -/
theorem decodeFrom_first {b : UInt8} {u : Unfinished} (h : startByte? b.toNat = some u)
    (hu : u.owed ≠ 0) :
    decodeFrom position none done (b :: rest) = decodeFrom position (some u) done rest := by
  rw [decodeFrom]
  simp only [h, hu, if_false]

/-- A byte of a character that owes more after it. -/
theorem decodeFrom_next {b : UInt8} {u : Unfinished} (hlow : u.low ≤ b.toNat)
    (hhigh : b.toNat ≤ u.high) (hu : u.owed ≠ 1) :
    decodeFrom position (some u) done (b :: rest) =
      decodeFrom position (some ⟨u.byte, u.length + 1, u.code * 64 + (b.toNat - 0x80), u.owed - 1,
        0x80, 0xBF⟩) done rest := by
  rw [decodeFrom]
  simp only [hu, if_false]
  rw [if_neg (by omega)]

/-- The last byte of a character. -/
theorem decodeFrom_last {b : UInt8} {u : Unfinished} (hlow : u.low ≤ b.toNat)
    (hhigh : b.toNat ≤ u.high) (hu : u.owed = 1) :
    decodeFrom position (some u) done (b :: rest) =
      decodeFrom (position + u.length + 1) none
        (Char.ofNat (u.code * 64 + (b.toNat - 0x80)) :: done) rest := by
  rw [decodeFrom]
  simp only [hu, if_true]
  rw [if_neg (by omega)]

end Characters

theorem startByte?_one {b : Nat} (h : b < 0x80) : startByte? b = some ⟨b, 1, b, 0, 0, 0⟩ := by
  rw [startByte?, if_pos h]

theorem startByte?_two {b : Nat} (h : 0xC2 ≤ b) (h' : b < 0xE0) :
    startByte? b = some ⟨b, 1, b - 0xC0, 1, 0x80, 0xBF⟩ := by
  rw [startByte?, if_neg (by omega), if_neg (by omega), if_pos h']

theorem startByte?_three {b : Nat} (h : 0xE0 ≤ b) (h' : b < 0xF0) :
    startByte? b = some ⟨b, 1, b - 0xE0, 2, if b = 0xE0 then 0xA0 else 0x80,
      if b = 0xED then 0x9F else 0xBF⟩ := by
  rw [startByte?, if_neg (by omega), if_neg (by omega), if_neg (by omega), if_pos h']

theorem startByte?_four {b : Nat} (h : 0xF0 ≤ b) (h' : b < 0xF5) :
    startByte? b = some ⟨b, 1, b - 0xF0, 3, if b = 0xF0 then 0x90 else 0x80,
      if b = 0xF4 then 0x8F else 0xBF⟩ := by
  rw [startByte?, if_neg (by omega), if_neg (by omega), if_neg (by omega), if_neg (by omega),
    if_pos h']

theorem toNat_ofNat {n : Nat} (h : n < 256) : (UInt8.ofNat n).toNat = n := by
  rw [UInt8.toNat_ofNat']
  exact Nat.mod_eq_of_lt h

section Lengths

variable {v : Nat} (position : Nat) (done : List Char) (rest : List UInt8)

theorem decodeFrom_one (h : v ≤ 0x7F) :
    decodeFrom position none done (UInt8.ofNat v :: rest) =
      decodeFrom (position + 1) none (Char.ofNat v :: done) rest := by
  have hb := toNat_ofNat (n := v) (by omega)
  rw [decodeFrom, hb, startByte?_one (by omega)]
  rfl

theorem decodeFrom_two (h : 0x7F < v) (h' : v ≤ 0x7FF) :
    decodeFrom position none done
        (UInt8.ofNat (v / 64 % 32 + 192) :: UInt8.ofNat (v % 64 + 128) :: rest) =
      decodeFrom (position + 2) none (Char.ofNat v :: done) rest := by
  have hb := toNat_ofNat (n := v / 64 % 32 + 192) (by omega)
  have hc := toNat_ofNat (n := v % 64 + 128) (by omega)
  have hstart := startByte?_two (b := v / 64 % 32 + 192) (by omega) (by omega)
  rw [← hb] at hstart
  have hcode : ((v / 64 % 32 + 192) - 0xC0) * 64 + ((v % 64 + 128) - 0x80) = v := by omega
  rw [decodeFrom_first position done _ hstart (by simp)]
  rw [decodeFrom_last position done rest (by simp only [hc]; omega) (by simp only [hc]; omega) rfl]
  simp only [hb, hc, hcode]

/-- The second byte must not make the code too small, nor a surrogate. -/
theorem decodeFrom_three (h : 0x7FF < v) (h' : v ≤ 0xFFFF) (hv : v < 0xD800 ∨ 0xDFFF < v) :
    decodeFrom position none done
        (UInt8.ofNat (v / 4096 % 16 + 224) :: UInt8.ofNat (v / 64 % 64 + 128) ::
          UInt8.ofNat (v % 64 + 128) :: rest) =
      decodeFrom (position + 3) none (Char.ofNat v :: done) rest := by
  have hb := toNat_ofNat (n := v / 4096 % 16 + 224) (by omega)
  have hc := toNat_ofNat (n := v / 64 % 64 + 128) (by omega)
  have hd := toNat_ofNat (n := v % 64 + 128) (by omega)
  have hstart := startByte?_three (b := v / 4096 % 16 + 224) (by omega) (by omega)
  rw [← hb] at hstart
  have hcode : (((v / 4096 % 16 + 224) - 0xE0) * 64 + ((v / 64 % 64 + 128) - 0x80)) * 64
      + ((v % 64 + 128) - 0x80) = v := by omega
  rw [decodeFrom_first position done _ hstart (by simp)]
  rw [decodeFrom_next position done _ (by simp only [hb, hc]; split <;> omega)
    (by simp only [hb, hc]; split <;> omega) (by simp)]
  rw [decodeFrom_last position done rest (by simp only [hd]; omega) (by simp only [hd]; omega) rfl]
  simp only [hb, hc, hd, hcode]

/-- The second byte must not make the code too small, nor too large. -/
theorem decodeFrom_four (h : 0xFFFF < v) (h' : v < 0x110000) :
    decodeFrom position none done
        (UInt8.ofNat (v / 262144 % 8 + 240) :: UInt8.ofNat (v / 4096 % 64 + 128) ::
          UInt8.ofNat (v / 64 % 64 + 128) :: UInt8.ofNat (v % 64 + 128) :: rest) =
      decodeFrom (position + 4) none (Char.ofNat v :: done) rest := by
  have hb := toNat_ofNat (n := v / 262144 % 8 + 240) (by omega)
  have hc := toNat_ofNat (n := v / 4096 % 64 + 128) (by omega)
  have hd := toNat_ofNat (n := v / 64 % 64 + 128) (by omega)
  have he := toNat_ofNat (n := v % 64 + 128) (by omega)
  have hstart := startByte?_four (b := v / 262144 % 8 + 240) (by omega) (by omega)
  rw [← hb] at hstart
  have hcode : ((((v / 262144 % 8 + 240) - 0xF0) * 64 + ((v / 4096 % 64 + 128) - 0x80)) * 64
      + ((v / 64 % 64 + 128) - 0x80)) * 64 + ((v % 64 + 128) - 0x80) = v := by omega
  rw [decodeFrom_first position done _ hstart (by simp)]
  rw [decodeFrom_next position done _ (by simp only [hb, hc]; split <;> omega)
    (by simp only [hb, hc]; split <;> omega) (by simp)]
  rw [decodeFrom_next position done _ (by simp only [hd]; omega) (by simp only [hd]; omega)
    (by simp)]
  rw [decodeFrom_last position done rest (by simp only [he]; omega) (by simp only [he]; omega) rfl]
  simp only [hb, hc, hd, he, hcode]

end Lengths

/-- The bytes of a character give that character. -/
theorem decodeFrom_char (c : Char) (position : Nat) (done : List Char) (rest : List UInt8) :
    ∃ position', decodeFrom position none done (String.utf8EncodeChar c ++ rest) =
      decodeFrom position' none (c :: done) rest := by
  have hvalid : c.toNat < 0xD800 ∨ 0xDFFF < c.toNat ∧ c.toNat < 0x110000 := c.valid
  have hsame : Char.ofNat c.toNat = c := Char.ofNat_toNat c
  have hbytes : String.utf8EncodeChar c =
      if c.toNat ≤ 0x7F then [UInt8.ofNat c.toNat]
      else if c.toNat ≤ 0x7FF then
        [UInt8.ofNat (c.toNat / 64 % 32 + 192), UInt8.ofNat (c.toNat % 64 + 128)]
      else if c.toNat ≤ 0xFFFF then
        [UInt8.ofNat (c.toNat / 4096 % 16 + 224), UInt8.ofNat (c.toNat / 64 % 64 + 128),
          UInt8.ofNat (c.toNat % 64 + 128)]
      else
        [UInt8.ofNat (c.toNat / 262144 % 8 + 240), UInt8.ofNat (c.toNat / 4096 % 64 + 128),
          UInt8.ofNat (c.toNat / 64 % 64 + 128), UInt8.ofNat (c.toNat % 64 + 128)] := rfl
  -- One case for each count of bytes, with the bounds that the decoder checks.
  rw [hbytes]
  by_cases h₁ : c.toNat ≤ 0x7F
  · rw [if_pos h₁]
    exact ⟨_, (decodeFrom_one position done rest h₁).trans (by rw [hsame])⟩
  rw [if_neg h₁]
  by_cases h₂ : c.toNat ≤ 0x7FF
  · rw [if_pos h₂]
    exact ⟨_, (decodeFrom_two position done rest (by omega) h₂).trans (by rw [hsame])⟩
  rw [if_neg h₂]
  by_cases h₃ : c.toNat ≤ 0xFFFF
  · rw [if_pos h₃]
    exact ⟨_, (decodeFrom_three position done rest (by omega) h₃ (by omega)).trans
      (by rw [hsame])⟩
  · rw [if_neg h₃]
    exact ⟨_, (decodeFrom_four position done rest (by omega) (by omega)).trans (by rw [hsame])⟩

/-! ## Texts -/

/-- The bytes of characters give these characters, after those that were read before. -/
theorem decodeFrom_chars (cs : List Char) (position : Nat) (done : List Char) :
    decodeFrom position none done (cs.flatMap String.utf8EncodeChar) =
      .ok (done.reverse ++ cs) := by
  induction cs generalizing position done with
  | nil =>
    rw [List.flatMap_nil, decodeFrom, List.append_nil]
  | cons c cs ih =>
    obtain ⟨position', h⟩ := decodeFrom_char c position done (cs.flatMap String.utf8EncodeChar)
    rw [List.flatMap_cons, h, ih, List.reverse_cons, List.append_assoc, List.singleton_append]

/-- The bytes of an array from an index on. -/
theorem toList_loop (bytes : ByteArray) (i : Nat) (done : List UInt8) :
    ByteArray.toList.loop bytes i done = done.reverse ++ bytes.data.toList.drop i := by
  generalize hn : bytes.size - i = n
  induction n generalizing i done with
  | zero =>
    have hsize : bytes.data.toList.length ≤ i := by
      rw [Array.length_toList]
      exact Nat.sub_eq_zero_iff_le.1 hn
    rw [ByteArray.toList.loop, if_neg (by omega), List.drop_eq_nil_of_le hsize, List.append_nil]
  | succ n ih =>
    have hlt : i < bytes.size := by omega
    have hget : bytes.data.toList.drop i = bytes.get! i :: bytes.data.toList.drop (i + 1) := by
      have hdata : i < bytes.data.toList.length := by
        rw [Array.length_toList]
        exact hlt
      have hat : bytes.get! i = bytes.data.toList[i] := by
        rw [Array.getElem_toList]
        exact getElem!_pos bytes.data i hlt
      rw [List.drop_eq_getElem_cons hdata, hat]
    rw [ByteArray.toList.loop, if_pos hlt, ih (i + 1) _ (by omega), hget, List.reverse_cons,
      List.append_assoc, List.singleton_append]

/-- The bytes of a string. -/
theorem toList_toUTF8 (s : String) : s.toUTF8.toList = s.toList.flatMap String.utf8EncodeChar := by
  have hbytes : s.toUTF8 = (s.toList.flatMap String.utf8EncodeChar).toByteArray :=
    String.utf8Encode_toList.symm
  rw [ByteArray.toList, toList_loop, hbytes, List.toList_data_toByteArray]
  rfl

/-- **What was written is read.** -/
theorem decode_toUTF8 (s : String) : decode s.toUTF8.toList = .ok s := by
  rw [decode, toList_toUTF8, decodeFrom_chars]
  exact congrArg Except.ok String.ofList_toList

/-- Without a carriage return, all line ends are line feeds. -/
theorem unifyLineEnds_eq_self {cs : List Char} (h : '\r' ∉ cs) : unifyLineEnds cs = cs := by
  induction cs with
  | nil => rfl
  | cons c cs ih =>
    have hc : c ≠ '\r' := fun hc => h (by simp [hc])
    rw [unifyLineEnds]
    · rw [ih fun hcs => h (List.mem_cons_of_mem _ hcs)]
    · exact fun _ hc' _ => hc hc'
    · exact hc

theorem unifyNewlines_eq_self {s : String} (h : '\r' ∉ s.toList) : unifyNewlines s = s := by
  rw [unifyNewlines, unifyLineEnds_eq_self h, String.ofList_toList]

end MiniPascal.Text
