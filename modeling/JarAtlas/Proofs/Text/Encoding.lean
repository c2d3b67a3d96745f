import JarAtlas.Text.Base64
import Mathlib.Tactic.Common

/-!
Text survives its encoding: the bytes of a text decode to it, character by character. Bytes that are
decoded strictly are the bytes of the text that they decode to, so nothing else is accepted.
-/

open List

namespace JarAtlas.Utf8

variable {bs : Bytes} {cs : List Char} {n : Nat}

theorem isTail_iff : isTail b ↔ 0x80 ≤ b.toNat ∧ b.toNat ≤ 0xBF := by
  rw [isTail, Bool.and_eq_true, decide_eq_true_iff, decide_eq_true_iff]
  exact Iff.rfl

theorem isSecond_iff : isSecond a b ↔
    if a.toNat = 0xE0 then 0xA0 ≤ b.toNat ∧ b.toNat ≤ 0xBF
    else if a.toNat = 0xED then 0x80 ≤ b.toNat ∧ b.toNat ≤ 0x9F
    else if a.toNat = 0xF0 then 0x90 ≤ b.toNat ∧ b.toNat ≤ 0xBF
    else if a.toNat = 0xF4 then 0x80 ≤ b.toNat ∧ b.toNat ≤ 0x8F
    else 0x80 ≤ b.toNat ∧ b.toNat ≤ 0xBF := by
  have hrange (m n : UInt8) : (decide (m ≤ b) && decide (b ≤ n)) = true ↔
      m.toNat ≤ b.toNat ∧ b.toNat ≤ n.toNat := by
    rw [Bool.and_eq_true, decide_eq_true_iff, decide_eq_true_iff]
    exact Iff.rfl
  have hsame (n : UInt8) : (a == n) = true ↔ a.toNat = n.toNat := by
    rw [beq_iff_eq, ← UInt8.toNat_inj]
  unfold isSecond
  simp only [hsame]
  repeat' split
  all_goals first
    | exact hrange _ _
    | exact isTail_iff
    | contradiction

variable {a b c d : UInt8} (r : Bytes)

theorem piece_one (ha : a.toNat < 0x80) : piece a r = (some (Char.ofNat a.toNat), r) := by
  have hfirst : a < 0x80 := ha
  simp [piece, hfirst]

theorem piece_two (ha : 0xC2 ≤ a.toNat ∧ a.toNat ≤ 0xDF) (hb : isTail b) :
    piece a (b :: r) = (some (Char.ofNat (a.toNat % 32 * 64 + bits b)), r) := by
  have hfirst : ¬ a < 0x80 := fun h : a.toNat < 0x80 => by omega
  have hsecond : (0xC2 : UInt8) ≤ a ∧ a ≤ 0xDF := ha
  simp [piece, hfirst, hsecond, hb]

theorem piece_three (ha : 0xE0 ≤ a.toNat ∧ a.toNat ≤ 0xEF) (hb : isSecond a b)
    (hc : isTail c) :
    piece a (b :: c :: r) =
      (some (Char.ofNat (a.toNat % 16 * 4096 + bits b * 64 + bits c)), r) := by
  have hfirst : ¬ a < 0x80 := fun h : a.toNat < 0x80 => by omega
  have hsecond : ¬ a ≤ 0xDF := fun h : a.toNat ≤ 0xDF => by omega
  have hthird : (0xE0 : UInt8) ≤ a ∧ a ≤ 0xEF := ha
  simp [piece, hfirst, hsecond, hthird, hb, hc]

theorem piece_four (ha : 0xF0 ≤ a.toNat ∧ a.toNat ≤ 0xF4) (hb : isSecond a b)
    (hc : isTail c) (hd : isTail d) :
    piece a (b :: c :: d :: r) =
      (some (Char.ofNat (a.toNat % 8 * 262144 + bits b * 4096 + bits c * 64 + bits d)), r) := by
  have hfirst : ¬ a < 0x80 := fun h : a.toNat < 0x80 => by omega
  have hsecond : ¬ a ≤ 0xDF := fun h : a.toNat ≤ 0xDF => by omega
  have hthird : ¬ a ≤ 0xEF := fun h : a.toNat ≤ 0xEF => by omega
  have hfourth : (0xF0 : UInt8) ≤ a ∧ a ≤ 0xF4 := ha
  simp [piece, hfirst, hsecond, hthird, hfourth, hb, hc, hd]

theorem piece_encode (ch : Char) : ∃ a tail, String.utf8EncodeChar ch = a :: tail ∧
    ∀ r, piece a (tail ++ r) = (some ch, r) := by
  have hvalid : ch.val.toNat < 0xD800 ∨ 0xDFFF < ch.val.toNat ∧ ch.val.toNat < 0x110000 := ch.valid
  have hbyte {n : Nat} (hn : n < 256) : (UInt8.ofNat n).toNat = n := by
    rw [UInt8.toNat_ofNat', Nat.mod_eq_of_lt hn]
  have hchar {n : Nat} (hn : n = ch.val.toNat) : Char.ofNat n = ch := by
    rw [hn]
    exact Char.ofNat_toNat ch
  simp only [String.utf8EncodeChar]
  generalize ch.val.toNat = v at hvalid hchar ⊢
  have htail {n : Nat} : isTail (UInt8.ofNat (n % 64 + 128)) := by
    rw [isTail_iff, hbyte (by omega)]
    omega
  have hbits {n : Nat} : bits (UInt8.ofNat (n % 64 + 128)) = n % 64 := by
    rw [bits, hbyte (by omega)]
    omega
  split
  · refine ⟨_, [], rfl, fun r => ?_⟩
    rw [nil_append, piece_one r (by rw [hbyte] <;> omega), hchar]
    exact hbyte (by omega)
  split
  · refine ⟨_, [_], rfl, fun r => ?_⟩
    have ha : (UInt8.ofNat (v / 64 % 32 + 192)).toNat = v / 64 % 32 + 192 := hbyte (by omega)
    rw [singleton_append, piece_two r (by rw [ha]; omega) htail, ha, hbits, hchar]
    omega
  split
  · refine ⟨_, [_, _], rfl, fun r => ?_⟩
    have ha : (UInt8.ofNat (v / 4096 % 16 + 224)).toNat = v / 4096 % 16 + 224 := hbyte (by omega)
    have hb : (UInt8.ofNat (v / 64 % 64 + 128)).toNat = v / 64 % 64 + 128 := hbyte (by omega)
    have hsecond : isSecond (UInt8.ofNat (v / 4096 % 16 + 224))
        (UInt8.ofNat (v / 64 % 64 + 128)) := by
      rw [isSecond_iff, ha, hb]
      repeat' split
      all_goals omega
    show piece _ (_ :: _ :: r) = _
    rw [piece_three r (by rw [ha]; omega) hsecond htail, ha, hbits, hbits, hchar]
    omega
  · refine ⟨_, [_, _, _], rfl, fun r => ?_⟩
    have ha : (UInt8.ofNat (v / 262144 % 8 + 240)).toNat = v / 262144 % 8 + 240 := hbyte (by omega)
    have hb : (UInt8.ofNat (v / 4096 % 64 + 128)).toNat = v / 4096 % 64 + 128 := hbyte (by omega)
    have hsecond : isSecond (UInt8.ofNat (v / 262144 % 8 + 240))
        (UInt8.ofNat (v / 4096 % 64 + 128)) := by
      rw [isSecond_iff, ha, hb]
      repeat' split
      all_goals omega
    show piece _ (_ :: _ :: _ :: r) = _
    rw [piece_four r (by rw [ha]; omega) hsecond htail htail, ha, hbits, hbits, hbits, hchar]
    omega

theorem encode_cons (c : Char) (cs : List Char) :
    encode (c :: cs) = String.utf8EncodeChar c ++ encode cs :=
  flatMap_cons

theorem decode?_encode (cs : List Char) : decode? (encode cs) = some cs := by
  have hgo (done : List Char) : decode?.go (encode cs) done = some (done.reverse ++ cs) := by
    induction cs generalizing done with
    | nil =>
      rw [append_nil, encode, flatMap_nil, decode?.go]
    | cons c cs ih =>
      obtain ⟨a, tail, hbytes, hpiece⟩ := piece_encode c
      rw [encode_cons, hbytes, cons_append, decode?.go]
      simp only [hpiece, ih, reverse_cons, append_assoc, singleton_append]
  exact hgo []

private theorem toNat_ofNat (hn : n.isValidChar) : (Char.ofNat n).val.toNat = n := by
  rw [Char.ofNat, dif_pos hn]
  rfl

private theorem byte_eq (hn : n = a.toNat) : UInt8.ofNat n = a := by
  rw [hn, UInt8.ofNat_toNat]

theorem utf8EncodeChar_one (ha : a.toNat < 0x80) :
    String.utf8EncodeChar (Char.ofNat a.toNat) = [a] := by
  have hv : (Char.ofNat a.toNat).val.toNat = a.toNat := toNat_ofNat (.inl (by omega))
  simp only [String.utf8EncodeChar, hv]
  rw [if_pos (by omega), byte_eq rfl]

theorem utf8EncodeChar_two (ha : 0xC2 ≤ a.toNat ∧ a.toNat ≤ 0xDF) (hb : isTail b) :
    String.utf8EncodeChar (Char.ofNat (a.toNat % 32 * 64 + bits b)) = [a, b] := by
  rw [isTail_iff] at hb
  generalize hn : a.toNat % 32 * 64 + bits b = v
  rw [bits] at hn
  simp only [String.utf8EncodeChar, toNat_ofNat (n := v) (.inl (by omega))]
  rw [if_neg (by omega), if_pos (by omega), byte_eq (a := a) (by omega),
    byte_eq (a := b) (by omega)]

theorem utf8EncodeChar_three (ha : 0xE0 ≤ a.toNat ∧ a.toNat ≤ 0xEF) (hb : isSecond a b)
    (hc : isTail c) :
    String.utf8EncodeChar (Char.ofNat (a.toNat % 16 * 4096 + bits b * 64 + bits c)) =
      [a, b, c] := by
  rw [isTail_iff] at hc
  rw [isSecond_iff] at hb
  generalize hn : a.toNat % 16 * 4096 + bits b * 64 + bits c = v
  rw [bits, bits] at hn
  -- The smallest and the largest second byte keep the value out of the forms of two bytes and out
  -- of the surrogates.
  have hrange : (0x800 ≤ v ∧ v < 0xD800 ∨ 0xDFFF < v ∧ v < 0x10000) ∧
      0x80 ≤ b.toNat ∧ b.toNat ≤ 0xBF := by
    split_ifs at hb <;> omega
  simp only [String.utf8EncodeChar, toNat_ofNat (n := v) (by simp only [Nat.isValidChar]; omega)]
  rw [if_neg (by omega), if_neg (by omega), if_pos (by omega), byte_eq (a := a) (by omega),
    byte_eq (a := b) (by omega), byte_eq (a := c) (by omega)]

theorem utf8EncodeChar_four (ha : 0xF0 ≤ a.toNat ∧ a.toNat ≤ 0xF4) (hb : isSecond a b)
    (hc : isTail c) (hd : isTail d) :
    String.utf8EncodeChar
      (Char.ofNat (a.toNat % 8 * 262144 + bits b * 4096 + bits c * 64 + bits d)) =
      [a, b, c, d] := by
  rw [isTail_iff] at hc hd
  rw [isSecond_iff] at hb
  generalize hn : a.toNat % 8 * 262144 + bits b * 4096 + bits c * 64 + bits d = v
  rw [bits, bits, bits] at hn
  have hrange : (0x10000 ≤ v ∧ v < 0x110000) ∧ 0x80 ≤ b.toNat ∧ b.toNat ≤ 0xBF := by
    split_ifs at hb <;> omega
  simp only [String.utf8EncodeChar, toNat_ofNat (n := v) (by simp only [Nat.isValidChar]; omega)]
  rw [if_neg (by omega), if_neg (by omega), if_neg (by omega), byte_eq (a := a) (by omega),
    byte_eq (a := b) (by omega), byte_eq (a := c) (by omega), byte_eq (a := d) (by omega)]

theorem utf8EncodeChar_of_piece {r r' : Bytes} {ch : Char} (hpiece : piece a r = (some ch, r')) :
    String.utf8EncodeChar ch ++ r' = a :: r := by
  have hle (m n : UInt8) (h : (decide (m ≤ a) && decide (a ≤ n)) = true) :
      m.toNat ≤ a.toNat ∧ a.toNat ≤ n.toNat := by
    rw [Bool.and_eq_true, decide_eq_true_iff, decide_eq_true_iff] at h
    exact h
  -- Only four of the branches give a character, one for each number of bytes.
  unfold piece at hpiece
  repeat' split at hpiece
  all_goals cases hpiece
  · next ha =>
    rw [utf8EncodeChar_one ha]
    rfl
  · next ha _ _ hb =>
    rw [utf8EncodeChar_two (hle _ _ ha) hb]
    rfl
  · next ha _ _ hb _ _ hc =>
    rw [utf8EncodeChar_three (hle _ _ ha) hb hc]
    rfl
  · next ha _ _ hb _ _ hc _ _ hd =>
    rw [utf8EncodeChar_four (hle _ _ ha) hb hc hd]
    rfl

theorem encode_of_decode? (hdecode : decode? bs = some cs) : encode cs = bs := by
  have hgo (done : List Char) (hrest : decode?.go bs done = some cs) :
      ∃ rest, cs = done.reverse ++ rest ∧ encode rest = bs := by
    clear hdecode
    fun_induction decode?.go bs done with
    | case1 done => exact ⟨[], by simpa using (Option.some.inj hrest).symm, rfl⟩
    | case2 done a r hle ch hch ih =>
      obtain ⟨rest, hcs, hrest⟩ := ih hrest
      refine ⟨ch :: rest, by simpa using hcs, ?_⟩
      rw [encode_cons, hrest]
      exact utf8EncodeChar_of_piece (Prod.ext hch rfl)
    | case3 => cases hrest
  obtain ⟨rest, hcs, hrest⟩ := hgo [] hdecode
  rw [hcs]
  exact hrest

/-- Strict decoding accepts exactly the bytes of texts. -/
theorem decode?_eq_some_iff : decode? bs = some cs ↔ encode cs = bs :=
  ⟨encode_of_decode?, fun h => h ▸ decode?_encode cs⟩

theorem decode?_eq_none_iff : decode? bs = none ↔ ∀ cs, encode cs ≠ bs := by
  rw [Option.eq_none_iff_forall_ne_some]
  exact forall_congr' fun cs => not_congr decode?_eq_some_iff

theorem length_le_length_encode (cs : List Char) : cs.length ≤ (encode cs).length := by
  induction cs with
  | nil => exact Nat.le_refl 0
  | cons c cs ih =>
    obtain ⟨a, tail, hbytes, -⟩ := piece_encode c
    rw [encode_cons, hbytes, cons_append, length_cons, length_cons, length_append]
    omega

theorem normalizeNewlines_of_not_mem (hcs : '\r' ∉ cs) : normalizeNewlines cs = cs := by
  have hgo (done : List Char) : normalizeNewlines.go cs done = done.reverse ++ cs := by
    induction cs generalizing done with
    | nil => rw [append_nil, normalizeNewlines.go]
    | cons c cs ih =>
      have hc : c ≠ '\r' := fun hc => hcs (hc ▸ mem_cons_self)
      have hrest := ih (fun hmem => hcs (mem_cons_of_mem _ hmem)) (c :: done)
      rw [normalizeNewlines.go, hrest]
      · simp
      · rintro rest rfl
        exact absurd rfl hc
      · exact hc
  exact hgo []

end JarAtlas.Utf8

/-! ### Bytes survive base64 -/

open List

namespace JarAtlas.Base64

theorem value?_letter : ∀ n < 64, value? (letter n) = some n := by
  decide

theorem letter_ne_padding : ∀ n < 64, letter n ≠ '=' := by
  decide

structure Sixes (a b c : UInt8) (x y z w : Nat) : Prop where
  letters : group a b c = [letter x, letter y, letter z, letter w]
  small : x < 64 ∧ y < 64 ∧ z < 64 ∧ w < 64
  first : UInt8.ofNat (x * 4 + y / 16) = a
  second : UInt8.ofNat (y % 16 * 16 + z / 4) = b
  third : UInt8.ofNat (z % 4 * 64 + w) = c

theorem exists_sixes (a b c : UInt8) : ∃ x y z w, Sixes a b c x y z w := by
  have ha := a.toNat_lt
  have hb := b.toNat_lt
  have hc := c.toNat_lt
  exact ⟨_, _, _, _, rfl, by omega, Utf8.byte_eq (by omega), Utf8.byte_eq (by omega),
    Utf8.byte_eq (by omega)⟩

theorem encodeFrom_eq (done : List Char) : ∀ bs, encodeFrom done bs = done.reverse ++ encode bs
  | [] => by simp [encode, encodeFrom]
  | [a] => by simp [encode, encodeFrom, reverseAux_eq]
  | [a, b] => by simp [encode, encodeFrom, reverseAux_eq]
  | a :: b :: c :: rest => by
      rw [encode, encodeFrom, encodeFrom, encodeFrom_eq _ rest, encodeFrom_eq _ rest]
      simp [reverseAux_eq]

theorem encode_cons (a b c : UInt8) (rest : Bytes) :
    encode (a :: b :: c :: rest) = group a b c ++ encode rest := by
  rw [encode, encodeFrom, encodeFrom_eq]
  simp [reverseAux_eq]

theorem decodeFrom_group (done : Bytes) (a b c : UInt8) (cs : List Char) :
    decodeFrom done (group a b c ++ cs) = decodeFrom (c :: b :: a :: done) cs := by
  obtain ⟨x, y, z, w, h⟩ := exists_sixes a b c
  obtain ⟨hx, hy, hz, hw⟩ := h.small
  rw [h.letters, cons_append, cons_append, cons_append, singleton_append, decodeFrom]
  · simp only [value?_letter, hx, hy, hz, hw, h.first, h.second, h.third]
  · exact fun _ hpad => absurd hpad (letter_ne_padding _ hw)
  · exact fun hpad => absurd hpad (letter_ne_padding _ hw)

theorem decodeFrom_encode (done : Bytes) : ∀ bs,
    decodeFrom done (encode bs) = some (done.reverse ++ bs)
  | [] => by simp [encode, encodeFrom, decodeFrom]
  | [a] => by
      -- The letters are those of a group with zeros, and the padding stands for the zeros.
      obtain ⟨x, y, z, w, h⟩ := exists_sixes a 0 0
      obtain ⟨hx, hy, -, -⟩ := h.small
      have hencode : encode [a] = [letter x, letter y, '=', '='] := by
        simp [encode, encodeFrom, h.letters]
      rw [hencode, decodeFrom, value?_letter _ hx, value?_letter _ hy]
      show some (UInt8.ofNat (x * 4 + y / 16) :: done).reverse = _
      rw [h.first, reverse_cons]
  | [a, b] => by
      obtain ⟨x, y, z, w, h⟩ := exists_sixes a b 0
      obtain ⟨hx, hy, hz, -⟩ := h.small
      have hencode : encode [a, b] = [letter x, letter y, letter z, '='] := by
        simp [encode, encodeFrom, h.letters]
      rw [hencode, decodeFrom, value?_letter _ hx, value?_letter _ hy, value?_letter _ hz]
      · show some (UInt8.ofNat (y % 16 * 16 + z / 4) :: UInt8.ofNat (x * 4 + y / 16) ::
          done).reverse = _
        rw [h.first, h.second, reverse_cons, reverse_cons, append_assoc]
        rfl
      · exact letter_ne_padding _ hz
  | a :: b :: c :: rest => by
      rw [encode_cons, decodeFrom_group, decodeFrom_encode _ rest]
      simp

theorem decode?_encode (bs : Bytes) : decode? (encode bs) = some bs :=
  decodeFrom_encode [] bs

theorem length_encode : ∀ bs, (encode bs).length = 4 * ((bs.length + 2) / 3)
  | [] => rfl
  | [_] => by simp [encode, encodeFrom, group]
  | [_, _] => by simp [encode, encodeFrom, group]
  | a :: b :: c :: rest => by
      have hgroup : (group a b c).length = 4 := rfl
      rw [encode_cons, length_append, length_encode rest, hgroup]
      simp only [length_cons]
      omega

end JarAtlas.Base64
