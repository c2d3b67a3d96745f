import JarAtlas.Proofs.Assets.Contents

/-!
The dimensions of PNG images. They stand in the first 24 bytes as numbers of four bytes, the highest
byte first, and whatever else these bytes and the rest of the image are does not matter.
-/

open List

namespace JarAtlas.Assets

/-- A number in a fixed count of bytes, the highest one first. -/
def bigEndianBytes : Nat → Nat → Bytes
  | 0, _ => []
  | width + 1, n => bigEndianBytes width (n / 256) ++ [UInt8.ofNat n]

theorem length_bigEndianBytes (width n : Nat) : (bigEndianBytes width n).length = width := by
  induction width generalizing n with
  | zero => rfl
  | succ width ih => rw [bigEndianBytes, length_append, ih, length_singleton]

theorem bigEndian_concat (bs : Bytes) (b : UInt8) :
    bigEndian (bs ++ [b]) = 256 * bigEndian bs + b.toNat := by
  rw [bigEndian, foldl_append]
  rfl

theorem bigEndian_bigEndianBytes (width n : Nat) :
    bigEndian (bigEndianBytes width n) = n % Nat.pow 256 width := by
  induction width generalizing n with
  | zero => exact (Nat.mod_one n).symm
  | succ width ih =>
    have hlast : (UInt8.ofNat n).toNat = n % 256 := UInt8.toNat_ofNat'
    have hpow : Nat.pow 256 (width + 1) = 256 * Nat.pow 256 width := Nat.pow_succ'
    rw [bigEndianBytes, bigEndian_concat, ih, hlast, hpow, Nat.mod_mul, Nat.add_comm]

/-- An image without dimensions is too short or bears another mark. -/
theorem pngDimensions_eq_none_iff {data : Bytes} :
    pngDimensions data = none ↔ data.length < 24 ∨ ¬ pngSignature <+: data := by
  have hshort : (data.take 24).length < 24 ↔ data.length < 24 := by
    rw [length_take]
    omega
  have hmark : pngSignature <+: data ↔ data.take 8 = pngSignature :=
    prefix_iff_eq_take.trans eq_comm
  rw [hmark]
  unfold pngDimensions
  split
  · next hlength => exact iff_of_true rfl (.inl (hshort.mp hlength))
  · next hlength =>
    rw [hshort] at hlength
    split
    · next hother => exact iff_of_true rfl (.inr (bne_iff_ne.mp hother))
    · next hsame =>
      have hsame : data.take 8 = pngSignature := by simpa using hsame
      simp [hlength, hsame]

/-- The dimensions that were written into an image are read from it. Only the first 24 bytes count,
for an entry of an archive too, and there are no dimensions exactly if these are not all there or
begin with another mark. -/
theorem pngDimensions_reads_written :
    (∀ w h, w < 4294967296 → h < 4294967296 → ∀ lead rest : Bytes, lead.length = 8 →
      pngDimensions (pngSignature ++ lead ++ bigEndianBytes 4 w ++ bigEndianBytes 4 h ++ rest) =
        some (w, h)) ∧
    (∀ data, pngDimensions (data.take 24) = pngDimensions data) ∧
    (∀ e, extensionOf e.name = ".png" → e.isLocked = false →
      ((factsOf e).width, (factsOf e).height) =
        ((pngDimensions e.content.plain).map fun size =>
          (Json.ofNat size.1, Json.ofNat size.2)).getD (.null, .null)) ∧
    ∀ data, pngDimensions data = none ↔ data.length < 24 ∨ ¬ pngSignature <+: data := by
  refine ⟨?_, pngDimensions_take, ?_, fun data => pngDimensions_eq_none_iff⟩
  · intro w h hw hh lead rest hlead
    have hread {n : Nat} (hn : n < 4294967296) : n = bigEndian (bigEndianBytes 4 n) := by
      rw [bigEndian_bigEndianBytes]
      exact (Nat.mod_eq_of_lt hn).symm
    exact pngDimensions_eq_some_iff.mpr ⟨lead, _, _, rest, rfl, hlead, length_bigEndianBytes 4 w,
      length_bigEndianBytes 4 h, hread hw, hread hh⟩
  · intro e hpng hopen
    rw [dimensions_factsOf, if_pos ⟨hpng, hopen⟩]

/-- An image of the largest width and one pixel high, with two bytes after the dimensions. -/
theorem pngDimensions_reads_written_widest :
    pngDimensions ([0x89, 0x50, 0x4E, 0x47, 0x0D, 0x0A, 0x1A, 0x0A, 0, 0, 0, 13, 73, 72, 68, 82,
      255, 255, 255, 255, 0, 0, 0, 1, 8, 6]) = some (4294967295, 1) ∧
    pngDimensions (pngSignature ++ [0, 0, 0, 13, 73, 72, 68, 82, 255, 255, 255]) = none := by
  obtain ⟨hread, -, -, hnone⟩ := pngDimensions_reads_written
  exact ⟨hread 4294967295 1 (by decide) (by decide) [0, 0, 0, 13, 73, 72, 68, 82] [8, 6] rfl,
    (hnone _).mpr (.inl (by decide))⟩

end JarAtlas.Assets
