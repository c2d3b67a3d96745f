import JarAtlas.Text.Utf8

/-!
The dimensions of PNG images, read from their first bytes.
-/

namespace JarAtlas.Assets

def pngSignature : Bytes :=
  [0x89, 0x50, 0x4E, 0x47, 0x0D, 0x0A, 0x1A, 0x0A]

def bigEndian (bs : Bytes) : Nat :=
  bs.foldl (fun n b => 256 * n + b.toNat) 0

def pngDimensions (data : Bytes) : Option (Nat × Nat) :=
  if (data.take 24).length < 24 then none
  else if data.take 8 != pngSignature then none
  else some (bigEndian ((data.drop 16).take 4), bigEndian ((data.drop 20).take 4))

end JarAtlas.Assets
