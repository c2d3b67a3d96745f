import JarAtlas.Text.Find

/-!
Lookup in tables of code points. Ranges are listed by their lengths: how many code points come before
the first one, how many are in it, how many come between it and the second one, and so on.

A row `(gap, count, step, value)` of the other tables gives a value to `count` code points that lie
`step` apart, of which the first one comes after a gap behind the row before.
-/

namespace JarAtlas.Text

/-- The numbers that letters give in base 26. The last digit of each is a capital letter, and a minus
sign may stand before the first one. -/
def integers (lines : List String) : List Int :=
  go false 0 (lines.flatMap String.toList)
where
  go (minus : Bool) (n : Nat) : List Char → List Int
    | [] => []
    | c :: cs =>
      if c == '-' then go true n cs
      else if c.isLower then go minus (26 * n + (c.toNat - 97)) cs
      else
        let n := 26 * n + (c.toNat - 65)
        (if minus then -n else n) :: go false 0 cs

def numbers (lines : List String) : List Nat :=
  (integers lines).map Int.toNat

def rows (lines : List String) : List (Nat × Nat × Nat × Int) :=
  go (integers lines)
where
  go : List Int → List (Nat × Nat × Nat × Int)
    | gap :: count :: step :: value :: rest =>
      (gap.toNat, count.toNat, step.toNat, value) :: go rest
    | _ => []

def inRanges : List Nat → Nat → Bool
  | before :: inside :: rest, n =>
    if n < before then false
    else if n < before + inside then true
    else inRanges rest (n - (before + inside))
  | _, _ => false

def rowValue? {α : Type} : List (Nat × Nat × Nat × α) → Nat → Option α
  | [], _ => none
  | (gap, count, step, value) :: rest, n =>
    let size := gap + (count - 1) * step + 1
    if n < gap then none
    else if n < size then if (n - gap) % step == 0 then some value else none
    else rowValue? rest (n - size)

def shiftBy (shift : Option Int) (n : Nat) : Nat :=
  (Int.ofNat n + shift.getD 0).toNat

/-- The first code point that the rows, of which `start` is the first place, shift to `n`; one to
which they shift nothing stays as it is. -/
def unshift (start : Nat) : List (Nat × Nat × Nat × Int) → Nat → Nat
  | [], n => n
  | (gap, count, step, shift) :: rest, n =>
    let first := start + gap
    let last := first + (count - 1) * step
    let m := (Int.ofNat n - shift).toNat
    if first ≤ m && m ≤ last && (m - first) % step == 0 then m else unshift (last + 1) rest n

/-! ### Letters and numbers outside ASCII -/

def wordRanges : List Nat := numbers [
  "gOBHCBBDCBDBXBbFBrQEMOFHBBBeZFBCCEBBGBBDBBBUBdFBfJIgKBbMCBGbPcTbBEEbTbRVKECBdVBBPCHPCBQBBbEbD",
  "dLLBObRJCEBFWEBJBDBXZHLFYBGRbQcGcCDBSBHKEKBQEICCCWBHBBDEDBQBNCBDEMCGCBIGECCWBHBCBCBCbFEBBHKCDQ",
  "JBDBWBHBCBFDBSBPCEKJBLICCCWBHBCBFDBbECBDEKBHLBBGDDBEDCBBBCDCDDDMWBVNSIBDBXBQDBbADCBCCEKIHBBEIB",
  "DBXBKBFDBbFCBCEKBCRJBDBbPCBQBFDBKETBGFSDYBJBBCHbFKRbWBCMHJKbNCBBBFBYBBBKBCJBCFBBJKCEbGBbFUMIB",
  "bKbBFeLbRULGGEEDBDCHDENMBBKGbMBBFBCbRBmVBECHBBBECbPBECbHBECHBBBECPBcFBECcPOUDQQdICGDxWCRBbAFcX",
  "DLHSNTOSONBDPcAbJBEBDKGKWKGdLHFCbIBBFcSKbFbNbOCFLbSEbAGLbLXJcBbRKGKNBdPbVRIDKbPbENcEbAbKbCKDbX",
  "CJHbRCDbPEBGBCDBFhKcMkSCGCbMCGCIBBBBBBBbFCcBBHBBDDBHDECGENFDBHeLCCGFLGNdXBEBCKBBDFGBBBBBBEBLCE",
  "FFEBBcGbbYcIdAWyGbEbrOiVGEDCJBCbMBBFBCcEHBQXJHBHBHBHBHBHBHBHdCBsBDZJHFCFEdIGDBdMBEFbRBdQDEKbG",
  "bWQbGKbEIBPbGKbNPmIjtOcMbguFcPbUCkJDbCUbVQbFCdCbNJCdZCcMFCBBBFYQBDBEBXNGKcAObYbCKYGDBBCBbMKXZ",
  "bDHbVbCLGFBZBbPXDBIEKGXDBDbYBBDCCFCBBBYDCLHDMGCGCGJHBHBbRBOGeLNKGqnSMXEbXmnCoCCeCbMHMFFBBKBNBF",
  "BBBCBCBeEbHnZScMCcCbOMeMFBfFTKHbAGbALdLDGCGCGCDbJMBbABTBCBPCObIeTMbTMcFRCjKbDDbXQbBEbKJbEFbMK",
  "bECbKEIBFbQgCCKGbKEbKEbOIcAMLBPBHBCBLBPBHBCcPlZJWKIYGBbQBJcRGCBBbSBCDBCXCbFCbMIJbWTBCFbHEbAcS",
  "cEEUCbVPEBDBbDKJXbFBbGbGIBbCGFQcCKWCbBFbAXHdCcVcDbZNbZHbQMKlIbFBbQGCdAbOIWLEbBSbUbCUXMcBbAbEBC",
  "CBNbTbGZHKJbKPKEBCBIbJDBMbWOELLBBEULSBZdGHBBBEBPBKHbVRKLICCCWBHBCBFDBSBMFgCcBSEFKFDbEbWUCBBIK",
  "gKbVbPEbKbWUBLKbMbRNBHKcCbBVMEHhDbSeMdFMICBCIBCBYPBBBOKcSICbNQBBBbCBKbOHBVBLbUTBScVkDJBbLRBPbD",
  "FbEeIHBCBbMVBJKGGBCBbGOBHKlYThHBPVbRbjMdYeHRhOdxKdTPbpFfzTwLmuBvXHbFBKGdBBKGbESbWQEMKBHBVFTbaM",
  "dJeBcXFBcONcMCBBbCjcAIbvQbQJnfREBHBCBlFbTDREIpGdkUeDFNDJHKilIUeEZfFdHBcTBCCBCCCEBMBBBHBcNBECIB",
  "HBbCBEBFBBDHBnCCZBZBbFBZBbFBZBbFBZBbFBZBICbYcqYbFsNbTKHCKEBmJbESbSEKbwGHBEBCBPBhPCJbWcQHBEKbeL",
  "cHBDBEcYbTBPhMEBbBBCBBCBBKBEBBBBGBEBBBBBBDBCBBCBBBBBBBBBBCBBCEBHBEBEBBBKBRFDBFBRwINedFKbnQclfC",
  "bGgdTHiOCinQOlbLepJuWcfYhhZ"]

/-- The zeros of the decimal digit rows outside ASCII; each row has its ten digits in order. -/
def digitZeros : List Nat := [
  0x660, 0x6f0, 0x7c0, 0x966, 0x9e6, 0xa66, 0xae6, 0xb66, 0xbe6, 0xc66, 0xce6, 0xd66, 0xde6,
  0xe50, 0xed0, 0xf20, 0x1040, 0x1090, 0x17e0, 0x1810, 0x1946, 0x19d0, 0x1a80, 0x1a90, 0x1b50,
  0x1bb0, 0x1c40, 0x1c50, 0xa620, 0xa8d0, 0xa900, 0xa9d0, 0xa9f0, 0xaa50, 0xabf0, 0xff10,
  0x104a0, 0x10d30, 0x11066, 0x110f0, 0x11136, 0x111d0, 0x112f0, 0x11450, 0x114d0, 0x11650,
  0x116c0, 0x11730, 0x118e0, 0x11950, 0x11c50, 0x11d50, 0x11da0, 0x16a60, 0x16ac0, 0x16b50,
  0x1d7ce, 0x1d7d8, 0x1d7e2, 0x1d7ec, 0x1d7f6, 0x1e140, 0x1e2f0, 0x1e950, 0x1fbf0]

/-! ### Letter case outside ASCII -/

def capitalRanges : List Nat := numbers [
  "lSBzXDlbHBEBDDCDCBDFGBDBDCCCBBKCFBgiqKbAbAbAbAbAbABBCCBCCCEBIbAbAbACBECIBHbBCBEBFBBDHbBbAbAbA",
  "bAbAbAbAbAbAbAbAbEZbHZbHZbHZbHZbHBjqBbAGbAGbA"]

/-- Letters that are mapped to a lower-case form and are no capitals: pairs of letters of which the
first one is a capital. -/
def titleRanges : List Nat := [
  453, 1, 2, 1, 2, 1, 38, 1, 7573, 8, 8, 8, 8, 8, 12, 1, 15, 1, 47, 1]

/-- The value of a row is how many places away the lower-case form is. -/
def lowerRuns : List (Nat × Nat × Nat × Int) := rows [
  "hKXBbGBHBbGbHYCBDDCBCICBCXCBBBB-eRADCBDBBiCACCBBBBhYABBBBCBhXABBBCBBdBABBhUABBhVABBBBBBhXABBhZ",
  "BBBiDABBiBABBBDBBiDABBiFBBBiGADCBBBBiKABBBBBBiKCBBBBBBiKABBBBCBiJACCBBBBiLABBBDBBBHBBCABBBBBBC",
  "ABBBBBBCAJCBCJCBCBBCACCBBBB-dTABB-cEAUCBBBB-fABJCBHBBpzFABBBBBB-gHABBpzCCBBBBBB-hNABBcRABBcTAF",
  "CBlDCCBDBBBIBBeMGBBbMBDBbLBBBcMBCBcLBRBbGBJBbGbJBBIIMCBFBB-cICBBBBBB-HABBBCDB-fAAQBdCAbGBbGbWR",
  "CBJbBCBBBBPAHCBCbWCBCbMBbWehDbMBktKBBBktKFBBktKbbUdCBcfmUAGBIdgSbRB-elSCDB-elSmIcXCBJBB-lgXBbW",
  "CBJIB-IIGB-IKIB-IIIB-IIGB-ILEC-IIIB-IYIB-IIIB-IIIB-IICB-IACB-cWABB-JLEB-dIABB-JLCB-IACB-dWMCB",
  "-IACB-eIABB-HLCB-eYACB-eWABB-JlLBB-ldDDBB-mkLABB-mfUGBBbCbTQBQTBBBbfMbABbAcsUbWBbWbWBBBBBB-pxF",
  "ABB-fqSABB-pwPCDCBBBB-pyQABB-pxLABB-pyTABB-pySBBBBCBBBICB-pzZAbYCBICCBEBBBbtyJXCBTOCBfFHCBDbFC",
  "BKCCBBBB-cagYAFCBEBBBBBB-ckoECCCBDKCBBBB-ckpGABB-ckpRABB-ckpNABB-ckpDABB-ckpGBBB-cknIABB-ckoGA",
  "BB-cknLABBbjSAICBBBB-bWABB-ckpFABB-caiYACCBGBBBFCCBbCBBBbhaHbABbGbuZbOBbOfGbKBbOgALBbNBPBbNBHB",
  "bNBCBbNcqCbZBcMenLbGBbGbgjWbGBbGbulKbIBbI"]

/-- Upper-case forms of several characters, and those whose lower-case form is another character,
each behind its letter. -/
def upperLines : List String := [
  "µΜ ßSS ıI ŉʼN ſS ǅǄ ǈǇ ǋǊ ǰJ̌ ǲǱ \u0345Ι ΐΪ́ ΰΫ́ ςΣ ϐΒ ϑΘ ϕΦ ϖΠ ϰΚ ϱΡ ϵΕ ևԵՒ ᲀВ ᲁД ᲂО ᲃС ᲄТ",
  "ᲅТ ᲆЪ ᲇѢ ᲈꙊ ẖH̱ ẗT̈ ẘW̊ ẙY̊ ẚAʾ ẛṠ ὐΥ̓ ὒΥ̓̀ ὔΥ̓́ ὖΥ̓͂ ᾀἈΙ ᾁἉΙ ᾂἊΙ ᾃἋΙ ᾄἌΙ ᾅἍΙ ᾆἎΙ ᾇἏΙ ᾈἈΙ ᾉἉΙ",
  "ᾊἊΙ ᾋἋΙ ᾌἌΙ ᾍἍΙ ᾎἎΙ ᾏἏΙ ᾐἨΙ ᾑἩΙ ᾒἪΙ ᾓἫΙ ᾔἬΙ ᾕἭΙ ᾖἮΙ ᾗἯΙ ᾘἨΙ ᾙἩΙ ᾚἪΙ ᾛἫΙ ᾜἬΙ ᾝἭΙ ᾞἮΙ ᾟἯΙ ᾠὨΙ",
  "ᾡὩΙ ᾢὪΙ ᾣὫΙ ᾤὬΙ ᾥὭΙ ᾦὮΙ ᾧὯΙ ᾨὨΙ ᾩὩΙ ᾪὪΙ ᾫὫΙ ᾬὬΙ ᾭὭΙ ᾮὮΙ ᾯὯΙ ᾲᾺΙ ᾳΑΙ ᾴΆΙ ᾶΑ͂ ᾷΑ͂Ι ᾼΑΙ ιΙ ῂῊΙ",
  "ῃΗΙ ῄΉΙ ῆΗ͂ ῇΗ͂Ι ῌΗΙ ῒΪ̀ ΐΪ́ ῖΙ͂ ῗΪ͂ ῢΫ̀ ΰΫ́ ῤΡ̓ ῦΥ͂ ῧΫ͂ ῲῺΙ ῳΩΙ ῴΏΙ ῶΩ͂ ῷΩ͂Ι ῼΩΙ ﬀFF",
  "ﬁFI ﬂFL ﬃFFI ﬄFFL ﬅST ﬆST ﬓՄՆ ﬔՄԵ ﬕՄԻ ﬖՎՆ ﬗՄԽ"]

def upperForms : List (Char × String) :=
  (upperLines.flatMap fun line => split line ' ').filterMap fun word =>
    word.toList.head?.map fun c => (c, String.ofList word.toList.tail)

def casedRanges : List Nat := numbers [
  "cNbAGbAbVBKBEBFXBbFBhNBEEiABbBhKECCDDBBGBBDBBBUBdFBfJIgKBbMJbPefFbMBBFBCbRCDzWdICGdfUJHbRCDcM",
  "bScLNBbIdXkSCGCbMCGCIBBBBBBBbFCcBBHBBDDBHDECGENFDBHkBBEBCKBBDFGBBBBBBEBGEBCEFFEBRbGDCbfLcAcrU",
  "eUCdZGEDCMbMBBFBbtwCbUSbCfEdABXDEBcHFCBBBFbBCDBbfPbRFJHdCbeaIHMFbnTbAGbAbtTdCdSbKEbKeMLBPBHBCB",
  "LBPBHBCcoPbZNbZekZcMbgiQcMbmlKdHBcTBCCBCCCEBMBBBHBcNBECIBHBbCBEBFBBDHBnCCZBZBbFBZBbFBZBbFBZBbF",
  "BZBIcsYKBUdtHcQdaAbAGbAGbA"]

/-- Characters that are passed over, such as apostrophes, full stops and combining marks. -/
def passedRanges : List Nat := numbers [
  "bNBGBLBbJBBBcTBEBBBEBCCtJhKECEBJCBBjRHhZBFBbXbTBBBCBCBBbSBLGKLBBbJBKVQBdXIBKBEbHBBBbEbBdNLcGLE",
  "BCBYYbRDbSBHCGIbPcGcDBBBEIEBDHKCNBPBcGBEEIBUCbABCCcFBECECCDDBbECDBLCcFBEFBCEBUCWGBBcGBCBBEIBHC",
  "LCbEBcJBMBbYBDBcDBBDFDBEHCLCbDBcGBCBGBFCUCbCCcFCEEIBUCbDBcUBHDBBdMBCHLJdUBCJJBBGcWCbBBBBBBcDOB",
  "FBCFLBbKJBdYEBGBCCCZCEDQENBCCGBPBdQBxKDbkKDbDCbECbECcMCBHIBCLDBFBbTFbZBcNCbIBeODECJBGDiLCCBcGB",
  "BHBBBBCIGKCBbNBIbFbXEbWBBFBBFBbOJMCbGECCBDcEBBCDBBDcGICCcMGdEDBNBHEBGBDCbYcLNBbIdXrDBBDLDNDNDN",
  "CMFICKBCBCFbXFBKBBNBQNbZbHejRCeJDeVBPBdSbGbVBsBBbKEDFFBdPGdPDbqbUBbwCGkKBdUEBKBBbCEdCCObIdABXD",
  "dZDDCIBDBEBZCFBfVCbASNBbMIZLbUDbWBCECCRBVCcOGCCCCMBIBbJBLBbZBBDCCFCBBbBBOCFCBBdWFJDeRBCBEBbdzS",
  "BfRRwBQDBMQbIBCBgNBHBGBLBbJBBBbVBbTCcPBVDtTBiSBfTFbnPGBbQBJwKDBCFEbODEBgJCwBEoXCfXLbXEeTBcCPbP",
  "BCCKDbXECCCBEBKBbYDbKFBIcKBMCcAJKECBdRDCBBCGBgEBDIVCcFCDBbLHDFhNICDBBXBdGGBBECBCjEEGCBCbBCdHIC",
  "BBCeCBBBCGBBdXDCEBFjZJBCjWCBBEBfOECCEBbGKbOGCEIBJGCDbUNBCpQHBGBBdEWCHBCBCeSGDBBCBHBBcUCDBBBnJC",
  "ibBJusTFcHHJEbnVBcLRcMCBCygPEBHBCeuGCBEgyUbUCXuYDJQCHbEEfSDcyDcDEbYIBOBWFBPcaIHBRCHBCBFkBOoEB",
  "cJEcfWHeFIebFFbsxxPBbEdSeYjG"]

/-! ### Separators, case folding and diacritics of the full-text tokenizers -/

def separatorRanges : List Nat := numbers [
  "eYbQBHCBBDCBDBXBbFBrQEMOFHBBBRFBHCBBBJBHGECBCcKFBIBFCBBeGBfJIiAGbPCEBBcDbRCLFBWCCbRVKECBdVBBPC",
  "HPCBOBBBBbEbBdNLcGJCEbCEBJBDBFCPbADCBfDbBBEcCDBSBHKEKBQDcEBBHCCCDJBKCOCGCFDcEBBFECCDDBbECDBLD",
  "cEBBIBDBDUCMCPDcEBBHCCCDICKCMBRBcHFDDBEJBbBIGDcGHBDBEHCLCbBBCCcEBBHBDBEHCLCbECcGHBDBEJBKCVBIC",
  "cSBEGBBBISDcIBCHEBHJKCdHBCGBCLGbZbFUMbXXFLBbKBPBNdCULGGEEDBDCHDENMBBKGdNBxLMbNKdYBxWCRBbACdAD",
  "bKDbDFbBCbECcMbJBEBBbIPfYBeOMEMEBDCeCRHCUbIXFCCcBKBbDCBbGHBGdEFbVRVbJDDbENcEOIEbKUDFcKCcMIIZEB",
  "EDhVbNVErDBBDLDNDNDNCBdXFGKFLFRbAWbHPCBEBCKBBDFGBBBBBBEBLCEFFEBBcMxOMbNZLdDdAWtSBeNbEbkRDKpFGE",
  "DHEBCeIBOBdSdBBMcQbABdLMiGbAMEFDZJHFCFDdLEDBdMBfSCEKbGbKbCbFLbEIBPbGKbNPcLBjWjtOcMbguIcDcDCkJD",
  "dRQbGBdCIIXJCdZCePBDBEBXJKEcGEICbYRJCQSGDbRKXNLBbGEbVbBQCcVOMBICOEXDBBcABBDCCFCBBbCCLHDCjCL",
  "bdzSBKBfGQoQChGCCbAGHJbJBTBEfRBBPKHbAGbALeSHBHKHjWDcAJcFRGMcAbUqBBbWBbsOBhRBbFBhLDBCFEbODEBQJ",
  "bMBhDHbuUDcBWbYDbTScKDbKOLEcIDbWOEEbwCNffCEbcjDbUQEbknLjMKbNCgZbIcShEdJbhQBZBbFBZBbFBZBbFBZBbF",
  "BZBiuECkKbSEdWMPCOCPBPbWbFBcIEbRcXbDNbRFJHCgSbHPGBcSDUMbLBFVRPcLBBBhABEDcKCEMYfRcSELbWcScGeM",
  "bswpPBbEdSeYjG"]

def droppedMarks : List Nat := [
  0x300, 0x301, 0x302, 0x303, 0x304, 0x306, 0x307, 0x308, 0x309, 0x30a, 0x30b, 0x30c, 0x30f,
  0x311, 0x31b, 0x323, 0x324, 0x325, 0x326, 0x327, 0x328, 0x32d, 0x32e, 0x330, 0x331]

/-- Where the tokenizers fold a letter otherwise than into its lower-case form; younger letters stay as
they are. -/
def foldRuns : List (Nat × Nat × Nat × Int) := rows [
  "gZBBbdVhTBB-kIrLBBeMcFBBAcOBBBNBB-bEABB-ZDBB-PABB-WZBB-cCABB-bWDBB-cMlUECAfmFdIBAdgSbRBACDBAsH",
  "BB-cGlEBB-kpXesMBBAbujGCCAjRFCAMEBABFBABICAADBABBBAGBBAFCCAbCBBAbhiUBB-BABB-CbuEbKBAgALBABPBAB",
  "HBABCBAcqCbZBAenLbGBAbgjWbGBAbulKbIBA"]

def diacriticBases : List (Nat × Nat × Nat × Nat) := [
  (224, 6, 1, 97), (1, 1, 1, 99), (0, 4, 1, 101), (0, 4, 1, 105), (1, 1, 1, 110), (0, 5, 1, 111),
  (2, 4, 1, 117), (0, 2, 2, 121), (1, 3, 2, 97), (1, 4, 2, 99), (1, 1, 1, 100), (3, 5, 2, 101),
  (1, 4, 2, 103), (1, 1, 1, 104), (3, 4, 2, 105), (0, 1, 1, 105), (4, 1, 1, 106), (1, 1, 1, 107),
  (2, 3, 2, 108), (5, 3, 2, 110), (4, 3, 2, 111), (3, 3, 2, 114), (1, 4, 2, 115), (1, 2, 2, 116),
  (3, 6, 2, 117), (1, 1, 1, 119), (1, 1, 1, 121), (2, 3, 2, 122), (34, 1, 1, 111), (14, 1, 1, 117),
  (29, 1, 1, 97), (1, 1, 1, 105), (1, 1, 1, 111), (1, 1, 1, 117), (18, 1, 1, 103), (1, 1, 1, 107),
  (1, 1, 1, 111), (4, 1, 1, 106), (4, 1, 1, 103), (3, 1, 1, 110), (7, 2, 2, 97), (1, 2, 2, 101),
  (1, 2, 2, 105), (1, 2, 2, 111), (1, 2, 2, 114), (1, 2, 2, 117), (1, 1, 1, 115), (1, 1, 1, 116),
  (3, 1, 1, 104), (7, 1, 1, 97), (1, 1, 1, 101), (5, 1, 1, 111), (3, 1, 1, 121), (7117, 1, 1, 97),
  (1, 3, 2, 98), (3, 5, 2, 100), (5, 2, 2, 101), (3, 1, 1, 102), (1, 1, 1, 103), (1, 5, 2, 104),
  (1, 1, 1, 105), (3, 3, 2, 107), (1, 1, 1, 108), (3, 2, 2, 108), (1, 3, 2, 109), (1, 4, 2, 110),
  (9, 2, 2, 112), (1, 2, 2, 114), (3, 1, 1, 114), (1, 2, 2, 115), (7, 4, 2, 116), (1, 3, 2, 117),
  (5, 2, 2, 118), (1, 5, 2, 119), (1, 2, 2, 120), (1, 1, 1, 121), (1, 3, 2, 122), (0, 1, 1, 104),
  (0, 1, 1, 116), (0, 1, 1, 119), (0, 1, 1, 121), (7, 2, 2, 97), (21, 3, 2, 101), (11, 2, 2, 105),
  (1, 2, 2, 111), (21, 2, 2, 117), (11, 4, 2, 121)]

/-! ### Characters that take no column or two columns on a console -/

def zeroWidthRanges : List Nat := numbers [
  "gRBwWeIkPHkDbTBBBCBCBBcEGKLBBbUVQBdXIBGCCBEbHBBBbEbBdNLcGJJBYEBJBDBFbRDcACGIbQcGcCDBSBHKCbDDcE",
  "BBHCCCDJBKCbABCDcEBBFECCDDBbECDBLDcEBBIBDBDUCWGBDcEBBHCCCDHDKCbEBcHFDDBEJBbOFcDBBHBDBEHCLCbDD",
  "cEBBHBDBEHCLCPBMEcDCBHBDBEJBKCbDDcSBEGBBBISCcJBCHMIdUBCJLHcVCbBBBBBBECbXUBCFLBbKJBdWUXEEDBDCHD",
  "ENMBBKEhMgEnLDbkKEbCDbDCbECcMbGJBbTFeNCbIBeOMEMiLFcFKBbDCBbWbFbXFbVRbMJMDbENcEObWUfWDBVEBGBCD",
  "hQcMuDFYHbXFBKdSbHeoCDfLBdSbGvIGeBCbsqEEBKbGCdCCkMBDBEBXFEBdFCbYSbASNBbMIZNbSEbVObKBcPOMBICbTD",
  "bYBBDCCFCBBbPFFCjCIBCqoWdCnhUBbcJQQQhZBjPDtTBiSBfTFcmGDBCFEbODEBgJCwBEoXCdCDcSLbXEeSDcBPbPBCCK",
  "EbTLCBEBKBbYDbKOQCbSBMDbWOIEBCdOMGBCBgBMVEcDCBHCCCDJBKCCHDFhKSXBdDUjBHCJbBCdEReCNdXPjWPjLGBCCE",
  "BBBCfLHCHDBbCKbOHBEIBJLbUQpPIBIdEWBOeSGDBBCBHBBcOFBCBFnJEJCBBbWHDFhyBRGPurQFcHHboIBBcDHEdDBLC",
  "bdaXCBEgyUbUCXuWFDWCHbEEfSDcyDcDEbYIBOBWFBPcaIHBRCHBCBFdWBgEHoLBcJEtOEbmEHeFHebGFbsxxPBbEdSeY",
  "jG"]

def wideRanges : List Nat := numbers [
  "glKdSgsOCNChIEDBCBuBCVCbYMbRBTBNBICRCFCIBFBVBHCBBEBCBHBECbCBbJBBBEDBBcJDYBOBbhBCbZBEBbfEbABdLM",
  "iGbAcGGPCdIEdXFbRBdQBdGLbWBbOIkkEcMbguFDcDbtHbDyTqnSmqMtSbeEKWbJBTBEfTdSeXHbqkNEbCjcAIbvQbQJ",
  "nfREBHBCBlFPBbDDCBOEIpGxcYBhUBhIBCKdXDNbSEJHCOGfYbHMJBcSBWMbREFMRDBDDFcLBBBhFCcLNEBYSBbACNBdI",
  "dHbWcSGBDDCDEELCHJiTMEBkXbVBKBhDeINDJHbUBHIOEJHJbxNdsyOCdsyO"]

/-! ### Characters outside ASCII that have no visible form of their own -/

def hiddenRanges : List Nat := numbers [
  "eYbHMBbbMCGEHBBBUBpHBbMCbYCDBcDIbBEGRWBhKBbWCcHCdXOcHCbXCPBbCCBBLFbFJcWBgFBICCCWBHBBDECJCCCEIB",
  "ECBFCZCDBGECCWBHBCBCBCCBBFECCDDBHEBBHRKDBJBDBWBHBCBFCKBDBDCBPECMHHBDBICCCWBHBCBFCJCCCDHDECBFCS",
  "KCBGDDBEDCBBBCDCDDDMEFDDBECBGBOVFNBDBXBQCJBDBEHCBDCBCECKHWBDBXBKBFCJBDBEHCGCBECKBCNNBDBbZBDBGE",
  "QCbABDBSDYBJBBCHDBEGBBBIGKCDMcGEbDbLCBBBFBYBBBXCFBBBGCKCEbGcUBbKEbNBbKBPBNbLhQBBFBCoNBECHBBBEC",
  "bPBECbHBECHBBBECPBcFBECcPCbGDbAGdICGCyQBbCDdLHWJYJUMNBDBCMdQCKGKGOBLGdLHbRFcSKbFBMEMEBDbQCFLbS",
  "EbAGLDcKCcNBbDCLGKGOCbFbXcZDbVBeMIcIDPDcIHbRCLIbRFuOCGCbMCGCIBBBBBBBbFCcBBPBOCGBTCDBJRYIbVRCC",
  "bBBNDbHPbHPfKEzNZLVcrSCbGBnLFbTBBFBCcEHCOYJHBHBHBHBHBHBHBHBeWbIbABdLMiGbAMFcLBdICdZFbRBdQBdGM",
  "bVBbriRDcDJnKUhCIhVFCBBBFYcHDKGcEIcSIMGeMLbEDdABLEbHBcDJOCKCdZYbCKGCGCGJHBHBcIEeWCKGqnSMXEbXE",
  "daUjmEoCCeCbMHMFFbABFBBBCBCBeVQrDCcCHBbGbQGbZBTBEEFBfFEhIDGCGCGCDDHBHNCCMBbABTBCBPCObIeTFDEbTD",
  "dKBNDBbVbUfAbDDbXPbCEbKJbEFbRFbEBbLEObQgCCKGbKEbKEbOIcALMBPBHBCBLBPBHBCcPlZJWKIYGBbQBJcRGCBBbS",
  "BCDBCXBcUIJbWTBCFbHDbBFBcMcEEUCbYBCFIBDBbDCDEKHJHcMbGbNEMJcCDbDCbBFbAHEMHdCcVcDbZNbZHbUIKlIbFB",
  "bQBDCCdAbOIbQWbAbMbCUXJdAEbKJcKBFNZHKGcBBSIbNJdSBULSBbScNHBBBEBPBLGcHFKGEBICCCWBHBCBFBKCCCDCBG",
  "BFHCHDFfJdOBFbEcUIKgKcCCbMbIcRLKGNTcGGKcCbBCPEXhDcIdWdFMICBCIBCBbEBCCMJKcSICbUCLbBcUIdFNcVkDJB",
  "bTBOKbDDbGCWBOcVHBCBbSDBBCBJIKGGBCBbLBCBGHKlYZhBBPbYNbjNdYeHBFLhOdxKdVNbpFfzTwLmuBvXHbFBKEdDBK",
  "GbECGKcSKKBHBVFTbaMdNdXcXEcFHRcMFLCOjcAIbvQbQJnfREBHBCBlFbTDREIpGdkUeDFNDJHKCEgyYbUCXJeMcIjMK",
  "bNCcWIeIVcSfYUMdJJZfFdHBcTBCCBCCCEBMBBBHBcNBECIBHBbCBEBFBBDHBnCClGCbbAPFBPbqMbFiRHBRCHBCBFiFbT",
  "DOCKECmIbFRcGFBbwAHBEBCBPBhPCQbPcYEKECbeFcQcYcJhMEBbBBCBBCBBKBEBBBBGBEBBBBBBDBCBBCBBBBBBBBBBCB",
  "BCEBHBEBEBBBKBRFDBFBRcACkKbSEdWMPCPBPBbLKgScEbDNbSEJHCOGfYblWFQDNDeMMdLHMEBPMEcEIKGbOIbECCdAnC",
  "MOCFDFDHJbDDLFGKKGIIHJfRBcDbLKbnQclfCbGgdTHiOCinQOlbLepJuWcfYhhZbotmRjGlecU"]

end JarAtlas.Text
