import JarAtlas.Messages.Phrase
import JarAtlas.Proofs.Host.Outcome
import JarAtlas.Proofs.Text.Words

/-!
Messages with names in braces that values are put in for. The values are put in one after another,
so a value in which a brace opens can stand for more than itself. Where none does, it is as if all
were put in at once.
-/

namespace JarAtlas

open JarAtlas.Action List

namespace Text

variable {old new cs front rest done : List Char}

theorem replaceAll_go_skip (skipped rest done : List Char) :
    replaceAll.go old new (skipped ++ rest) skipped.length done = replaceAll.go old new rest 0 done := by
  induction skipped with
  | nil => rfl
  | cons c skipped ih => exact ih

theorem replaceAll_go_old {c : Char} (rest done : List Char) :
    replaceAll.go (c :: old) new (c :: (old ++ rest)) 0 done =
      replaceAll.go (c :: old) new rest 0 (new.reverse ++ done) := by
  have hstarts : (c :: old).isPrefixOf (c :: (old ++ rest)) := by simp
  rw [replaceAll.go, if_pos hstarts, length_cons, Nat.add_sub_cancel, replaceAll_go_skip,
    reverseAux_eq]

theorem replaceAll_go_plain {c : Char} (hfront : c ∉ front) (rest done : List Char) :
    replaceAll.go (c :: old) new (front ++ rest) 0 done =
      replaceAll.go (c :: old) new rest 0 (front.reverse ++ done) := by
  induction front generalizing done with
  | nil => rfl
  | cons d front ih =>
    obtain ⟨hd, hfront⟩ := not_or.mp (mem_cons.not.mp hfront)
    rw [cons_append, replaceAll.go, if_neg (by simp [hd]), ih hfront, reverse_cons, append_assoc]
    rfl

end Text

namespace Messages

/-- A piece of a message: plain text, or a name in braces. -/
inductive Piece where
  | plain (cs : List Char)
  | named (name : String)

namespace Piece

def text : Piece → List Char
  | plain cs => cs
  | named name => '\x7b' :: (name.toList ++ ['\x7d'])

/-- No brace opens in plain text, and names have no braces. -/
def IsSound : Piece → Prop
  | plain cs => '\x7b' ∉ cs
  | named name => '\x7b' ∉ name.toList ∧ '\x7d' ∉ name.toList

/-- The text of a piece when all values are put in at once. -/
def filled (values : List (String × Json)) : Piece → List Char
  | plain cs => cs
  | named name =>
    match Json.lookup name values with
    | some v => v.display.toList
    | none => (named name).text

/-- The piece when one value is put in. -/
def put (name : String) (value : List Char) : Piece → Piece
  | plain cs => plain cs
  | named other => if other = name then plain value else named other

variable {name : String} {value : List Char} {pieces : List Piece} {values : List (String × Json)}

theorem isSound_put {piece : Piece} (hpiece : piece.IsSound) (hvalue : '\x7b' ∉ value) :
    (piece.put name value).IsSound := by
  cases piece with
  | plain cs => exact hpiece
  | named other =>
    by_cases hother : other = name
    · rw [put, if_pos hother]
      exact hvalue
    · rw [put, if_neg hother]
      exact hpiece

theorem replaceAll_go_piece {piece : Piece} (hname : (named name).IsSound) (hpiece : piece.IsSound)
    (rest done : List Char) :
    Text.replaceAll.go (named name).text value (piece.text ++ rest) 0 done =
      Text.replaceAll.go (named name).text value rest 0
        ((piece.put name value).text.reverse ++ done) := by
  cases piece with
  | plain cs => exact Text.replaceAll_go_plain hpiece rest done
  | named other =>
    by_cases hother : other = name
    · rw [put, if_pos hother, hother]
      exact Text.replaceAll_go_old rest done
    · have hother' : ¬ (named name).text.isPrefixOf ((named other).text ++ rest) := by
        intro hstarts
        obtain ⟨tail, htail⟩ := isPrefixOf_iff_prefix.mp hstarts
        simp only [text, cons_append, append_assoc, nil_append, cons.injEq, true_and] at htail
        exact hother (String.toList_inj.mp (Text.eq_of_append_cons_eq hpiece.2 hname.2 htail.symm))
      have hplain : '\x7b' ∉ other.toList ++ ['\x7d'] := by simp [hpiece.1]
      rw [put, if_neg hother]
      change ¬ (named name).text.isPrefixOf ('\x7b' :: (other.toList ++ ['\x7d'] ++ rest)) at hother'
      change Text.replaceAll.go _ value ('\x7b' :: (other.toList ++ ['\x7d'] ++ rest)) 0 done = _
      rw [Text.replaceAll.go, if_neg hother']
      refine (Text.replaceAll_go_plain hplain rest _).trans ?_
      simp [text]

theorem replaceAll_pieces (hname : (named name).IsSound) (hpieces : ∀ p ∈ pieces, p.IsSound) :
    Text.replaceAll (named name).text value (pieces.flatMap text) =
      (pieces.map (put name value)).flatMap text := by
  have hgo (done : List Char) :
      Text.replaceAll.go (named name).text value (pieces.flatMap text) 0 done =
        done.reverse ++ (pieces.map (put name value)).flatMap text := by
    induction pieces generalizing done with
    | nil => simp [Text.replaceAll.go]
    | cons piece pieces ih =>
      obtain ⟨hpiece, hpieces⟩ := forall_mem_cons.mp hpieces
      rw [flatMap_cons, map_cons, flatMap_cons, replaceAll_go_piece hname hpiece, ih hpieces,
        reverse_append, reverse_reverse, append_assoc]
  exact hgo []

theorem filled_put (value : Json) (piece : Piece) :
    (piece.put name value.display.toList).filled values = piece.filled ((name, value) :: values) := by
  cases piece with
  | plain cs => rfl
  | named other =>
    by_cases hother : other = name
    · simp [put, filled, hother, Json.lookup]
    · simp [put, filled, hother, Ne.symm hother, Json.lookup]

end Piece

open Piece

variable {pieces : List Piece} {values others : List (String × Json)}

theorem fill_pieces (hpieces : ∀ p ∈ pieces, p.IsSound)
    (hvalues : ∀ v ∈ values, (named v.1).IsSound ∧ '\x7b' ∉ v.2.display.toList) :
    fill (String.ofList (pieces.flatMap text)) values =
      String.ofList (pieces.flatMap (filled values)) := by
  induction values generalizing pieces with
  | nil =>
    have htext : filled [] = text := by
      funext piece
      cases piece <;> rfl
    rw [htext]
    rfl
  | cons v values ih =>
    obtain ⟨⟨hname, hvalue⟩, hvalues⟩ := forall_mem_cons.mp hvalues
    have hput : ∀ p ∈ pieces.map (put v.1 v.2.display.toList), p.IsSound := by
      simpa using fun p hp => isSound_put (hpieces p hp) hvalue
    have hreplace : Text.replace (String.ofList (pieces.flatMap text)) ("\x7b" ++ v.1 ++ "\x7d")
        v.2.display = String.ofList ((pieces.map (put v.1 v.2.display.toList)).flatMap text) := by
      rw [← replaceAll_pieces hname hpieces, Text.replace]
      simp [text]
    have hfilled : (pieces.map (put v.1 v.2.display.toList)).flatMap (filled values) =
        pieces.flatMap (filled (v :: values)) := by
      simp [flatMap_map, filled_put]
    rw [← hfilled, ← ih hput hvalues, ← hreplace]
    rfl

theorem lookup_of_perm (hothers : others.Perm values) (hdistinct : (values.map (·.1)).Nodup)
    (name : String) : Json.lookup name others = Json.lookup name values := by
  induction hothers with
  | nil => rfl
  | cons v _ ih =>
    have hrest := ih (nodup_cons.mp hdistinct).2
    by_cases hv : v.1 = name
    · simp [Json.lookup, hv]
    · simpa [Json.lookup, hv] using hrest
  | swap v w rest =>
    have hne : v.1 ≠ w.1 := fun hsame => (nodup_cons.mp hdistinct).1 (by simp [hsame])
    by_cases hv : v.1 = name
    · simp [Json.lookup, hv, hv ▸ hne.symm]
    · simp [Json.lookup, find?_cons, hv]
  | trans _ hnext ih ih' => rw [ih ((hnext.map _).nodup_iff.mpr hdistinct), ih' hdistinct]

theorem filled_of_perm (hothers : others.Perm values) (hdistinct : (values.map (·.1)).Nodup) :
    filled others = filled values := by
  funext piece
  cases piece with
  | plain cs => rfl
  | named name => rw [filled, filled, lookup_of_perm hothers hdistinct]

/-- If no value has a brace that opens, values in any order give what they give when all are put in
at once: each name of the message is replaced by its value, and no other. -/
theorem phrase_fills_at_once {h h' : Host} {key : String} {s : String}
    (hmessage : (messageOf (.str key)).outcome h = (.ok (.str s), h'))
    (hs : s.toList = pieces.flatMap text) (hpieces : ∀ p ∈ pieces, p.IsSound)
    (hvalues : ∀ v ∈ values, v.1 ≠ "key" ∧ (named v.1).IsSound ∧ '\x7b' ∉ v.2.display.toList)
    (hdistinct : (values.map (·.1)).Nodup) (hothers : others.Perm values) :
    (phrase key others).outcome h =
      (.ok (.str (String.ofList (pieces.flatMap (filled values)))), h') := by
  have hkey : (others.any fun v => v.1 == "key") = false := by
    simpa using fun name v hv => (hvalues _ (hothers.mem_iff.mp hv)).1
  have hfill := fill_pieces hpieces fun v hv => (hvalues v (hothers.mem_iff.mp hv)).2
  rw [filled_of_perm hothers hdistinct, ← hs, String.ofList_toList] at hfill
  rw [phrase, phraseFor, hkey, if_neg (by simp), bind_of_ok hmessage, fillMessage, hfill]
  rfl

def pairHost : Host where
  env := [("PRISM_WORKSPACE", "/")]
  messages := [(defaultLocale, .obj [("pair", .str "\x7ba\x7d, \x7bb\x7d")])]

/-- Neither the order of the values nor a brace that closes in one of them matters. -/
theorem phrase_pairHost :
    (phrase "pair" [("b", .str "a\x7d"), ("a", .str "b")]).outcome pairHost =
      (.ok (.str "b, a\x7d"), pairHost) := by
  have hpieces : ∀ p ∈ [named "a", plain [',', ' '], named "b"], p.IsSound := by
    simp [IsSound]
  have hvalues : ∀ v ∈ [("a", Json.str "b"), ("b", .str "a\x7d")],
      v.1 ≠ "key" ∧ (named v.1).IsSound ∧ '\x7b' ∉ v.2.display.toList := by
    simp [IsSound, Json.display]
  exact phrase_fills_at_once (s := "\x7ba\x7d, \x7bb\x7d") rfl rfl hpieces hvalues (by simp)
    (.swap _ _ _)

end Messages

end JarAtlas
