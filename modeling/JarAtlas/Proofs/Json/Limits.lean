import JarAtlas.Proofs.Json.RoundTrip
import Mathlib.Data.Nat.Digits.Defs

/-!
The limits of reading. Every value that is read keeps to them, so that what was read once can be
written and read again.
-/

open List Except

namespace JarAtlas.Json

variable {v value : Json} {items : List Json} {fields : List (String × Json)}

theorem exists_of_map_ok {α β : Type} {r : Except ReadError α} {f : α → β} {b : β}
    (hmap : r.map f = .ok b) : ∃ a, r = .ok a ∧ f a = b := by
  cases r with
  | error e => cases hmap
  | ok a => exact ⟨a, rfl, ok.inj hmap⟩

theorem asciiDigits_lt {ds : List Char} (hds : ∀ d ∈ ds, d.isDigit) :
    asciiDigits ds < 10 ^ ds.length := by
  have hgo (front : Nat) : ds.foldl (fun n c => 10 * n + (c.toNat - 48)) front <
      (front + 1) * 10 ^ ds.length := by
    induction ds generalizing front with
    | nil => simp
    | cons d ds ih =>
      have hd : d.toNat - 48 ≤ 9 := by
        have hdigit := (Char.isDigit_iff_toNat.mp (hds d mem_cons_self)).2
        exact Nat.sub_le_sub_right hdigit 48
      calc ds.foldl (fun n c => 10 * n + (c.toNat - 48)) (10 * front + (d.toNat - 48))
          < (10 * front + (d.toNat - 48) + 1) * 10 ^ ds.length :=
            ih (fun c hc => hds c (mem_cons_of_mem _ hc)) _
        _ ≤ (front + 1) * 10 * 10 ^ ds.length := Nat.mul_le_mul_right _ (by omega)
        _ = (front + 1) * 10 ^ (d :: ds).length := by
            rw [length_cons, Nat.pow_succ', Nat.mul_assoc]
  have hall := hgo 0
  rw [Nat.zero_add, Nat.one_mul] at hall
  rw [asciiDigits, digitsValue, foldl_map]
  exact hall

theorem isBounded_int {ds : List Char} (hds : ∀ d ∈ ds, d.isDigit) (hsome : ds ≠ [])
    (hlength : ds.length ≤ maxDigits) (negative : Bool) (depth : Nat) :
    isBounded depth (.int (if negative then -Int.ofNat (asciiDigits ds)
      else Int.ofNat (asciiDigits ds))) = true := by
  have hsize : ∀ n : Int, n.natAbs = asciiDigits ds → isBounded depth (.int n) := by
    intro n hn
    have hdigits := Nat.toDigits_length 10 (asciiDigits ds) ds.length
      (length_pos_of_ne_nil hsome) (asciiDigits_lt hds)
    rw [isBounded, hn, decide_eq_true_eq]
    omega
  cases negative with
  | true => exact hsize _ (by simp)
  | false => exact hsize _ (by simp)

theorem isDigit_of_mem_span {cs : List Char} :
    ∀ d ∈ (cs.span Char.isDigit).1, d.isDigit := by
  rw [span_eq_takeWhile_dropWhile]
  exact all_eq_true.mp all_takeWhile

theorem isBounded_of_readNumber {negative : Bool} {cs rest : List Char}
    (hread : readNumber negative cs = .ok (v, rest)) (depth : Nat) : isBounded depth v := by
  unfold readNumber at hread
  split at hread
  next whole tail hwhole =>
    have hdigits : ∀ d ∈ whole, d.isDigit := by
      split at hwhole
      · rw [← (Prod.mk.inj hwhole).1]
        decide
      · have hfirst := congrArg Prod.fst hwhole
        rw [← (show _ = whole from hfirst)]
        exact isDigit_of_mem_span
    -- Whatever follows the digits, the number is a double or the whole number that they spell.
    have hend (isInt : Bool) (d : Double) (after : List Char) (hsome : ¬ whole.isEmpty)
        (hall : (if isInt = true then
          if maxDigits < whole.length then error ReadError.tooManyDigits
          else .ok (int (if negative then -Int.ofNat (asciiDigits whole)
            else Int.ofNat (asciiDigits whole)), after)
          else .ok (.double d, after)) = ok (v, rest)) : isBounded depth v := by
      split at hall
      · split at hall
        · cases hall
        · next hlength =>
          cases hall
          exact isBounded_int hdigits (by simpa using hsome) (Nat.not_lt.mp hlength) _ _
      · cases hall
        rfl
    dsimp only at hread
    split at hread
    · cases hread
    · next hsome => exact hend _ _ _ hsome hread

theorem isBounded_of_readScalar {cs rest : List Char} (hread : readScalar cs = .ok (v, rest))
    (depth : Nat) : isBounded depth v := by
  unfold readScalar at hread
  split at hread
  case h_7 => exact isBounded_of_readNumber hread depth
  case h_8 => exact isBounded_of_readNumber hread depth
  all_goals
    cases hread
    rfl

theorem isBounded_ofString (s : String) (isTorn : Bool) (depth : Nat) :
    isBounded depth (if isTorn then .torn s else .str s) = true := by
  cases isTorn <;> rfl

theorem isBounded_named {depth : Nat} (hvalue : isBounded depth value) (isTorn : Bool) :
    isBounded depth (if isTorn then .misnamed value else value) = true := by
  cases isTorn <;> exact hvalue

/-- What the three readers give with so much fuel keeps to the limits, as far as what was read
before does. -/
structure KeepsLimits (fuel : Nat) : Prop where
  value : ∀ {depth cs v rest}, readValue depth fuel cs = .ok (v, rest) → isBounded depth v = true
  items : ∀ {depth done cs items rest}, (∀ item ∈ done, isBounded depth item = true) →
    readItems depth fuel done cs = .ok (items, rest) → ∀ item ∈ items, isBounded depth item = true
  fields : ∀ {depth done cs fields rest}, (∀ field ∈ done, isBounded depth field.2 = true) →
    (done.map Prod.fst).Nodup → readFields depth fuel done cs = .ok (fields, rest) →
    (fields.map Prod.fst).Nodup ∧ ∀ field ∈ fields, isBounded depth field.2 = true

variable {fuel depth : Nat} {cs rest : List Char}

theorem isBounded_of_readValue (hless : KeepsLimits fuel)
    (hread : readValue depth (fuel + 1) cs = .ok (v, rest)) : isBounded depth v := by
  have hpos (hdepth : ¬ (depth == 0) = true) : 0 < depth := by
    simpa [Nat.pos_iff_ne_zero] using hdepth
  unfold readValue at hread
  split at hread
  · split at hread
    · cases hread
      exact isBounded_ofString _ _ _
    · cases hread
  · split at hread
    · cases hread
    · next hdepth =>
      split at hread
      · cases hread
        exact isBounded_arr_iff.mpr ⟨hpos hdepth, forall_mem_nil _⟩
      · obtain ⟨⟨items, tail⟩, hitems, hv⟩ := exists_of_map_ok hread
        cases hv
        exact isBounded_arr_iff.mpr ⟨hpos hdepth, hless.items (forall_mem_nil _) hitems⟩
  · split at hread
    · cases hread
    · next hdepth =>
      split at hread
      · cases hread
        exact isBounded_obj_iff.mpr ⟨hpos hdepth, nodup_nil, forall_mem_nil _⟩
      · obtain ⟨⟨fields, tail⟩, hfields, hv⟩ := exists_of_map_ok hread
        cases hv
        exact isBounded_obj_iff.mpr
          ⟨hpos hdepth, hless.fields (forall_mem_nil _) nodup_nil hfields⟩
  · exact isBounded_of_readScalar hread depth

theorem isBounded_of_readItems (hless : KeepsLimits fuel) {done : List Json}
    (hdone : ∀ item ∈ done, isBounded depth item)
    (hread : readItems depth (fuel + 1) done cs = .ok (items, rest)) :
    ∀ item ∈ items, isBounded depth item := by
  unfold readItems at hread
  split at hread
  · cases hread
  · next item tail hitem =>
    have hnext : ∀ other ∈ item :: done, isBounded depth other :=
      forall_mem_cons.mpr ⟨hless.value hitem, hdone⟩
    split at hread
    · exact hless.items hnext hread
    · cases hread
      exact fun other hother => hnext other (mem_reverse.mp hother)
    · cases hread

theorem isBounded_of_readFields (hless : KeepsLimits fuel) {done : List (String × Json)}
    (hdone : ∀ field ∈ done, isBounded depth field.2) (hnames : (done.map Prod.fst).Nodup)
    (hread : readFields depth (fuel + 1) done cs = .ok (fields, rest)) :
    (fields.map Prod.fst).Nodup ∧ ∀ field ∈ fields, isBounded depth field.2 := by
  unfold readFields at hread
  split at hread
  · split at hread
    · cases hread
    · next name isTorn _ _ =>
      split at hread
      · split at hread
        · cases hread
        · next value tail hvalue =>
          have hnext : ∀ field ∈ assign name (if isTorn then .misnamed value else value) done,
              isBounded depth field.2 := by
            intro field hfield
            rcases mem_assign hfield with hnew | hold
            · exact hnew ▸ isBounded_named (hless.value hvalue) isTorn
            · exact hdone field hold
          dsimp only at hread
          split at hread
          · exact hless.fields hnext (nodup_assign hnames) hread
          · cases hread
            exact ⟨nodup_assign hnames, hnext⟩
          · cases hread
      · cases hread
  · cases hread

theorem keepsLimits (fuel : Nat) : KeepsLimits fuel := by
  induction fuel with
  | zero =>
    refine ⟨?_, ?_, ?_⟩
    · rintro _ _ _ _ ⟨⟩
    · rintro _ _ _ _ _ _ ⟨⟩
    · rintro _ _ _ _ _ _ _ ⟨⟩
  | succ fuel ih =>
    exact ⟨isBounded_of_readValue ih, isBounded_of_readItems ih, isBounded_of_readFields ih⟩

theorem isBounded_of_parse (hparse : parse cs = .ok v) : isBounded maxDepth v := by
  unfold parse at hparse
  split at hparse
  · next value tail hread =>
    split at hparse
    · cases hparse
      exact (keepsLimits _).value hread
    · cases hparse
  · cases hparse

theorem isBounded_assign (hbound : isBounded depth (.obj fields))
    (hvalue : isBounded (depth - 1) value) (name : String) :
    isBounded depth (.obj (assign name value fields)) := by
  obtain ⟨hdepth, hnames, hfields⟩ := isBounded_obj_iff.mp hbound
  refine isBounded_obj_iff.mpr ⟨hdepth, nodup_assign hnames, fun field hfield => ?_⟩
  rcases mem_assign hfield with hnew | hold
  · exact hnew ▸ hvalue
  · exact hfields field hold

theorem all_assign {check : Json → Bool} (hfields : all check (.obj fields))
    (hvalue : all check value) (name : String) :
    all check (.obj (assign name value fields)) := by
  rw [all_obj_iff] at hfields ⊢
  intro field hfield
  rcases mem_assign hfield with hnew | hold
  · exact hnew ▸ hvalue
  · exact hfields field hold

/-- Values that are neither numbers, arrays nor objects, and can be written. -/
def IsFlat : Json → Prop
  | null | bool _ | str _ => True
  | _ => False

theorem IsFlat.readable (hv : v.IsFlat) (depth : Nat) :
    isBounded depth v ∧ all isPlain v := by
  cases v with
  | null | bool _ | str _ => exact ⟨rfl, rfl⟩
  | int _ | double _ | torn _ | misnamed _ | arr _ | obj _ => cases hv

end JarAtlas.Json
