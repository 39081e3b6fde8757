import Mathlib.Data.Option.Basic
import Mathlib.Tactic.SplitIfs
import StackMachine.Proofs.Machine.Builtin
import StackMachine.Proofs.Value.Arithmetic

/-!
# Parts of a text

A part of a text is given by a position and a number of characters, both of them any integers. It
holds the characters whose positions lie between the two limits, so a text falls into the part up to
a position and the part from there on, wherever that position is.

The limits can be worked out on 64-bit integers: of a text that has fewer than `2 ^ 63` characters
no sum and no difference leaves their range, and no position outside of the text is looked at.

## Main definitions

* `Value.charsWhere`: the characters of a text at the positions that satisfy a condition.
* `Value.checkedPart?`: a part of a text, worked out on 64-bit integers with all operations checked.

## Main results

* `Value.map_filter_zipIdx`: the items of a list between two positions.
* `Value.subtext_eq_charsWhere`, `Value.subtext_eq_charsWhere_from`: the part of a text that is
  asked for, with a number of characters and without.
* `Value.checkedPart?_eq_some`: the checked computation always has a result.
* `Value.texts_split_without_loss`: parts are exact, and two of them make up the text.
-/

namespace StackMachine.Value

/-- The characters of a text at the positions that satisfy a condition, in their order. -/
def charsWhere (p : ℤ → Prop) [DecidablePred p] (s : String) : String :=
  String.ofList ((s.toList.zipIdx.filter fun place => p place.2).map Prod.fst)

variable {α : Type} {s : String} {start count : Value} {i j : ℤ}

/-! ### Positions between two limits -/

/-- The items at the positions between two limits are taken and dropped by counting. -/
theorem map_filter_zipIdx (xs : List α) (offset first last : ℕ) :
    ((xs.zipIdx offset).filter fun place => first ≤ place.2 ∧ place.2 < last).map Prod.fst =
      (xs.take (last - offset)).drop (first - offset) := by
  induction xs generalizing offset with
  | nil => simp
  | cons x xs ih =>
    rw [List.zipIdx_cons, List.filter_cons]
    by_cases hlast : offset < last
    · obtain ⟨more, hmore⟩ : ∃ more, last - offset = more + 1 := ⟨last - offset - 1, by omega⟩
      have hmore' : last - (offset + 1) = more := by omega
      rw [hmore, List.take_succ_cons]
      by_cases hfirst : first ≤ offset
      · rw [if_pos (by simp [hfirst, hlast]), List.map_cons, ih, hmore',
          Nat.sub_eq_zero_of_le hfirst, Nat.sub_eq_zero_of_le (hfirst.trans (Nat.le_succ _))]
        rfl
      · obtain ⟨skipped, hskipped⟩ : ∃ skipped, first - offset = skipped + 1 :=
          ⟨first - offset - 1, by omega⟩
        have hskipped' : first - (offset + 1) = skipped := by omega
        rw [if_neg (by simp [hfirst]), ih, hmore', hskipped, hskipped', List.drop_succ_cons]
    · -- Everything from here on lies behind the last position.
      rw [if_neg (by simp [hlast]), ih, Nat.sub_eq_zero_of_le (not_lt.mp hlast),
        Nat.sub_eq_zero_of_le ((not_lt.mp hlast).trans (Nat.le_succ _)), List.take_zero,
        List.take_zero, List.drop_nil, List.drop_nil]

/-- The characters between two limits. -/
theorem charsWhere_between (s : String) (hi : 0 ≤ i) (hj : 0 ≤ j) :
    charsWhere (fun p => i ≤ p ∧ p < j) s =
      String.ofList ((s.toList.take j.toNat).drop i.toNat) := by
  obtain ⟨first, rfl⟩ := Int.eq_ofNat_of_zero_le hi
  obtain ⟨last, rfl⟩ := Int.eq_ofNat_of_zero_le hj
  have hpart := map_filter_zipIdx s.toList 0 first last
  rw [Nat.sub_zero, Nat.sub_zero] at hpart
  simp only [charsWhere, Int.toNat_natCast, ← hpart, Nat.cast_le, Nat.cast_lt]

/-- The characters from a position on. -/
theorem charsWhere_from (s : String) (hi : 0 ≤ i) :
    charsWhere (fun p => i ≤ p) s = String.ofList (s.toList.drop i.toNat) := by
  have hwhole : charsWhere (fun p => i ≤ p) s =
      charsWhere (fun p => i ≤ p ∧ p < s.toList.length) s := by
    rw [charsWhere, charsWhere]
    congr 2
    apply List.filter_congr
    intro place hplace
    have hlt := List.snd_lt_of_mem_zipIdx hplace
    rw [decide_eq_decide]
    omega
  rw [hwhole, charsWhere_between s hi (Int.natCast_nonneg _), Int.toNat_natCast, List.take_length]

/-! ### The function -/

theorem toNat_max_zero (k : ℤ) : (max k 0).toNat = k.toNat := by
  omega

/-- With start and count, the characters at the positions from the start on, as many as the count
says. -/
theorem subtext_eq_charsWhere (s : String) (hstart : start.Denotes i) (hcount : count.Denotes j) :
    subtext [str s, start, count] =
      str (charsWhere (fun p => max i 0 ≤ p ∧ p < max i 0 + max j 0) s) := by
  obtain ⟨m, hm, rfl⟩ := hstart.exists_integer?
  obtain ⟨n, hn, rfl⟩ := hcount.exists_integer?
  have hlast : (max m.toInt 0 + max n.toInt 0).toNat - m.toInt.toNat = n.toInt.toNat := by omega
  rw [charsWhere_between s (by omega) (by omega), toNat_max_zero, List.drop_take, hlast]
  simp only [subtext, hm, hn, Option.getD_some, List.head?_cons, Option.bind_some]

/-- Without a count, all characters from the start on. -/
theorem subtext_eq_charsWhere_from (s : String) (hstart : start.Denotes i) :
    subtext [str s, start] = str (charsWhere (fun p => max i 0 ≤ p) s) := by
  obtain ⟨m, hm, rfl⟩ := hstart.exists_integer?
  have hshort : (s.toList.drop m.toInt.toNat).length ≤ s.toList.length := by simp
  rw [charsWhere_from s (by omega), toNat_max_zero]
  simp only [subtext, hm, Option.getD_some, List.head?_nil, Option.bind_none,
    List.take_of_length_le hshort]

/-! ### The function on 64-bit integers -/

/-- The sum of two 64-bit integers, unless it leaves their range. -/
def sum? (a b : Int64) : Option Int64 :=
  if (a + b).toInt = a.toInt + b.toInt then some (a + b) else none

/-- The difference of two 64-bit integers, unless it leaves their range. -/
def difference? (a b : Int64) : Option Int64 :=
  if (a - b).toInt = a.toInt - b.toInt then some (a - b) else none

/-- The number nearest to `n` from zero up to a limit, unless the limit is negative. -/
def limited? (n limit : Int64) : Option Int64 :=
  if 0 ≤ limit then some (if n < 0 then 0 else if limit < n then limit else n) else none

/-- The characters from one position up to another, unless the positions do not lie in the text in
this order. -/
def between? (s : String) (first last : Int64) : Option String :=
  if 0 ≤ first.toInt ∧ first.toInt ≤ last.toInt ∧ last.toInt ≤ s.length then
    some (String.ofList ((s.toList.take last.toInt.toNat).drop first.toInt.toNat))
  else none

/-- A part of a text, worked out on 64-bit integers: from a position on, and at most so many
characters if a number is given. There is no result if any operation leaves its range. -/
def checkedPart? (s : String) (start : Int64) (count : Option Int64) : Option String :=
  let total := Int64.ofNat s.length
  let first := if start < 0 then 0 else start
  if total ≤ first then some ""
  else do
    let room ← difference? total first
    let kept ← limited? (count.getD total) room
    let last ← sum? first kept
    between? s first last

/-- A sum that fits is computed exactly. -/
theorem exists_sum? {a b : Int64} (hlow : -2 ^ 63 ≤ a.toInt + b.toInt)
    (hhigh : a.toInt + b.toInt < 2 ^ 63) : ∃ c, sum? a b = some c ∧ c.toInt = a.toInt + b.toInt :=
  have hexact := toInt_eq_of_modEq (modEq_add a b) hlow hhigh
  ⟨a + b, if_pos hexact, hexact⟩

theorem exists_difference? {a b : Int64} (hlow : -2 ^ 63 ≤ a.toInt - b.toInt)
    (hhigh : a.toInt - b.toInt < 2 ^ 63) :
    ∃ c, difference? a b = some c ∧ c.toInt = a.toInt - b.toInt :=
  have hexact := toInt_eq_of_modEq (modEq_sub a b) hlow hhigh
  ⟨a - b, if_pos hexact, hexact⟩

/-- Every integer can be brought between zero and a limit. -/
theorem exists_limited? (n : Int64) {limit : Int64} (hlimit : 0 ≤ limit.toInt) :
    ∃ c, limited? n limit = some c ∧ c.toInt = max 0 (min n.toInt limit.toInt) := by
  have hlimit' : (0 : Int64) ≤ limit := by
    rwa [Int64.le_iff_toInt_le, Int64.toInt_zero]
  refine ⟨_, if_pos hlimit', ?_⟩
  simp only [apply_ite Int64.toInt, Int64.lt_iff_toInt_lt, Int64.toInt_zero]
  split_ifs <;> omega

/-- The part between two positions in a text can be taken. -/
theorem between?_eq_some {first last : Int64}
    (h : 0 ≤ first.toInt ∧ first.toInt ≤ last.toInt ∧ last.toInt ≤ s.length) :
    between? s first last = some (String.ofList
      ((s.toList.drop first.toInt.toNat).take (last.toInt - first.toInt).toNat)) := by
  have hcount : last.toInt.toNat - first.toInt.toNat = (last.toInt - first.toInt).toNat := by omega
  rw [between?, if_pos h, List.drop_take, hcount]

/-- A number of items may as well be limited to those that there are. -/
theorem take_limited (xs : List α) (n : ℤ) :
    xs.take (max 0 (min n xs.length)).toNat = xs.take n.toNat := by
  rw [List.take_eq_take_iff]
  omega

/-- The checked computation has a result for every text that has fewer than `2 ^ 63` characters. -/
theorem checkedPart?_eq_some (hlength : s.length < 2 ^ 63) (start : Int64)
    (count : Option Int64) :
    checkedPart? s start count =
      some (String.ofList ((s.toList.drop start.toInt.toNat).take
        (count.getD (Int64.ofNat s.length)).toInt.toNat)) := by
  have htotal : (Int64.ofNat s.length).toInt = s.length := Int64.toInt_ofNat_of_lt hlength
  have hfirst : (if start < 0 then 0 else start).toInt = max start.toInt 0 := by
    simp only [apply_ite Int64.toInt, Int64.lt_iff_toInt_lt, Int64.toInt_zero]
    split_ifs <;> omega
  simp only [checkedPart?]
  -- From here on only the values of the integers matter.
  generalize Int64.ofNat s.length = total at htotal
  generalize (if start < 0 then (0 : Int64) else start) = first at hfirst
  generalize count.getD total = n
  by_cases hbehind : total ≤ first
  · -- The part begins behind the text.
    have hdrop : s.toList.drop start.toInt.toNat = [] := by
      rw [Int64.le_iff_toInt_le] at hbehind
      rw [List.drop_eq_nil_iff, String.length_toList]
      omega
    rw [if_pos hbehind, hdrop, List.take_nil]
  · have hfits : first.toInt < total.toInt := by
      rwa [Int64.le_iff_toInt_le, not_le] at hbehind
    -- Each step stays within the text, so none of them overflows.
    obtain ⟨room, hroom, hroom'⟩ :=
      exists_difference? (a := total) (b := first) (by omega) (by omega)
    obtain ⟨kept, hkept, hkept'⟩ := exists_limited? n (by omega : 0 ≤ room.toInt)
    obtain ⟨last, hlast, hlast'⟩ := exists_sum? (a := first) (b := kept) (by omega) (by omega)
    have hinside : 0 ≤ first.toInt ∧ first.toInt ≤ last.toInt ∧ last.toInt ≤ s.length := by omega
    have hleft : room.toInt = (s.toList.drop first.toInt.toNat).length := by
      rw [List.length_drop, String.length_toList]
      omega
    have hfirst' : first.toInt.toNat = start.toInt.toNat := by rw [hfirst, toNat_max_zero]
    simp only [if_neg hbehind, hroom, hkept, hlast, Option.bind_eq_bind, Option.bind_some]
    rw [between?_eq_some hinside, hlast', add_sub_cancel_left, hkept', hleft, take_limited, hfirst']

/-- A value that denotes an integer is an integer. -/
theorem Denotes.integer?_eq {v : Value} (h : v.Denotes i) : v.integer? = some (Int64.ofInt i) := by
  obtain ⟨n, hn, rfl⟩ := h.exists_integer?
  rw [hn, Int64.ofInt_toInt]

/-- The part that the function returns is the one that the checked computation gives. -/
theorem checkedPart?_of_subtext (hlength : s.length < 2 ^ 63) (hstart : start.Denotes i)
    {rest : List Value} {part : String} (h : subtext (str s :: start :: rest) = str part)
    {n : Option Int64} (hrest : rest.head?.bind integer? = n) :
    checkedPart? s (Int64.ofInt i) n = some part := by
  rw [subtext, hstart.integer?_eq, hrest, str.injEq] at h
  rw [checkedPart?_eq_some hlength, ← h]
  cases n with
  | some n => rfl
  | none =>
    simp only [Option.getD_none, Option.getD_some, Int64.toInt_ofNat_of_lt hlength,
      Int.toNat_natCast, String.length_toList]

/-! ### Splitting -/

/-- A text falls into its characters up to a position and those from there on. -/
theorem exists_split (s : String) {zero cut cut' : Value} {k : ℤ} (hzero : zero.Denotes 0)
    (hcut : cut.Denotes k) (hcut' : cut'.Denotes k) :
    ∃ front back, subtext [str s, zero, cut] = str front ∧ subtext [str s, cut'] = str back ∧
      front ++ back = s ∧ front.length = min k.toNat s.length := by
  refine ⟨_, _, subtext_eq_charsWhere s hzero hcut, subtext_eq_charsWhere_from s hcut', ?_⟩
  rw [charsWhere_between s (by omega) (by omega), charsWhere_from s (by omega)]
  constructor
  · rw [← String.ofList_append]
    simp [toNat_max_zero]
  · simp [toNat_max_zero, String.length_toList]

/-- Parts of a text are exact. The part from a position on, with at most so many characters, has
exactly the characters at the positions between the two limits, for all integers; no operation on
64-bit integers leaves its range on the way. So a text is the part up to any position followed by
the part from there on, and the first of them is as long as the position says. -/
theorem texts_split_without_loss :
    (∀ (s : String) (start count : Value) (i j : ℤ), start.Denotes i → count.Denotes j →
      Builtin.substr.Returns [str s, start, count]
        (str (charsWhere (fun p => max i 0 ≤ p ∧ p < max i 0 + max j 0) s)) ∧
      (s.length < 2 ^ 63 → checkedPart? s (Int64.ofInt i) (some (Int64.ofInt j)) =
        some (charsWhere (fun p => max i 0 ≤ p ∧ p < max i 0 + max j 0) s))) ∧
    (∀ (s : String) (start : Value) (i : ℤ), start.Denotes i →
      Builtin.substr.Returns [str s, start] (str (charsWhere (fun p => max i 0 ≤ p) s)) ∧
      (s.length < 2 ^ 63 →
        checkedPart? s (Int64.ofInt i) none = some (charsWhere (fun p => max i 0 ≤ p) s))) ∧
    ∀ (s : String) (zero cut cut' : Value) (k : ℤ), zero.Denotes 0 → cut.Denotes k →
      cut'.Denotes k → ∃ front back : String,
        Builtin.substr.Returns [str s, zero, cut] (str front) ∧
        Builtin.substr.Returns [str s, cut'] (str back) ∧
        (∀ line, binary (str front) (str back) "+" line = .ok (str s)) ∧
        (s.length < 2 ^ 31 → ∃ n total : Int32,
          Builtin.len.Returns [str front] (int n) ∧ Builtin.len.Returns [str s] (int total) ∧
          total.toInt = s.length ∧ n.toInt = min (max k 0) total.toInt) := by
  refine ⟨fun s start count i j hstart hcount => ?_, fun s start i hstart => ?_,
    fun s zero cut cut' k hzero hcut hcut' => ?_⟩
  · have hpart := subtext_eq_charsWhere s hstart hcount
    exact ⟨Builtin.returns_substr hpart,
      fun hlength => checkedPart?_of_subtext hlength hstart hpart hcount.integer?_eq⟩
  · have hpart := subtext_eq_charsWhere_from s hstart
    exact ⟨Builtin.returns_substr hpart,
      fun hlength => checkedPart?_of_subtext hlength hstart hpart rfl⟩
  · obtain ⟨front, back, hfront, hback, hwhole, hlength⟩ := exists_split s hzero hcut hcut'
    refine ⟨front, back, Builtin.returns_substr hfront, Builtin.returns_substr hback,
      fun _ => congrArg (Except.ok <| str ·) hwhole, fun hshort => ?_⟩
    have htotal := Int32.toInt_ofNat_of_lt hshort
    refine ⟨_, _, Builtin.returns_len rfl, Builtin.returns_len rfl, htotal, ?_⟩
    rw [htotal, Int32.toInt_ofNat_of_lt (by omega), hlength]
    omega

/-- The least 64-bit integer as a position, and a cut behind the second character of a text whose
characters have different numbers of bytes. -/
theorem texts_split_without_loss_accented :
    Builtin.substr.Returns [str "hé😀", long Int64.minValue, int 2] (str "hé") ∧
    checkedPart? "hé😀" Int64.minValue (some 2) = some "hé" ∧
    Builtin.substr.Returns [str "hé😀", int 2] (str "😀") ∧
    ∃ front back : String, Builtin.substr.Returns [str "hé😀", int 0, int 2] (str front) ∧
      Builtin.substr.Returns [str "hé😀", long 2] (str back) ∧
      binary (str front) (str back) "+" 1 = .ok (str "hé😀") := by
  have hleast : Denotes (long Int64.minValue) (-2 ^ 63) := .wide Int64.minValue
  have htwo : Denotes (int 2) 2 := .narrow 2
  have hzero : Denotes (int 0) 0 := .narrow 0
  have htwo' : Denotes (long 2) 2 := .wide 2
  have hcounted : charsWhere
      (fun p : ℤ => max (-2 ^ 63) 0 ≤ p ∧ p < max (-2 ^ 63) 0 + max 2 0) "hé😀" = "hé" := by
    decide +kernel
  have hopen : charsWhere (fun p : ℤ => max 2 0 ≤ p) "hé😀" = "😀" := by decide +kernel
  obtain ⟨hparts, hrests, hsplit⟩ := texts_split_without_loss
  obtain ⟨hpart, hchecked⟩ := hparts "hé😀" _ _ _ _ hleast htwo
  have hrest := (hrests "hé😀" _ _ htwo).1
  rw [hcounted] at hpart hchecked
  rw [hopen] at hrest
  obtain ⟨front, back, hfront, hback, hwhole, -⟩ := hsplit "hé😀" _ _ _ _ hzero htwo htwo'
  exact ⟨hpart, hchecked (by decide +kernel), hrest, front, back, hfront, hback, hwhole 1⟩

end StackMachine.Value
