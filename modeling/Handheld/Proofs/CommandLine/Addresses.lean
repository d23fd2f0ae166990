import Handheld.CommandLine.Address
import Handheld.Text.Hex
import Mathlib.Data.List.Forall2
import Mathlib.Data.Nat.Digits.Defs

/-!
# Which texts are addresses

An address is a mark or none, a plus sign or none, and digits.  `Address.Writes` says so in these
words and gives the digits their number; it says nothing about reading.  `Address.parses_iff_writes`
says that reading accepts exactly these texts, each as its number.

Reading goes from left to right and never turns back: it takes away the first mark that fits, then a
plus sign, and gives up at the first value that is too large.  It loses nothing by that.  No sign
and no digit is the `x` or the dollar sign of a mark, so a text that has a mark in front cannot be
read without taking it away (`Address.stripMark_append`), and no digit makes the value of those
before it smaller (`Numeral.readDigits_eq_ok_iff`).
-/

set_option autoImplicit false

namespace Handheld

/-! ## Numerals -/

namespace Numeral

variable {base limit : Nat}

/-- The figure or letter, in either case, is the digit of value `d`. -/
def IsDigit (base : Nat) (c : Char) (d : Nat) : Prop :=
  d < base ∧ (c = Hex.digit d ∨ c = (Hex.digit d).toLower)

/-- The digits stand for the number.  There is at least one, and there may be zeros in front. -/
def Denotes (base : Nat) (digits : List Char) (n : Nat) : Prop :=
  digits ≠ [] ∧
    ∃ values, List.Forall₂ (IsDigit base) digits values ∧ Nat.ofDigits base values.reverse = n

theorem digitValue?_digit : ∀ d < 36,
    digitValue? (Hex.digit d) = some d ∧ digitValue? (Hex.digit d).toLower = some d := by
  decide

/-- Nothing else has a value: beyond the last small letter there is no digit. -/
theorem digitValue?_eq_some {c : Char} {d : Nat} (h : digitValue? c = some d) :
    d < 36 ∧ (c = Hex.digit d ∨ c = (Hex.digit d).toLower) := by
  have htable : ∀ n < 123, ∀ d ∈ digitValue? (Char.ofNat n),
      d < 36 ∧ (Char.ofNat n = Hex.digit d ∨ Char.ofNat n = (Hex.digit d).toLower) := by
    decide
  have hle {last : Char} (hc : c ≤ last) : c.toNat ≤ last.toNat := Char.le_def.1 hc
  have hc : c.toNat < 123 := by
    rw [digitValue?] at h
    split at h
    next hfigure => exact (hle hfigure.2).trans_lt (by decide)
    next =>
      split at h
      next hupper => exact (hle hupper.2).trans_lt (by decide)
      next =>
        split at h
        next hlower => exact (hle hlower.2).trans_lt (by decide)
        next => cases h
  have := htable c.toNat hc
  rw [Char.ofNat_toNat] at this
  exact this d h

theorem digit?_eq_some_iff (hbase : base ≤ 36) {c : Char} {d : Nat} :
    digit? base c = some d ↔ IsDigit base c d := by
  rw [digit?, Option.filter_eq_some_iff, decide_eq_true_iff, IsDigit, and_comm]
  refine and_congr_right fun hd ↦ ⟨fun h ↦ (digitValue?_eq_some h).2, ?_⟩
  obtain ⟨hupper, hlower⟩ := digitValue?_digit d (hd.trans_le hbase)
  rintro (rfl | rfl)
  · exact hupper
  · exact hlower

/-- The value of the first digit is the one that is read. -/
theorem exists_values_cons_iff (hbase : base ≤ 36) {c : Char} {d : Nat}
    (hd : digit? base c = some d) {digits : List Char} {P : List Nat → Prop} :
    (∃ values, List.Forall₂ (IsDigit base) (c :: digits) values ∧ P values) ↔
      ∃ values, List.Forall₂ (IsDigit base) digits values ∧ P (d :: values) := by
  constructor
  · rintro ⟨_, hcons, hP⟩
    obtain ⟨d', values, hd', hvalues, rfl⟩ := List.forall₂_cons_left_iff.1 hcons
    obtain rfl := Option.some.inj (hd.symm.trans ((digit?_eq_some_iff hbase).2 hd'))
    exact ⟨values, hvalues, hP⟩
  · rintro ⟨values, hvalues, hP⟩
    exact ⟨d :: values, .cons ((digit?_eq_some_iff hbase).1 hd) hvalues, hP⟩

/-- A digit behind a value makes it the value of one digit more. -/
theorem value_cons (value d : Nat) (values : List Nat) :
    value * base ^ (d :: values).length + Nat.ofDigits base (d :: values).reverse =
      (base * value + d) * base ^ values.length + Nat.ofDigits base values.reverse := by
  rw [List.reverse_cons, Nat.ofDigits_append, Nat.ofDigits_singleton, List.length_reverse,
    List.length_cons]
  ring

/-- **Digits are read as what they stand for**, behind a value that is within the limit.  Reading
stops as soon as the limit is passed, and no digit that comes later would bring the value back. -/
theorem readDigits_eq_ok_iff (hbase : base ≤ 36) {digits : List Char} {value n : Nat}
    (hvalue : value ≤ limit) :
    readDigits base limit value digits = .ok n ↔
      ∃ values, List.Forall₂ (IsDigit base) digits values ∧
        value * base ^ values.length + Nat.ofDigits base values.reverse = n ∧ n ≤ limit := by
  induction digits generalizing value with
  | nil =>
    rw [readDigits, Except.ok.injEq]
    constructor
    · rintro rfl
      exact ⟨[], .nil, by simp, hvalue⟩
    · rintro ⟨values, hvalues, hn, -⟩
      cases hvalues
      simpa using hn
  | cons c digits ih =>
    rw [readDigits]
    cases hc : digit? base c with
    | none =>
      refine iff_of_false nofun ?_
      rintro ⟨values, hvalues, -⟩
      obtain ⟨d, values, hd, -, rfl⟩ := List.forall₂_cons_left_iff.1 hvalues
      rw [(digit?_eq_some_iff hbase).2 hd] at hc
      cases hc
    | some d =>
      rw [exists_values_cons_iff hbase hc]
      simp only [value_cons]
      split
      next hle => exact ih hle
      next hlarge =>
        refine iff_of_false nofun ?_
        rintro ⟨values, -, rfl, hn⟩
        have hbase_pos : 0 < base := Nat.zero_lt_of_lt ((digit?_eq_some_iff hbase).1 hc).1
        have hgrows := Nat.le_mul_of_pos_right (base * value + d)
          (Nat.pow_pos (n := values.length) hbase_pos)
        omega

theorem readDigits_zero_eq_ok_iff (hbase : base ≤ 36) {digits : List Char} {n : Nat}
    (hdigits : digits ≠ []) :
    readDigits base limit 0 digits = .ok n ↔ Denotes base digits n ∧ n ≤ limit := by
  rw [readDigits_eq_ok_iff hbase (Nat.zero_le limit), Denotes, and_iff_right hdigits]
  simp only [Nat.zero_mul, Nat.zero_add]
  constructor
  · rintro ⟨values, hvalues, hn, hlimit⟩
    exact ⟨⟨values, hvalues, hn⟩, hlimit⟩
  · rintro ⟨⟨values, hvalues, hn⟩, hlimit⟩
    exact ⟨values, hvalues, hn, hlimit⟩

/-- What is no digit does not occur among digits. -/
theorem Denotes.notMem (hbase : base ≤ 36) {digits : List Char} {n : Nat}
    (h : Denotes base digits n) {c : Char} (hc : digit? base c = none) : c ∉ digits := by
  obtain ⟨-, values, hvalues, -⟩ := h
  have hne : List.Forall₂ (fun x d ↦ x ≠ c ∧ IsDigit base x d) digits values := by
    refine hvalues.imp fun x d hd ↦ ⟨?_, hd⟩
    rintro rfl
    rw [(digit?_eq_some_iff hbase).2 hd] at hc
    cases hc
  exact fun hmem ↦ (List.forall₂_and_left _ _).1 hne |>.1 c hmem rfl

theorem parse_plus_eq_ok_iff (hbase : base ≤ 36) {digits : List Char} {n : Nat} :
    parse base limit ('+' :: digits) = .ok n ↔ Denotes base digits n ∧ n ≤ limit := by
  cases digits with
  | nil => exact iff_of_false nofun fun h ↦ h.1.1 rfl
  | cons c digits => exact readDigits_zero_eq_ok_iff hbase (List.cons_ne_nil c digits)

theorem parse_cons_eq_ok_iff (hbase : base ≤ 36) {c : Char} (hc : c ≠ '+') {digits : List Char}
    {n : Nat} :
    parse base limit (c :: digits) = .ok n ↔ Denotes base (c :: digits) n ∧ n ≤ limit := by
  have hparse : parse base limit (c :: digits) = readDigits base limit 0 (c :: digits) := by
    rw [parse.eq_def]
    split <;> simp_all
  rw [hparse]
  exact readDigits_zero_eq_ok_iff hbase (List.cons_ne_nil c digits)

/-- What may stand before the digits of a numeral: nothing, or a plus sign. -/
def signs : List (List Char) := [[], ['+']]

/-- **A numeral is a plus sign or none, and digits**, of a number that is within the limit. -/
theorem parse_eq_ok_iff (hbase : base ≤ 36) {text : List Char} {n : Nat} :
    parse base limit text = .ok n ↔
      ∃ sign ∈ signs, ∃ digits, text = sign ++ digits ∧ Denotes base digits n ∧ n ≤ limit := by
  have hsigns {sign : List Char} : sign ∈ signs ↔ sign = [] ∨ sign = ['+'] := by simp [signs]
  cases text with
  | nil =>
    refine iff_of_false nofun ?_
    rintro ⟨sign, -, digits, htext, hdigits, -⟩
    exact hdigits.1 (List.append_eq_nil_iff.1 htext.symm).2
  | cons c cs =>
    by_cases hc : c = '+'
    · obtain rfl := hc
      rw [parse_plus_eq_ok_iff hbase]
      refine ⟨fun h ↦ ⟨['+'], hsigns.2 (.inr rfl), cs, rfl, h⟩, ?_⟩
      rintro ⟨sign, hsign, digits, htext, hdigits⟩
      obtain rfl | rfl := hsigns.1 hsign
      · obtain rfl : '+' :: cs = digits := htext
        exact absurd List.mem_cons_self (hdigits.1.notMem hbase rfl)
      · obtain rfl := (List.cons.inj htext).2
        exact hdigits
    · rw [parse_cons_eq_ok_iff hbase hc]
      refine ⟨fun h ↦ ⟨[], hsigns.2 (.inl rfl), c :: cs, rfl, h⟩, ?_⟩
      rintro ⟨sign, hsign, digits, htext, hdigits⟩
      obtain rfl | rfl := hsigns.1 hsign
      · obtain rfl : c :: cs = digits := htext
        exact hdigits
      · exact absurd (List.cons.inj htext).1 hc

/-! ### Digits that have been written out -/

/-- What is written in hexadecimal denotes its number, in capital letters or small ones. -/
theorem denotes_digits {style : Char → Char}
    (hstyle : ∀ d < 16, IsDigit 16 (style (Hex.digit d)) d) {width n : Nat} (hwidth : 0 < width)
    (hn : n < 16 ^ width) : Denotes 16 ((Hex.digits width n).map style) n := by
  have hvalues (width n : Nat) : ∃ values,
      List.Forall₂ (IsDigit 16) ((Hex.digits width n).map style) values ∧
        Nat.ofDigits 16 values.reverse = n % 16 ^ width := by
    induction width generalizing n with
    | zero => exact ⟨[], .nil, (Nat.mod_one n).symm⟩
    | succ width ih =>
      obtain ⟨values, hvalues, hnumber⟩ := ih (n / 16)
      refine ⟨values ++ [n % 16], ?_, ?_⟩
      · rw [Hex.digits, List.map_append, List.map_singleton]
        exact List.rel_append hvalues (.cons (hstyle _ (Nat.mod_lt n (by decide))) .nil)
      · rw [List.reverse_concat, Nat.ofDigits_cons, hnumber, Nat.pow_succ', Nat.mod_mul]
  obtain ⟨values, hvalues, hnumber⟩ := hvalues width n
  refine ⟨?_, values, hvalues, hnumber.trans (Nat.mod_eq_of_lt hn)⟩
  rw [← List.length_pos_iff, List.length_map, Hex.length_digits]
  exact hwidth

end Numeral

/-! ## Addresses -/

namespace Address

/-- What may stand before an address: nothing, or a mark that says that it is in hexadecimal. -/
def marks : List (List Char) := [[], ['0', 'x'], ['0', 'X'], ['$']]

/-- The text is written as an address of that number: a mark or none, a plus sign or none, and
digits of either case. -/
def Writes (text : String) (n : Nat) : Prop :=
  ∃ mark ∈ marks, ∃ sign ∈ Numeral.signs, ∃ digits,
    text.toList = mark ++ (sign ++ digits) ∧ Numeral.Denotes 16 digits n

theorem exists_mark_append_stripMark (text : List Char) :
    ∃ mark ∈ marks, text = mark ++ stripMark text := by
  rw [stripMark.eq_def]
  split
  next cs => exact ⟨['0', 'x'], by decide, rfl⟩
  next cs => exact ⟨['0', 'X'], by decide, rfl⟩
  next cs => exact ⟨['$'], by decide, rfl⟩
  next => exact ⟨[], by decide, rfl⟩

theorem stripMark_of_forall_ne {text : List Char} (h : ∀ c ∈ text, c ∉ ['x', 'X', '$']) :
    stripMark text = text := by
  rw [stripMark.eq_def]
  split
  next cs => exact absurd (h 'x' (by simp)) (by decide)
  next cs => exact absurd (h 'X' (by simp)) (by decide)
  next cs => exact absurd (h '$' (by simp)) (by decide)
  next => rfl

/-- What is written behind a mark is left when the mark is taken away. -/
theorem stripMark_append {mark text : List Char} (hmark : mark ∈ marks)
    (h : ∀ c ∈ text, c ∉ ['x', 'X', '$']) : stripMark (mark ++ text) = text := by
  simp only [marks, List.mem_cons, List.not_mem_nil, or_false] at hmark
  rcases hmark with rfl | rfl | rfl | rfl
  · exact stripMark_of_forall_ne h
  · rfl
  · rfl
  · rfl

/-- No number that is read as an address is too large for one. -/
theorem map_toNat_parse (text : String) :
    (parse text).map UInt16.toNat = Numeral.parse 16 0xFFFF (stripMark text.toList) := by
  rw [parse]
  cases hread : Numeral.parse 16 0xFFFF (stripMark text.toList) with
  | error fault => rfl
  | ok n =>
    obtain ⟨-, -, -, -, -, hn⟩ := (Numeral.parse_eq_ok_iff (by decide)).1 hread
    exact congrArg Except.ok (UInt16.toNat_ofNat_of_lt (Nat.lt_succ_of_le hn))

theorem parse_eq_ok {text : String} {a : UInt16}
    (h : (parse text).map UInt16.toNat = .ok a.toNat) : parse text = .ok a := by
  cases hparse : parse text with
  | error fault =>
    rw [hparse] at h
    cases h
  | ok b =>
    rw [hparse] at h
    exact congrArg Except.ok (UInt16.toNat_inj.1 (Except.ok.inj h))

/-- No sign and no digit is taken for the second half of a mark. -/
theorem forall_notMem_of_denotes {sign digits : List Char} {n : Nat}
    (hsign : sign ∈ Numeral.signs) (hdigits : Numeral.Denotes 16 digits n) :
    ∀ c ∈ sign ++ digits, c ∉ ['x', 'X', '$'] := by
  have hsigns : ∀ sign ∈ Numeral.signs, ∀ c ∈ sign, c ∉ ['x', 'X', '$'] := by
    simp [Numeral.signs]
  have hnone : ∀ c ∈ ['x', 'X', '$'], Numeral.digit? 16 c = none :=
    List.forall_mem_cons.2 ⟨rfl, List.forall_mem_cons.2 ⟨rfl, List.forall_mem_singleton.2 rfl⟩⟩
  intro c hc hmark
  rcases List.mem_append.1 hc with hc | hc
  · exact hsigns sign hsign c hc hmark
  · exact hdigits.notMem (by decide) (hnone c hmark) hc

theorem parse_eq_ok_iff (text : String) (n : Nat) :
    (parse text).map UInt16.toNat = .ok n ↔ Writes text n ∧ n ≤ 0xFFFF := by
  rw [map_toNat_parse, Numeral.parse_eq_ok_iff (by decide)]
  constructor
  · rintro ⟨sign, hsign, digits, htext, hdigits, hn⟩
    obtain ⟨mark, hmark, hmarked⟩ := exists_mark_append_stripMark text.toList
    rw [htext] at hmarked
    exact ⟨⟨mark, hmark, sign, hsign, digits, hmarked, hdigits⟩, hn⟩
  · rintro ⟨⟨mark, hmark, sign, hsign, digits, htext, hdigits⟩, hn⟩
    refine ⟨sign, hsign, digits, ?_, hdigits, hn⟩
    rw [htext, stripMark_append hmark (forall_notMem_of_denotes hsign hdigits)]

/-- **A text is read as an address exactly if it is written as one**: a mark or none, a plus sign or
none, and one or more hexadecimal digits of a number below `0x10000`.  So an address is read back
from its digits behind any mark, in capital letters or small ones and with any number of zeros in
front. -/
theorem parses_iff_writes :
    (∀ text n, (parse text).map UInt16.toNat = .ok n ↔ Writes text n ∧ n ≤ 0xFFFF) ∧
      ∀ (a : UInt16), ∀ mark ∈ marks, ∀ width > 0, a.toNat < 16 ^ width →
        let digits := Hex.digits width a.toNat
        parse (String.ofList (mark ++ digits)) = .ok a ∧
          parse (String.ofList (mark ++ digits.map Char.toLower)) = .ok a := by
  refine ⟨parse_eq_ok_iff, ?_⟩
  intro a mark hmark width hwidth ha digits
  have hread {digits : List Char} (h : Numeral.Denotes 16 digits a.toNat) :
      parse (String.ofList (mark ++ digits)) = .ok a := by
    refine parse_eq_ok ((parse_eq_ok_iff _ _).2 ⟨?_, Nat.le_of_lt_succ a.toNat_lt⟩)
    exact ⟨mark, hmark, [], by decide, digits, String.toList_ofList, h⟩
  have hupper : Numeral.Denotes 16 (digits.map id) a.toNat :=
    Numeral.denotes_digits (fun d hd ↦ ⟨hd, .inl rfl⟩) hwidth ha
  have hlower : Numeral.Denotes 16 (digits.map Char.toLower) a.toNat :=
    Numeral.denotes_digits (fun d hd ↦ ⟨hd, .inr rfl⟩) hwidth ha
  rw [List.map_id] at hupper
  exact ⟨hread hupper, hread hlower⟩

/-- The largest address in small letters behind seven zeros, and the number after it, for which
there is no room. -/
theorem parses_iff_writes_last :
    (['0', 'X'] ∈ marks ∧ 11 > 0 ∧ (0xFFFF : UInt16).toNat < 16 ^ 11) ∧
      parse "0X0000000ffff" = .ok 0xFFFF ∧ parse "0X00000010000" = .error .tooLarge := by
  have hmark : ['0', 'X'] ∈ marks := by decide
  have hwidth : (0xFFFF : UInt16).toNat < 16 ^ 11 := by decide
  refine ⟨⟨hmark, by decide, hwidth⟩, ?_, by decide⟩
  exact (parses_iff_writes.2 0xFFFF ['0', 'X'] hmark 11 (by decide) hwidth).2

end Address
end Handheld
