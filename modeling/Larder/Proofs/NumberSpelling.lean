import Larder.Json.Reread
import Larder.Proofs.ScaledDecimal

/-!
# What the texts of numbers are read as

The reader takes a number one character at a time (`NumberPhase.after`). A run of digits makes a
longer numeral, whichever phase takes it, as long as 64 bits hold it; so the numeral of a text is
known from the runs of digits it is made of. Integers are read back from their text
(`Integer.reread_eq`). So are floating point numbers of few digits and moderate size, since the
decimal they are written by is one that scaling rounds once (`Binary64.Finite.reread_of_short`), but
not all floating point numbers (`Number.reread_fullOnes`).
-/

namespace Larder

open Json

/-! ## Digits -/

theorem toDigits_eq_cons {n : Nat} (hn : n ≠ 0) :
    ∃ c rest, Nat.toDigits 10 n = c :: rest ∧ c ≠ '0' := by
  induction n using Nat.strongRecOn with
  | ind n ih =>
    rw [Nat.toDigits_eq_if (by decide)]
    by_cases hlt : n < 10
    · rw [if_pos hlt]
      refine ⟨_, [], rfl, ?_⟩
      interval_cases n <;> first | exact absurd rfl hn | decide
    · rw [if_neg hlt]
      obtain ⟨c, rest, h, hc⟩ := ih (n / 10) (by omega) (by omega)
      exact ⟨c, rest ++ [(n % 10).digitChar], by rw [h]; rfl, hc⟩

theorem isDigit_of_mem_toDigits {n : Nat} : ∀ c ∈ Nat.toDigits 10 n, c.isDigit = true :=
  fun _ hc => Nat.isDigit_of_mem_toDigits (by decide) (by decide) hc

/-- A number made of digits is at least the number that was there before them. -/
theorem le_ofDigitChars (ds : List Char) (n : Nat) : n ≤ Nat.ofDigitChars 10 ds n := by
  induction ds generalizing n with
  | nil => exact Nat.le_refl n
  | cons d ds ih =>
      rw [Nat.ofDigitChars_cons]
      exact Nat.le_trans (by omega) (ih _)

namespace Json.NumberPhase

/-! ## Reading many characters -/

theorem after_cons {p q : NumberPhase} {c : Char} (h : p.next? c = some (.ok q)) (cs : List Char) :
    p.after (c :: cs) = q.after cs := by
  rw [after, h]

theorem after_append {p q : NumberPhase} {cs : List Char} (h : p.after cs = some q)
    (ds : List Char) : p.after (cs ++ ds) = q.after ds := by
  induction cs generalizing p with
  | nil =>
      cases h
      rfl
  | cons c cs ih =>
      rw [after] at h
      split at h
      · rename_i p' hp
        rw [List.cons_append, after_cons hp]
        exact ih h
      · cases h

/-! ### Runs of digits -/

theorem whole_digit {d : Char} (hd : d.isDigit = true) (n : Numeral) :
    (whole n).next? d = some (.ok (whole (n.digit d))) := by
  rw [next?, if_pos hd]

theorem point_digit {d : Char} (hd : d.isDigit = true) (n : Numeral) :
    (point n).next? d = some (.ok (fraction (n.place d))) := by
  rw [next?, if_pos hd]

theorem fraction_digit {d : Char} (hd : d.isDigit = true) (n : Numeral) :
    (fraction n).next? d = some (.ok (fraction (n.place d))) := by
  rw [next?, if_pos hd]

variable {negative : Bool} {s : Nat} {e : Int}

/-- A digit that 64 bits hold with those before it is not left out. -/
theorem append?_of_le {c : Char} (h : 10 * s + digitValue c ≤ significandLimit) :
    Numeral.append? ⟨negative, s, e, false⟩ c = some (10 * s + digitValue c) := by
  rw [Numeral.append?, Bool.false_or, if_neg (by simpa using h)]

theorem after_whole {ds : List Char} (hds : ∀ d ∈ ds, d.isDigit = true)
    (hfits : Nat.ofDigitChars 10 ds s ≤ significandLimit) :
    (whole ⟨negative, s, e, false⟩).after ds =
      some (whole ⟨negative, Nat.ofDigitChars 10 ds s, e, false⟩) := by
  induction ds generalizing s with
  | nil => rfl
  | cons d ds ih =>
      obtain ⟨hd, hds⟩ := List.forall_mem_cons.mp hds
      rw [Nat.ofDigitChars_cons] at hfits ⊢
      have hdigit : 10 * s + digitValue d ≤ significandLimit := (le_ofDigitChars ds _).trans hfits
      rw [after_cons (whole_digit hd _), Numeral.digit, append?_of_le hdigit]
      exact ih hds hfits

theorem after_fraction {ds : List Char} (hds : ∀ d ∈ ds, d.isDigit = true)
    (hfits : Nat.ofDigitChars 10 ds s ≤ significandLimit) :
    (fraction ⟨negative, s, e, false⟩).after ds =
      some (fraction ⟨negative, Nat.ofDigitChars 10 ds s, e - ds.length, false⟩) := by
  induction ds generalizing s e with
  | nil => simp [after]
  | cons d ds ih =>
      obtain ⟨hd, hds⟩ := List.forall_mem_cons.mp hds
      rw [Nat.ofDigitChars_cons] at hfits ⊢
      have hdigit : 10 * s + digitValue d ≤ significandLimit := (le_ofDigitChars ds _).trans hfits
      have hlength : e - (d :: ds).length = e - 1 - ds.length := by
        rw [List.length_cons]
        omega
      rw [after_cons (fraction_digit hd _), Numeral.place, append?_of_le hdigit, hlength]
      exact ih hds hfits

/-- The digits after a point, of which there is at least one. -/
theorem after_point {ds : List Char} (hds : ∀ d ∈ ds, d.isDigit = true) (hne : ds ≠ [])
    (hfits : Nat.ofDigitChars 10 ds s ≤ significandLimit) :
    (point ⟨negative, s, e, false⟩).after ds =
      some (fraction ⟨negative, Nat.ofDigitChars 10 ds s, e - ds.length, false⟩) := by
  cases ds with
  | nil => exact absurd rfl hne
  | cons d ds =>
      obtain ⟨hd, -⟩ := List.forall_mem_cons.mp hds
      rw [← after_fraction hds hfits, after_cons (point_digit hd _),
        after_cons (fraction_digit hd _)]

theorem after_exponent {ds : List Char} (hds : ∀ d ∈ ds, d.isDigit = true) (n : Numeral)
    (down : Bool) {e : Nat} (hlimit : Nat.ofDigitChars 10 ds e ≤ exponentLimit) :
    (exponent n down e).after ds = some (exponent n down (Nat.ofDigitChars 10 ds e)) := by
  induction ds generalizing e with
  | nil => rfl
  | cons d ds ih =>
      obtain ⟨hd, hds⟩ := List.forall_mem_cons.mp hds
      rw [Nat.ofDigitChars_cons] at hlimit ⊢
      have hle : 10 * e + digitValue d ≤ exponentLimit := (le_ofDigitChars ds _).trans hlimit
      have hnext : (exponent n down e).next? d =
          some (.ok (exponent n down (10 * e + digitValue d))) := by
        rw [next?, if_pos hd, exponentDigit, if_pos hle]
      rw [after_cons hnext]
      exact ih hds hlimit

/-- The digits after the sign of an exponent, of which there is at least one. -/
theorem after_sign {ds : List Char} (hds : ∀ d ∈ ds, d.isDigit = true) (hne : ds ≠ [])
    (n : Numeral) (down : Bool) (hlimit : Nat.ofDigitChars 10 ds 0 ≤ exponentLimit) :
    (sign n down).after ds = some (exponent n down (Nat.ofDigitChars 10 ds 0)) := by
  cases ds with
  | nil => exact absurd rfl hne
  | cons d ds =>
      obtain ⟨hd, -⟩ := List.forall_mem_cons.mp hds
      have hnext : (sign n down).next? d = (exponent n down 0).next? d := by
        rw [next?, next?, if_pos hd, if_pos hd]
      rw [← after_exponent hds n down hlimit, after, after, hnext]

/-! ### The first character -/

/-- The sign of a number, if it is negative. -/
def signChars (negative : Bool) : List Char := if negative then ['-'] else []

theorem read_zero (negative : Bool) (cs : List Char) :
    read (signChars negative ++ '0' :: cs) = (zero negative).after cs := by
  cases negative <;> rfl

theorem start?_digit {c : Char} (hc : c.isDigit = true) (hne : c ≠ '0') :
    start? c = some (whole ((Numeral.empty false).digit c)) := by
  have hminus : c ≠ '-' := by
    rintro rfl
    cases hc
  rw [start?, if_neg hminus, if_neg hne, if_pos hc]

theorem minus_digit {c : Char} (hc : c.isDigit = true) (hne : c ≠ '0') :
    minus.next? c = some (.ok (whole ((Numeral.empty true).digit c))) := by
  rw [next?, if_neg hne, if_pos hc]

/-- A number that begins with digits, the first of which is not zero. -/
theorem read_digits {c : Char} {ds : List Char} (hc : c ≠ '0')
    (hds : ∀ d ∈ c :: ds, d.isDigit = true)
    (hfits : Nat.ofDigitChars 10 (c :: ds) 0 ≤ significandLimit) (negative : Bool)
    (cs : List Char) :
    read (signChars negative ++ (c :: ds ++ cs)) =
      (whole ⟨negative, Nat.ofDigitChars 10 (c :: ds) 0, 0, false⟩).after cs := by
  have hwhole : (whole ⟨negative, 0, 0, false⟩).after (c :: ds) =
      some (whole ⟨negative, Nat.ofDigitChars 10 (c :: ds) 0, 0, false⟩) := after_whole hds hfits
  have hrun := after_append hwhole cs
  have hdigit := (List.forall_mem_cons.mp hds).1
  rw [← hrun, List.cons_append, after_cons (whole_digit hdigit _)]
  cases negative with
  | false =>
      show (start? c).bind _ = _
      rw [start?_digit hdigit hc]
      rfl
  | true =>
      show minus.after (c :: (ds ++ cs)) = _
      rw [after_cons (minus_digit hdigit hc)]
      rfl

theorem read_append {p : NumberPhase} {cs : List Char} (h : read cs = some p) (ds : List Char) :
    read (cs ++ ds) = p.after ds := by
  cases cs with
  | nil => cases h
  | cons c cs =>
      rw [read, Option.bind_eq_some_iff] at h
      obtain ⟨q, hstart, h⟩ := h
      rw [List.cons_append, read, hstart]
      exact after_append h ds

/-- Zero and a point, and the digits after it. -/
theorem read_belowOne {fs : List Char} (hfs : ∀ d ∈ fs, d.isDigit = true) (hne : fs ≠ [])
    (hfits : Nat.ofDigitChars 10 fs 0 ≤ significandLimit) (negative : Bool) :
    read (signChars negative ++ '0' :: '.' :: fs) =
      some (fraction ⟨negative, Nat.ofDigitChars 10 fs 0, 0 - fs.length, false⟩) := by
  rw [read_zero, after_cons (q := .point ⟨negative, 0, 0, false⟩) rfl, after_point hfs hne hfits]

/-- Digits, the first of which is not zero, a point, and the digits after it. -/
theorem read_pointed {c : Char} {ds fs : List Char} (hc : c ≠ '0')
    (hds : ∀ d ∈ c :: ds ++ fs, d.isDigit = true) (hne : fs ≠ [])
    (hfits : Nat.ofDigitChars 10 (c :: ds ++ fs) 0 ≤ significandLimit) (negative : Bool) :
    read (signChars negative ++ (c :: ds ++ '.' :: fs)) =
      some (fraction ⟨negative, Nat.ofDigitChars 10 (c :: ds ++ fs) 0, 0 - fs.length, false⟩) := by
  obtain ⟨hds, hfs⟩ := List.forall_mem_append.mp hds
  rw [Nat.ofDigitChars_append] at hfits ⊢
  have hwhole : Nat.ofDigitChars 10 (c :: ds) 0 ≤ significandLimit :=
    (le_ofDigitChars fs _).trans hfits
  rw [read_digits hc hds hwhole,
    after_cons (q := .point ⟨negative, Nat.ofDigitChars 10 (c :: ds) 0, 0, false⟩) rfl,
    after_point hfs hne hfits]

/-! ## What has been read -/

/-- The number is complete when one of the characters comes that may follow a value. -/
def Complete (p : NumberPhase) (n : Number) : Prop :=
  p.finish = .ok n ∧ ∀ c ∈ [',', ']', '}'], p.next? c = none

/-- Where a number may end it ends before those characters. -/
theorem complete_of_finish {p : NumberPhase} {n : Number} (h : p.finish = .ok n) :
    p.Complete n := by
  refine ⟨h, ?_⟩
  simp only [List.forall_mem_cons]
  cases p with
  | minus | point | mark | sign => cases h
  | _ => exact ⟨rfl, rfl, rfl, nofun⟩

theorem toFloat?_of_some {n : Numeral} {e : Int} {x : Binary64.Finite}
    (h : Binary64.Finite.ofScaled n.negative ⟨n.significand, n.exponent + e⟩ = some x) :
    n.toFloat? e = .ok (.float x) := by
  rw [Numeral.toFloat?, h]

end Json.NumberPhase

open Json NumberPhase

theorem Number.reread_eq_some {n m : Number} :
    n.reread = some m ↔ ∃ p, NumberPhase.read n.chars = some p ∧ p.finish = .ok m := by
  rw [Number.reread, Option.bind_eq_some_iff]
  refine exists_congr fun p => and_congr_right fun _ => ?_
  cases p.finish with
  | ok v => exact ⟨fun h => congrArg _ (Option.some.inj h), fun h => by cases h; rfl⟩
  | error _ => exact ⟨nofun, nofun⟩

/-! ## Integers -/

theorem Integer.ofInt?_value (n : Integer) : Integer.ofInt? n.value = some n := dif_pos n.inRange

/-- **An integer is read back from its text.** -/
theorem Integer.reread_eq (n : Integer) : (Number.integer n).reread = some (.integer n) := by
  refine Number.reread_eq_some.mpr ?_
  have hchars : (Number.integer n).chars =
      signChars (decide (n.value < 0)) ++ Nat.toDigits 10 n.value.natAbs := by
    unfold Number.chars Integer.chars signChars
    simp only [decide_eq_true_eq]
  rw [hchars]
  by_cases hn : n.value.natAbs = 0
  · -- zero is read in a phase of its own
    have hvalue : n.value = 0 := Int.natAbs_eq_zero.mp hn
    have hzero : n = ⟨0, by decide⟩ := by
      cases n
      cases hvalue
      rfl
    subst hzero
    exact ⟨.zero false, rfl, rfl⟩
  · obtain ⟨c, rest, hdigits, hc⟩ := toDigits_eq_cons hn
    have hvalue : Nat.ofDigitChars 10 (c :: rest) 0 = n.value.natAbs := by
      rw [← hdigits, Nat.ofDigitChars_ten_toDigits]
    have hfits : Nat.ofDigitChars 10 (c :: rest) 0 ≤ significandLimit := by
      have hrange := n.inRange
      unfold significandLimit
      omega
    have hread := read_digits hc (hdigits ▸ isDigit_of_mem_toDigits) hfits (decide (n.value < 0)) []
    rw [List.append_nil, hvalue] at hread
    rw [hdigits, hread]
    refine ⟨_, rfl, ?_⟩
    have hsign : (if decide (n.value < 0) then -(n.value.natAbs : Int) else n.value.natAbs) =
        n.value := by
      simp only [decide_eq_true_eq]
      split <;> omega
    rw [finish, Numeral.toNumber?]
    dsimp only
    rw [hsign, n.ofInt?_value, beq_false_of_ne hn, Bool.and_false]
    rfl

/-! ## Floating point numbers -/

namespace Decimal

theorem digits_eq_cons {d : Decimal} (hd : d.significand ≠ 0) :
    ∃ c rest, d.digits = c :: rest ∧ c ≠ '0' ∧ (∀ d' ∈ c :: rest, d'.isDigit = true) ∧
      Nat.ofDigitChars 10 (c :: rest) 0 = d.significand := by
  obtain ⟨c, rest, h, hc⟩ := toDigits_eq_cons hd
  refine ⟨c, rest, h, hc, h ▸ isDigit_of_mem_toDigits, ?_⟩
  rw [← h, Nat.ofDigitChars_ten_toDigits]

theorem isDigit_replicate_zero {k : Nat} : ∀ d ∈ List.replicate k '0', d.isDigit = true := by
  intro d hd
  rw [List.eq_of_mem_replicate hd]
  rfl

/-- A number of so many digits is less than the power of ten that has one more. -/
theorem significand_lt {d : Decimal} {k : Nat} (h : d.digits.length ≤ k) :
    d.significand < 10 ^ k := by
  have hpos : 0 < d.digits.length := Nat.length_toDigits_pos
  exact (Nat.length_toDigits_le_iff (by decide) (by omega)).mp h

/-- Below one, zeros stand between the point and the digits. -/
theorem read_plain_below {d : Decimal} (hd : d.significand ≠ 0)
    (hfits : d.significand ≤ significandLimit) (hmagnitude : d.magnitude < 0) (negative : Bool) :
    NumberPhase.read (signChars negative ++ plain d.digits d.magnitude) =
      some (.fraction ⟨negative, d.significand, d.exponent, false⟩) := by
  have hlast : d.magnitude = d.exponent + d.digits.length - 1 := rfl
  obtain ⟨c, rest, hcons, -, hall, hvalue⟩ := digits_eq_cons hd
  rw [hcons] at hlast ⊢
  unfold plain
  rw [if_pos hmagnitude]
  generalize hz : (-d.magnitude - 1).toNat = z
  have hfraction : ∀ d' ∈ List.replicate z '0' ++ c :: rest, d'.isDigit = true :=
    List.forall_mem_append.mpr ⟨isDigit_replicate_zero, hall⟩
  have hsame : Nat.ofDigitChars 10 (List.replicate z '0' ++ c :: rest) 0 = d.significand := by
    rw [Nat.ofDigitChars_append, Nat.ofDigitChars_replicate_zero, Nat.mul_zero, hvalue]
  have hplaces : (0 : Int) - (List.replicate z '0' ++ c :: rest).length = d.exponent := by
    rw [List.length_append, List.length_replicate]
    omega
  rw [List.cons_append, List.cons_append, read_belowOne hfraction (by simp) (hsame ▸ hfits), hsame,
    hplaces]

/-- Where the point comes after all digits, zeros stand between the two, and one after the point. -/
theorem read_plain_whole {d : Decimal} (hd : d.significand ≠ 0)
    (hfits : d.significand * 10 ^ (d.exponent.toNat + 1) ≤ significandLimit)
    (hexponent : 0 ≤ d.exponent) (negative : Bool) :
    NumberPhase.read (signChars negative ++ plain d.digits d.magnitude) =
      some (.fraction ⟨negative, d.significand * 10 ^ (d.exponent.toNat + 1), -1, false⟩) := by
  have hlast : d.magnitude = d.exponent + d.digits.length - 1 := rfl
  obtain ⟨c, rest, hcons, hc, hall, hvalue⟩ := digits_eq_cons hd
  rw [hcons, List.length_cons] at hlast
  rw [hcons]
  unfold plain
  have hneg : ¬d.magnitude < 0 := by omega
  have hlength : (c :: rest).length ≤ d.magnitude.toNat + 1 := by
    rw [List.length_cons]
    omega
  have hzeros : d.magnitude.toNat + 1 - (c :: rest).length = d.exponent.toNat := by
    rw [List.length_cons]
    omega
  rw [if_neg hneg]
  dsimp only
  rw [if_pos hlength, hzeros]
  generalize d.exponent.toNat = z at hfits
  have happend : c :: (rest ++ List.replicate z '0') ++ ['0'] =
      c :: rest ++ List.replicate (z + 1) '0' := by
    rw [List.replicate_succ', ← List.append_assoc]
    rfl
  have hdigit : ∀ d' ∈ c :: (rest ++ List.replicate z '0') ++ ['0'], d'.isDigit = true := by
    rw [happend]
    exact List.forall_mem_append.mpr ⟨hall, isDigit_replicate_zero⟩
  have hmore : Nat.ofDigitChars 10 (c :: (rest ++ List.replicate z '0') ++ ['0']) 0 =
      d.significand * 10 ^ (z + 1) := by
    rw [happend, Nat.ofDigitChars_append, hvalue, Nat.ofDigitChars_replicate_zero, Nat.mul_comm]
  rw [List.cons_append, read_pointed hc hdigit (List.cons_ne_nil _ _) (hmore ▸ hfits), hmore]
  rfl

/-- Otherwise the point stands among the digits. -/
theorem read_plain_among {d : Decimal} (hd : d.significand ≠ 0)
    (hfits : d.significand ≤ significandLimit) (hmagnitude : 0 ≤ d.magnitude)
    (hexponent : d.exponent < 0) (negative : Bool) :
    NumberPhase.read (signChars negative ++ plain d.digits d.magnitude) =
      some (.fraction ⟨negative, d.significand, d.exponent, false⟩) := by
  have hlast : d.magnitude = d.exponent + d.digits.length - 1 := rfl
  obtain ⟨c, rest, hcons, hc, hall, hvalue⟩ := digits_eq_cons hd
  rw [hcons, List.length_cons] at hlast
  rw [hcons]
  unfold plain
  have hlength : ¬(c :: rest).length ≤ d.magnitude.toNat + 1 := by
    rw [List.length_cons]
    omega
  rw [if_neg (Int.not_lt.mpr hmagnitude)]
  dsimp only
  rw [if_neg hlength, List.take_succ_cons, List.drop_succ_cons]
  generalize hm : d.magnitude.toNat = m
  have hrest : c :: rest.take m ++ rest.drop m = c :: rest := by
    rw [List.cons_append, List.take_append_drop]
  have hdrop : rest.drop m ≠ [] := by
    rw [Ne, List.drop_eq_nil_iff]
    omega
  have hplaces : (0 : Int) - (rest.drop m).length = d.exponent := by
    rw [List.length_drop]
    omega
  rw [read_pointed hc (hrest ▸ hall) hdrop (hrest ▸ hvalue ▸ hfits), hrest, hvalue, hplaces]

/-- Plain notation is read as the decimal, maybe with more zeros at the end, if the digits up to the
last place before the point, and one after it, are not too many. -/
theorem read_plain {d : Decimal} (hd : d.significand ≠ 0) (hdigits : d.digits.length ≤ 15)
    (hmagnitude : d.magnitude < 14) (negative : Bool) :
    ∃ k : Nat, NumberPhase.read (signChars negative ++ plain d.digits d.magnitude) =
        some (.fraction ⟨negative, d.significand * 10 ^ k, d.exponent - k, false⟩) ∧
      d.significand * 10 ^ k < 10 ^ 15 ∧ (k = 0 ∨ d.exponent - k = -1) := by
  have hsignificand := significand_lt hdigits
  have hlimit : ∀ {s : Nat}, s < 10 ^ 15 → s ≤ significandLimit := fun h => by
    unfold significandLimit
    omega
  by_cases hexponent : 0 ≤ d.exponent
  · have hlast : d.magnitude = d.exponent + d.digits.length - 1 := rfl
    have hbound : d.significand * 10 ^ (d.exponent.toNat + 1) < 10 ^ 15 := by
      calc d.significand * 10 ^ (d.exponent.toNat + 1)
          < 10 ^ d.digits.length * 10 ^ (d.exponent.toNat + 1) :=
            Nat.mul_lt_mul_of_pos_right (significand_lt (Nat.le_refl _)) (Nat.pow_pos (by decide))
        _ = 10 ^ (d.digits.length + (d.exponent.toNat + 1)) := (Nat.pow_add _ _ _).symm
        _ ≤ 10 ^ 15 := Nat.pow_le_pow_right (by decide) (by omega)
    have hplace : d.exponent - ((d.exponent.toNat + 1 : Nat) : Int) = -1 := by omega
    refine ⟨_, ?_, hbound, Or.inr hplace⟩
    rw [read_plain_whole hd (hlimit hbound) hexponent, hplace]
  · have hread : NumberPhase.read (signChars negative ++ plain d.digits d.magnitude) =
        some (.fraction ⟨negative, d.significand, d.exponent, false⟩) := by
      by_cases hbelow : d.magnitude < 0
      · exact read_plain_below hd (hlimit hsignificand) hbelow negative
      · exact read_plain_among hd (hlimit hsignificand) (Int.not_lt.mp hbelow)
          (Int.not_le.mp hexponent) negative
    refine ⟨0, ?_, by simpa using hsignificand, Or.inl rfl⟩
    simpa using hread

/-- Scientific notation is read as the decimal, if 64 bits hold its digits. -/
theorem read_scientific {d : Decimal} (hd : d.significand ≠ 0)
    (hfits : d.significand ≤ significandLimit) (hmagnitude : d.magnitude.natAbs ≤ exponentLimit)
    (negative : Bool) :
    ∃ (places : Int) (down : Bool) (e : Nat),
      NumberPhase.read (signChars negative ++ scientific d.digits d.magnitude) =
        some (.exponent ⟨negative, d.significand, places, false⟩ down e) ∧
      places + (if down then -(e : Int) else e) = d.exponent := by
  obtain ⟨c, rest, hdigits, hc, hall, hvalue⟩ := digits_eq_cons hd
  have hlast : d.magnitude = d.exponent + d.digits.length - 1 := rfl
  rw [hdigits, List.length_cons] at hlast
  -- the digits, with a point if there is more than one, up to the mark
  have hmark : ∀ cs, NumberPhase.read (signChars negative ++
      ([c] ++ (if rest.isEmpty then [] else '.' :: rest) ++ 'e' :: cs)) =
        (NumberPhase.mark ⟨negative, d.significand, 0 - rest.length, false⟩).after cs := by
    intro cs
    cases rest with
    | nil =>
        rw [List.append_assoc, read_digits hc hall (hvalue ▸ hfits), hvalue]
        rfl
    | cons c' rest =>
        have hpoint : NumberPhase.read (signChars negative ++ ([c] ++ '.' :: c' :: rest)) =
            some (.fraction ⟨negative, d.significand, 0 - (c' :: rest).length, false⟩) :=
          hvalue ▸ read_pointed hc hall (List.cons_ne_nil c' rest) (hvalue ▸ hfits) negative
        rw [← List.append_assoc]
        exact read_append hpoint ('e' :: cs)
  have hexponent : Nat.ofDigitChars 10 (Nat.toDigits 10 d.magnitude.natAbs) 0 =
      d.magnitude.natAbs := Nat.ofDigitChars_ten_toDigits
  refine ⟨0 - rest.length, decide (d.magnitude < 0), d.magnitude.natAbs, ?_, ?_⟩
  · unfold scientific
    rw [hdigits]
    show NumberPhase.read (signChars negative ++
      ([c] ++ (if rest.isEmpty then [] else '.' :: rest) ++ 'e' :: _)) = _
    rw [hmark, after_cons (q := .sign ⟨negative, d.significand, 0 - rest.length, false⟩
        (decide (d.magnitude < 0))) (by split <;> simp_all [NumberPhase.next?]),
      after_sign isDigit_of_mem_toDigits Nat.toDigits_ne_nil _ _ (by rwa [hexponent]), hexponent]
  · simp only [decide_eq_true_eq]
    split <;> omega

end Decimal

namespace Binary64.Finite

/-- Zeros at the end of the significand change the spelling only. -/
theorem ofDecimal_mul_pow (negative : Bool) (s k : Nat) (e : Int) :
    ofDecimal negative ⟨s * 10 ^ k, e⟩ = ofDecimal negative ⟨s, e + k⟩ := by
  induction k generalizing s e with
  | zero => simp
  | succ k ih =>
      rw [pow_succ, ← Nat.mul_assoc, ofDecimal_mul_ten, ih]
      congr 2
      omega

/-- **A floating point number of few digits and moderate size is read back from its text.** -/
theorem reread_of_short {x : Finite} (hdigits : x.shortest.digits.length ≤ 15)
    (hexponent : x.shortest.exponent.natAbs ≤ 22)
    (hmagnitude : x.shortest.magnitude < 14 ∨ 16 ≤ x.shortest.magnitude) :
    (Number.float x).reread = some (.float x) := by
  have hback := x.ofDecimal_shortest
  refine Number.reread_eq_some.mpr ?_
  show ∃ p, NumberPhase.read (signChars x.negative ++ x.shortest.chars) = some p ∧ _
  rcases x.shortest_cases with hzero | ⟨hne, -, -⟩
  · rw [hzero] at hback ⊢
    have hdigits : ∀ d ∈ ['0'], d.isDigit = true := List.forall_mem_singleton.mpr rfl
    have hread := read_belowOne hdigits (List.cons_ne_nil _ _) (by decide) x.negative
    refine ⟨_, hread, toFloat?_of_some ?_⟩
    show ofScaled x.negative ⟨0, -1⟩ = some x
    rw [ofScaled_eq_ofDecimal (d := ⟨0, -1⟩) (by decide) (by decide), ofDecimal_zero, ← hback,
      ofDecimal_zero]
  · generalize x.shortest = d at hback hne hdigits hexponent hmagnitude
    have hsignificand := Decimal.significand_lt hdigits
    unfold Decimal.chars
    split
    · -- the zeros that plain notation adds are read as digits, and scaled away again
      obtain ⟨k, hread, hbound, hplaces⟩ :=
        Decimal.read_plain hne hdigits (by omega) x.negative
      refine ⟨_, hread, toFloat?_of_some ?_⟩
      dsimp only
      rw [ofScaled_eq_ofDecimal (by dsimp only; omega) (by dsimp only; omega), ofDecimal_mul_pow]
      rw [show d.exponent - k + 0 + k = d.exponent by omega]
      exact hback
    · have hlimit : d.magnitude.natAbs ≤ exponentLimit := by
        unfold Decimal.magnitude exponentLimit
        omega
      have hfits : d.significand ≤ significandLimit := by
        unfold significandLimit
        omega
      obtain ⟨places, down, e, hread, hvalue⟩ :=
        Decimal.read_scientific hne hfits hlimit x.negative
      refine ⟨_, hread, toFloat?_of_some ?_⟩
      dsimp only
      rw [hvalue, ofScaled_eq_ofDecimal (by dsimp only; omega) (by dsimp only; omega)]
      exact hback

/-- A whole number of 53 bits, all of them set. -/
def fullOnes : Finite := ⟨false, 9007199254740991, 0, by decide⟩

/-- The number before it. -/
def beforeFullOnes : Finite := ⟨false, 9007199254740990, 0, by decide⟩

end Binary64.Finite

/-- Not every floating point number is read back. `9007199254740991.0` has 17 digits, which are kept
as one number of 57 bits, so that rounding it and then dividing by ten loses the last digit. -/
theorem Number.reread_fullOnes :
    Number.chars (.float .fullOnes) = "9007199254740991.0".toList ∧
      (Number.float .fullOnes).reread = some (.float .beforeFullOnes) := by
  decide +kernel

end Larder
