import Mathlib
import Larder.Path

/-!
# A path is told by its text

Steps of three forms, `.name`, `["name"]` and `[1]`, are written one after the other with nothing in
between, and a quoted key may hold any characters, those of other steps included. Still no two paths
have the same text (`Path.text_inj`).

What is written for an item is `Legible` if it shows the item and where it ends, whatever text may
come after it. Characters of a quotation are legible before anything; a run of digits, or a plain
key, is before whatever does not continue it; and what is written for a list item by item is if its
items are and its end is not the beginning of another item (`Legible.flatMap`). Quotations and paths
are both such lists.
-/

namespace Larder

variable {α : Type}

/-! ## Text that shows where it ends -/

/-- What is written for an item shows the item, and where it ends, before any text that `After`
allows. -/
def Legible (write : α → List Char) (After : List Char → Prop) : Prop :=
  ∀ ⦃a b : α⦄ ⦃xs ys : List Char⦄, After xs → After ys → write a ++ xs = write b ++ ys →
    a = b ∧ xs = ys

/-- The text does not begin with a character of this kind. -/
def NotLed (p : Char → Bool) (xs : List Char) : Prop := ∀ c ∈ xs.head?, p c = false

namespace Legible

/-- Runs of characters of one kind end where a character of another kind stands. -/
theorem of_run {write : α → List Char} {p : Char → Bool} (hrun : ∀ a, ∀ c ∈ write a, p c = true)
    (hinj : Function.Injective write) : Legible write (NotLed p) := by
  intro a b xs ys hxs hys h
  -- what was written is found again as the longest beginning of that kind
  have run : ∀ {e zs}, NotLed p zs → (write e ++ zs).takeWhile p = write e := by
    intro e zs hzs
    rw [List.takeWhile_append_of_pos (hrun e)]
    cases zs with
    | nil => exact List.append_nil _
    | cons z zs =>
        have hz : p z = false := hzs z rfl
        rw [List.takeWhile_cons_of_neg (ne_true_of_eq_false hz), List.append_nil]
  have hwrite : write a = write b := by rw [← run hxs, h, run hys]
  exact ⟨hinj hwrite, List.append_cancel_left (hwrite ▸ h)⟩

/-- A list is written item by item. What may stand after the list is nothing that an item begins
with, so the end of the list shows. -/
theorem flatMap {write : α → List Char} {After End : List Char → Prop} (hitem : Legible write After)
    (hafter : ∀ a xs, After (write a ++ xs)) (hend : ∀ xs, End xs → After xs)
    (hnot : ∀ a xs, ¬End (write a ++ xs)) : Legible (List.flatMap write) End := by
  intro as bs
  have after : ∀ (l : List α) {zs}, End zs → After (l.flatMap write ++ zs) := by
    intro l zs hzs
    cases l with
    | nil => exact hend zs hzs
    | cons e l =>
        rw [List.flatMap_cons, List.append_assoc]
        exact hafter e _
  -- along both lists at once: an end is no beginning of an item, so neither list ends first
  induction as generalizing bs with
  | nil =>
      intro xs ys hxs hys h
      cases bs with
      | nil => exact ⟨rfl, h⟩
      | cons b bs =>
          rw [List.flatMap_nil, List.nil_append, List.flatMap_cons, List.append_assoc] at h
          exact absurd (h ▸ hxs) (hnot b _)
  | cons a as ih =>
      intro xs ys hxs hys h
      rw [List.flatMap_cons, List.append_assoc] at h
      cases bs with
      | nil =>
          rw [List.flatMap_nil, List.nil_append] at h
          exact absurd (h.symm ▸ hys) (hnot a _)
      | cons b bs =>
          rw [List.flatMap_cons, List.append_assoc] at h
          obtain ⟨rfl, hrest⟩ := hitem (after as hxs) (after bs hys) h
          obtain ⟨rfl, hends⟩ := ih hxs hys hrest
          exact ⟨rfl, hends⟩

/-- What ends with a character that may stand after it is legible before anything. -/
theorem closed {write : α → List Char} {After : List Char → Prop} (h : Legible write After)
    (close : Char) (hclose : ∀ xs, After (close :: xs)) :
    Legible (fun a => write a ++ [close]) fun _ => True := by
  intro a b xs ys _ _ he
  rw [List.append_assoc, List.append_assoc] at he
  obtain ⟨rfl, hrest⟩ := h (hclose xs) (hclose ys) he
  exact ⟨rfl, (List.cons.inj hrest).2⟩

end Legible

/-! ## Numbers -/

/-- The digits of a number are those of what it is divided to, and one more. -/
theorem toDigits_concat {b : Nat} (hb : 1 < b) (n : Nat) :
    Nat.toDigits b n =
      (if n < b then [] else Nat.toDigits b (n / b)) ++ [(n % b).digitChar] := by
  rw [Nat.toDigits_eq_if hb]
  by_cases hn : n < b
  · rw [if_pos hn, if_pos hn, Nat.mod_eq_of_lt hn, List.nil_append]
  · rw [if_neg hn, if_neg hn]

theorem digitChar_inj : ∀ d < 16, ∀ e < 16, d.digitChar = e.digitChar → d = e := by
  decide

theorem toDigits_injective {b : Nat} (hb : 1 < b) (hb' : b ≤ 16) :
    Function.Injective (Nat.toDigits b) := by
  intro m
  induction m using Nat.strongRecOn with
  | ind m ih =>
    intro n h
    -- the last digits are those of the remainders, the ones before are those of the quotients
    rw [toDigits_concat hb m, toDigits_concat hb n] at h
    obtain ⟨hfirst, hlast⟩ := List.append_inj' h rfl
    have hmod : m % b = n % b := by
      have hm := Nat.mod_lt m (Nat.zero_lt_of_lt hb)
      have hn := Nat.mod_lt n (Nat.zero_lt_of_lt hb)
      exact digitChar_inj _ (by omega) _ (by omega) (List.singleton_inj.mp hlast)
    by_cases hm : m < b
    · by_cases hn : n < b
      · rwa [Nat.mod_eq_of_lt hm, Nat.mod_eq_of_lt hn] at hmod
      · rw [if_pos hm, if_neg hn] at hfirst
        exact absurd hfirst.symm Nat.toDigits_ne_nil
    · by_cases hn : n < b
      · rw [if_neg hm, if_pos hn] at hfirst
        exact absurd hfirst Nat.toDigits_ne_nil
      · rw [if_neg hm, if_neg hn] at hfirst
        have hdiv : m / b = n / b := ih (m / b) (Nat.div_lt_self (by omega) hb) hfirst
        rw [← Nat.div_add_mod m b, ← Nat.div_add_mod n b, hdiv, hmod]

theorem exists_digitChar {b n : Nat} (hb : 1 < b) {c : Char} (hc : c ∈ Nat.toDigits b n) :
    ∃ d < b, c = d.digitChar := by
  induction n using Nat.strongRecOn with
  | ind n ih =>
    rw [toDigits_concat hb, List.mem_append, List.mem_singleton] at hc
    rcases hc with hc | hc
    · split at hc
      · cases hc
      · exact ih (n / b) (Nat.div_lt_self (by omega) hb) hc
    · exact ⟨n % b, Nat.mod_lt n (Nat.zero_lt_of_lt hb), hc⟩

/-- A number is legible if it ends with a character that is no letter or digit. -/
theorem legible_number {b : Nat} (hb : 1 < b) (hb' : b ≤ 16) {close : Char}
    (hclose : close.isAlphanum = false) :
    Legible (fun n => Nat.toDigits b n ++ [close]) fun _ => True := by
  have hrun : Legible (Nat.toDigits b) (NotLed Char.isAlphanum) := by
    refine .of_run (fun n c hc => ?_) (toDigits_injective hb hb')
    obtain ⟨d, hd, rfl⟩ := exists_digitChar hb hc
    have hdigit : ∀ d < 16, d.digitChar.isAlphanum = true := by decide
    exact hdigit d (Nat.lt_of_lt_of_le hd hb')
  refine hrun.closed close fun xs c hc => ?_
  cases hc
  exact hclose

namespace Text

/-! ## Quotations -/

/-- The characters that a quotation writes by a letter, with their letters. -/
def lettered : List (Char × Char) :=
  [('0', '\x00'), ('t', '\t'), ('r', '\r'), ('n', '\n'), ('"', '"'), ('\\', '\\')]

theorem shown_lettered : ∀ e ∈ lettered, shown e.2 = ['\\', e.1] := by decide

/-- A character stands for itself, or is written by its letter, or by its number. -/
theorem shown_cases (c : Char) :
    (c ≠ '"' ∧ c ≠ '\\' ∧ shown c = [c]) ∨
      (∃ letter, (letter, c) ∈ lettered ∧ shown c = ['\\', letter]) ∨
      shown c = '\\' :: 'u' :: '{' :: (Nat.toDigits 16 c.toNat ++ ['}']) := by
  by_cases hletter : ∃ letter, (letter, c) ∈ lettered
  · obtain ⟨letter, h⟩ := hletter
    exact Or.inr (Or.inl ⟨letter, h, shown_lettered _ h⟩)
  · simp only [lettered, List.mem_cons, Prod.mk.injEq, List.not_mem_nil, or_false, exists_or,
      exists_eq_left, not_or] at hletter
    obtain ⟨hnul, htab, hreturn, hnewline, hquote, hbackslash⟩ := hletter
    unfold shown
    rw [if_neg hnul, if_neg htab, if_neg hreturn, if_neg hnewline, if_neg hquote,
      if_neg hbackslash]
    cases isUnprintable c with
    | true => exact Or.inr (Or.inr rfl)
    | false => exact Or.inl ⟨hquote, hbackslash, rfl⟩

theorem shown_ne_quote (c : Char) (xs ys : List Char) : shown c ++ xs ≠ '"' :: ys := by
  rcases shown_cases c with ⟨hc, -, h⟩ | ⟨letter, -, h⟩ | h
  · rw [h]
    exact fun he => hc (List.cons.inj he).1
  · rw [h]
    exact fun he => absurd (List.cons.inj he).1 (by decide)
  · rw [h]
    exact fun he => absurd (List.cons.inj he).1 (by decide)

/-- A letter is never taken for the `u` of a number, and belongs to one character. -/
theorem lettered_inj : ∀ e ∈ lettered, e.1 ≠ 'u' ∧ ∀ e' ∈ lettered, e.1 = e'.1 → e.2 = e'.2 := by
  decide

/-- A character of a quotation is legible before anything. -/
theorem legible_shown : Legible shown fun _ => True := by
  intro c d xs ys _ _ h
  -- the first character tells what stands for itself, the second tells letters from numbers
  rcases shown_cases c with ⟨-, hc, hc'⟩ | ⟨letter, hc, hc'⟩ | hc' <;>
    rcases shown_cases d with ⟨-, hd, hd'⟩ | ⟨letter', hd, hd'⟩ | hd' <;>
    rw [hc', hd'] at h
  · exact List.cons.inj h
  · exact absurd (List.cons.inj h).1 hc
  · exact absurd (List.cons.inj h).1 hc
  · exact absurd (List.cons.inj h).1.symm hd
  · obtain ⟨hletter, hrest⟩ := List.cons.inj (List.cons.inj h).2
    exact ⟨(lettered_inj _ hc).2 _ hd hletter, hrest⟩
  · exact absurd (List.cons.inj (List.cons.inj h).2).1 (lettered_inj _ hc).1
  · exact absurd (List.cons.inj h).1.symm hd
  · exact absurd (List.cons.inj (List.cons.inj h).2).1.symm (lettered_inj _ hd).1
  · have hnumber := (List.cons.inj (List.cons.inj (List.cons.inj h).2).2).2
    obtain ⟨hcode, hrest⟩ :=
      legible_number (by decide) (by decide) (by decide) trivial trivial hnumber
    exact ⟨Char.toNat_inj.mp hcode, hrest⟩

/-- A quotation is legible before anything: no character in it is shown as the closing quote. -/
theorem legible_quotation : Legible quotation fun _ => True := by
  have hchars : Legible (List.flatMap shown) fun xs => ∃ ys, xs = '"' :: ys := by
    refine legible_shown.flatMap (fun _ _ => trivial) (fun _ _ => trivial) fun c xs hxs => ?_
    obtain ⟨ys, hys⟩ := hxs
    exact shown_ne_quote c xs ys hys
  have hclosed := hchars.closed '"' fun xs => ⟨xs, rfl⟩
  exact fun k l xs ys hxs hys h => hclosed hxs hys (List.cons.inj h).2

end Text

/-! ## Paths -/

namespace Segment

/-- The characters of plain keys. -/
def isWord (c : Char) : Bool := c.isAlphanum || c = '_'

theorem isWord_of_isPlain {key : List Char} (h : isPlain key = true) :
    ∀ c ∈ key, isWord c = true := by
  unfold isPlain at h
  cases key with
  | nil => nofun
  | cons c rest =>
      simp only [Bool.and_eq_true, List.all_eq_true] at h
      exact h.2

/-- A step begins with a point or a bracket, which go on no key. -/
theorem notLed_chars (s : Segment) (xs : List Char) : NotLed isWord (s.chars ++ xs) := by
  intro c hc
  unfold chars at hc
  split at hc
  · split at hc
    · cases hc
      decide
    · cases hc
      decide
  · cases hc
    decide

/-- The three forms of a step. -/
theorem chars_cases (s : Segment) :
    (∃ k, s = .key k ∧ isPlain k.toList = true ∧ s.chars = '.' :: k.toList) ∨
      (∃ k, s = .key k ∧ s.chars = '[' :: (Text.quotation k.toList ++ [']'])) ∨
      ∃ i, s = .index i ∧ s.chars = '[' :: (Nat.toDigits 10 i ++ [']']) := by
  cases s with
  | key k =>
      by_cases hk : isPlain k.toList = true
      · exact Or.inl ⟨k, rfl, hk, if_pos hk⟩
      · exact Or.inr (Or.inl ⟨k, rfl, if_neg hk⟩)
  | index i => exact Or.inr (Or.inr ⟨i, rfl, rfl⟩)

/-- The second character tells a quoted key from an index. -/
theorem quotation_ne_toDigits (k : List Char) (i : Nat) (xs ys : List Char) :
    Text.quotation k ++ [']'] ++ xs ≠ Nat.toDigits 10 i ++ [']'] ++ ys := by
  intro h
  obtain ⟨c, rest, hdigits⟩ := List.exists_cons_of_ne_nil (Nat.toDigits_ne_nil (n := i) (b := 10))
  have hc : c.isDigit = true :=
    Nat.isDigit_of_mem_toDigits (by decide) (by decide) (hdigits ▸ List.mem_cons_self)
  rw [hdigits] at h
  rw [← (List.cons.inj h).1] at hc
  exact absurd hc (by decide)

/-- Plain keys are legible before other steps and at the end of a path. -/
theorem eq_of_plain {k l : String} (hk : isPlain k.toList = true) (hl : isPlain l.toList = true)
    {xs ys : List Char} (hxs : NotLed isWord xs) (hys : NotLed isWord ys)
    (h : k.toList ++ xs = l.toList ++ ys) : k = l ∧ xs = ys := by
  have hrun : Legible (fun k : { k : String // isPlain k.toList = true } => k.val.toList)
      (NotLed isWord) :=
    .of_run (fun k => isWord_of_isPlain k.property) fun k l h => Subtype.ext (String.toList_inj.mp h)
  obtain ⟨hkeys, hrest⟩ := @hrun ⟨k, hk⟩ ⟨l, hl⟩ xs ys hxs hys h
  exact ⟨congrArg Subtype.val hkeys, hrest⟩

/-- A step is legible before other steps and at the end of a path. -/
theorem legible_chars : Legible chars (NotLed isWord) := by
  intro s s' xs ys hxs hys h
  rcases chars_cases s with ⟨k, rfl, hk, hs⟩ | ⟨k, rfl, hs⟩ | ⟨i, rfl, hs⟩ <;>
    rcases chars_cases s' with ⟨l, rfl, hl, hs'⟩ | ⟨l, rfl, hs'⟩ | ⟨j, rfl, hs'⟩ <;>
    rw [hs, hs'] at h <;> obtain ⟨hfirst, h⟩ := List.cons.inj h
  · obtain ⟨rfl, hrest⟩ := eq_of_plain hk hl hxs hys h
    exact ⟨rfl, hrest⟩
  · exact absurd hfirst (by decide)
  · exact absurd hfirst (by decide)
  · exact absurd hfirst (by decide)
  · have hclosed := Text.legible_quotation.closed ']' fun _ => trivial
    obtain ⟨hkeys, hrest⟩ := hclosed trivial trivial h
    exact ⟨congrArg key (String.toList_inj.mp hkeys), hrest⟩
  · exact absurd h (quotation_ne_toDigits _ _ _ _)
  · exact absurd hfirst (by decide)
  · exact absurd h.symm (quotation_ne_toDigits _ _ _ _)
  · obtain ⟨rfl, hrest⟩ := legible_number (by decide) (by decide) (by decide) trivial trivial h
    exact ⟨rfl, hrest⟩

end Segment

/-- **No two paths have the same text**, whatever their keys and indices are. -/
theorem Path.text_inj {p q : Path} : p.text = q.text ↔ p = q := by
  refine ⟨fun h => ?_, fun h => by rw [h]⟩
  have hsteps : Legible (List.flatMap Segment.chars) (· = []) := by
    refine Segment.legible_chars.flatMap Segment.notLed_chars (fun xs hxs => ?_) fun s xs hxs => ?_
    · rw [hxs]
      exact nofun
    · rcases Segment.chars_cases s with ⟨k, -, -, hs⟩ | ⟨k, -, hs⟩ | ⟨i, -, hs⟩ <;>
        rw [hs] at hxs <;> cases hxs
  have hchars : p.segments.flatMap Segment.chars = q.segments.flatMap Segment.chars :=
    (List.cons.inj (String.ofList_injective h)).2
  have hsegments := (hsteps rfl rfl (congrArg (· ++ []) hchars)).1
  exact congrArg Path.mk hsegments

/-- A key that looks like two steps is not taken for them. -/
example : (Path.text ⟨[.key "a", .index 1]⟩, Path.text ⟨[.key "a[1]"]⟩) =
    ("$.a[1]", "$[\"a[1]\"]") := by
  decide +kernel

end Larder
