import Mathlib
import Larder.Uuid.Reader

/-!
# The written form of an identifier

An identifier is read back from its written form. The digits are cut into groups and put together
again (`ungrouped?_grouped`), each of them is read as itself (`hexDigits?_digitChar`), and as no
character of the written form takes more than a byte, its length marks it as hyphenated.
-/

namespace Larder.Uuid

theorem hexDigit?_digitChar (d : Fin 16) : hexDigit? (Nat.digitChar d.val) = some d := by
  revert d
  decide

theorem hexDigits?_digitChar (ds : List (Fin 16)) :
    hexDigits? (ds.map fun d => Nat.digitChar d.val) = some ds := by
  unfold hexDigits?
  induction ds with
  | nil => rfl
  | cons d ds ih =>
      rw [List.map_cons, List.mapM_cons, hexDigit?_digitChar, ih]
      rfl

theorem utf8Size_digitChar (d : Fin 16) : (Nat.digitChar d.val).utf8Size = 1 := by
  revert d
  decide

/-! ## Groups -/

variable {α : Type _} {separator x : α}

theorem mem_grouped {ns : List Nat} {xs : List α} (h : x ∈ grouped separator ns xs) :
    x = separator ∨ x ∈ xs := by
  induction ns generalizing xs with
  | nil => cases h
  | cons n more ih =>
      cases more with
      | nil => exact Or.inr (List.mem_of_mem_take h)
      | cons m more =>
          rw [grouped] at h
          · rcases List.mem_append.mp h with h | h
            · exact Or.inr (List.mem_of_mem_take h)
            · rcases List.mem_cons.mp h with h | h
              · exact Or.inl h
              · exact (ih h).imp_right List.mem_of_mem_drop
          · exact nofun

theorem length_grouped {ns : List Nat} (hns : ns ≠ []) {xs : List α} (h : xs.length = ns.sum) :
    (grouped separator ns xs).length + 1 = ns.sum + ns.length := by
  induction ns generalizing xs with
  | nil => exact absurd rfl hns
  | cons n more ih =>
      cases more with
      | nil =>
          have hn : n ≤ xs.length := by simp at h; omega
          simp [grouped, hn]
      | cons m more =>
          have hdrop : (xs.drop n).length = (m :: more).sum := by
            rw [List.length_drop, h, List.sum_cons]
            omega
          have hrest := ih (List.cons_ne_nil m more) hdrop
          have hn : min n xs.length = n := by
            rw [h, List.sum_cons]
            omega
          rw [grouped]
          · simp only [List.length_append, List.length_take, hn, List.length_cons,
              List.sum_cons] at hrest ⊢
            omega
          · exact nofun

/-- Groups that have been cut with hyphens are put together again. -/
theorem ungrouped?_grouped {ns : List Nat} (hns : ns ≠ []) {cs : List Char}
    (h : cs.length = ns.sum) : ungrouped? ns (grouped '-' ns cs) = some cs := by
  induction ns generalizing cs with
  | nil => exact absurd rfl hns
  | cons n more ih =>
      cases more with
      | nil =>
          have hn : cs.length = n := by simpa using h
          rw [grouped, ← hn, List.take_length, ungrouped?, if_pos rfl]
      | cons m more =>
          have hdrop : (cs.drop n).length = (m :: more).sum := by
            rw [List.length_drop, h, List.sum_cons]
            omega
          have hn : (cs.take n).length = n := by
            rw [List.length_take, h, List.sum_cons]
            omega
          rw [grouped, ungrouped?, List.drop_left' hn, List.take_left' hn]
          · show (if (cs.take n).length = n then
              (ungrouped? (m :: more) (grouped '-' (m :: more) (cs.drop n))).map (cs.take n ++ ·)
              else none) = some cs
            rw [if_pos hn, ih (List.cons_ne_nil m more) hdrop, Option.map_some,
              List.take_append_drop]
          · exact nofun
          · exact nofun

/-! ## The written form -/

theorem byteLength_eq_length {cs : List Char} (h : ∀ c ∈ cs, c.utf8Size = 1) :
    byteLength cs = cs.length := by
  induction cs with
  | nil => rfl
  | cons c cs ih =>
      rw [byteLength, h c List.mem_cons_self, ih fun d hd => h d (List.mem_cons_of_mem c hd),
        List.length_cons, Nat.add_comm]

theorem length_digits (u : Uuid) :
    (u.digits.map fun d => Nat.digitChar d.val).length = groups.sum := by
  rw [List.length_map, u.length_eq]
  rfl

theorem byteLength_chars (u : Uuid) : byteLength u.chars = 36 := by
  -- 32 digits and the hyphens between 5 groups
  have hchars : u.chars.length + 1 = 32 + 5 := length_grouped (List.cons_ne_nil 8 _) u.length_digits
  rw [byteLength_eq_length]
  · omega
  · intro c hc
    rcases mem_grouped hc with rfl | hc
    · rfl
    · obtain ⟨d, -, rfl⟩ := List.mem_map.mp hc
      exact utf8Size_digitChar d

/-- **An identifier is read back from its written form.** -/
theorem ofText_text (u : Uuid) : ofText u.text = .ok u := by
  have hpart : hyphenatedPart? u.chars = some u.chars := by
    rw [hyphenatedPart?, if_pos (byteLength_chars u)]
  have hdigits : ungrouped? groups u.chars = some (u.digits.map fun d => Nat.digitChar d.val) :=
    ungrouped?_grouped (List.cons_ne_nil 8 _) u.length_digits
  have hread : ofChars? u.chars = some u := by
    rw [ofChars?, hpart]
    show (ungrouped? groups u.chars).bind ofPlain? = some u
    rw [hdigits, Option.bind_some, ofPlain?, hexDigits?_digitChar, Option.bind_some, ofDigits?,
      dif_pos u.length_eq]
  rw [ofText, text, String.toList_ofList, hread]

end Larder.Uuid
