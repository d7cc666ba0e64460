import Larder.Json.Printer
import Larder.Json.StringText

/-!
# Strings are read back from their text

A character of a string is written as itself or as an escape, and read back as itself either way
(`StringPhase.takes_escape`); so a whole string is (`StringPhase.takes_chars`).
-/

namespace Larder.Json

namespace StringPhase

/-- The string takes these characters in, wherever in the text they stand, and has then been read as
far as the second phase says. -/
inductive Takes : StringPhase → List Char → StringPhase → Prop where
  | nil (s : StringPhase) : Takes s [] s
  | cons {s t u : StringPhase} {c : Char} {cs : List Char}
      (h : ∀ here, s.step here c = .more t) (hcs : Takes t cs u) : Takes s (c :: cs) u

theorem Takes.append {s s' s'' : StringPhase} {cs ds : List Char} (h : Takes s cs s')
    (h' : Takes s' ds s'') : Takes s (cs ++ ds) s'' := by
  induction h with
  | nil s => exact h'
  | cons hstep _ ih => exact .cons hstep (ih h')

/-- An escape of one letter. -/
theorem takes_letter {c d : Char} (hc : c ≠ 'u') (hd : unescape? c = some d) (text : List Char) :
    Takes ⟨text, .plain⟩ ['\\', c] ⟨d :: text, .plain⟩ := by
  refine .cons (t := ⟨text, .backslash⟩) (fun here => rfl) (.cons (fun here => ?_) (.nil _))
  unfold step
  dsimp only
  rw [if_neg hc, hd]

theorem hexValue?_digitChar {d : Nat} (hd : d < 16) :
    hexValue? (Nat.digitChar d) = some d ∧ (Nat.digitChar d).utf8Size = 1 := by
  revert d
  decide

/-- An escape by number, of a character below the space. -/
theorem takes_number {c : Char} (hc : c.toNat < 0x20) (text : List Char) :
    Takes ⟨text, .plain⟩
      ['\\', 'u', '0', '0', Nat.digitChar (c.toNat / 16), Nat.digitChar (c.toNat % 16)]
      ⟨c :: text, .plain⟩ := by
  obtain ⟨hhigh, hhighSize⟩ := hexValue?_digitChar (d := c.toNat / 16) (by omega)
  obtain ⟨hlow, hlowSize⟩ := hexValue?_digitChar (d := c.toNat % 16) (by omega)
  refine .cons (t := ⟨text, .backslash⟩) (fun here => rfl) <|
    .cons (t := ⟨text, .hex none 0 (some 0)⟩) (fun here => rfl) <|
    .cons (t := ⟨text, .hex none 1 (some 0)⟩) (fun here => rfl) <|
    .cons (t := ⟨text, .hex none 2 (some 0)⟩) (fun here => rfl) <|
    .cons (t := ⟨text, .hex none 3 (some (c.toNat / 16))⟩) (fun here => ?_) <|
    .cons (fun here => ?_) (.nil _)
  · unfold step
    dsimp only
    rw [hhigh, hhighSize]
    simp
  · have hunit : 16 * (c.toNat / 16) + c.toNat % 16 = c.toNat := Nat.div_add_mod _ _
    unfold step
    dsimp only
    rw [hlow, hlowSize]
    dsimp only
    rw [if_neg (by decide), hunit, unitRead, single, if_neg (by omega), if_neg (by omega),
      Char.ofNat_toNat]

/-- A character is read back from what it is written as. -/
theorem takes_escape (c : Char) (text : List Char) :
    Takes ⟨text, .plain⟩ (Text.escape c) ⟨c :: text, .plain⟩ := by
  have letter : ∀ {d e : Char}, c = e → d ≠ 'u' → unescape? d = some e →
      Takes ⟨text, .plain⟩ ['\\', d] ⟨c :: text, .plain⟩ := fun hce hd h =>
    takes_letter hd (hce ▸ h) text
  unfold Text.escape
  split
  · exact letter ‹_› (by decide) rfl
  split
  · exact letter ‹_› (by decide) rfl
  split
  · exact letter ‹_› (by decide) rfl
  split
  · exact letter ‹_› (by decide) rfl
  split
  · exact letter ‹_› (by decide) rfl
  split
  · exact letter ‹_› (by decide) rfl
  split
  · exact letter ‹_› (by decide) rfl
  split
  · exact takes_number ‹_› text
  · rename_i hquote hbackslash _ _ _ _ _ hcontrol
    refine .cons (fun here => ?_) (.nil _)
    unfold step
    dsimp only
    rw [if_neg hquote, if_neg hbackslash, if_neg hcontrol]

/-- **A string is read back from the text between its quotes.** -/
theorem takes_chars (cs text : List Char) :
    Takes ⟨text, .plain⟩ (cs.flatMap Text.escape) ⟨cs.reverse ++ text, .plain⟩ := by
  induction cs generalizing text with
  | nil => exact .nil _
  | cons c cs ih =>
      rw [List.flatMap_cons, List.reverse_cons, List.append_assoc]
      exact (takes_escape c text).append (ih (c :: text))

/-- The closing quote gives the whole string. -/
theorem step_closed (s : String) (here : Position) :
    step ⟨s.toList.reverse, .plain⟩ here '"' = .closed s := by
  show StringStep.closed (String.ofList s.toList.reverse.reverse) = _
  rw [List.reverse_reverse, String.ofList_toList]

end StringPhase

end Larder.Json
