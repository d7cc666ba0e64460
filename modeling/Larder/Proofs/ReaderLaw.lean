import Larder.Json.Depth
import Larder.Json.Reader

/-!
# What the reader gives

Whatever text the reader takes for a document, the document has its keys in order at every depth and
nests no deeper than the reader lets it. Both hold of all that the reader has put together so far,
where what stands inside open containers leaves room for them (`Reader.Sound`); one character keeps
them (`Reader.step_sound`), so a whole text does.
-/

namespace Larder.Json

namespace Reader

/-- What an open container holds, with as many containers open. -/
def Frame.Sound (isOpen : Nat) : Frame → Prop
  | .list items => ItemsFit depthLimit isOpen items
  | .member members _ => MembersFit depthLimit isOpen members

/-- What the open containers hold, the innermost first. -/
def WaitingSound : List Frame → Prop
  | [] => True
  | frame :: outer => Frame.Sound (outer.length + 1) frame ∧ WaitingSound outer

/-- What has been read of what is due, with as many containers waiting. -/
def DueSound (waiting : Nat) : Due → Prop
  | .word _ meaning => meaning.Fits depthLimit waiting
  | .nothing document => document.Fits depthLimit 0
  | .firstItem => ItemsFit depthLimit (waiting + 1) []
  | .nextItem items | .afterItem items => ItemsFit depthLimit (waiting + 1) items
  | .firstKey => MembersFit depthLimit (waiting + 1) []
  | .nextKey members | .key members _ | .colon members _ | .afterMember members =>
    MembersFit depthLimit (waiting + 1) members
  | .value | .number _ | .string _ => True

/-- Everything that has been read so far: what waits, and what is due. -/
def Sound (s : List Frame × Due) : Prop := WaitingSound s.1 ∧ DueSound s.1.length s.2

theorem WaitingSound.length_le {waiting : List Frame} (h : WaitingSound waiting) :
    waiting.length ≤ depthLimit := by
  cases waiting with
  | nil => exact Nat.zero_le _
  | cons frame outer =>
      obtain ⟨hframe, -⟩ := h
      cases frame with
      | list items => exact hframe.1
      | member members key => exact hframe.1

/-- A document without containers fits wherever a value may stand. -/
theorem WaitingSound.fits {waiting : List Frame} (h : WaitingSound waiting) {v : Json}
    (hv : v.WellFormed) (hdepth : v.depth = 0) : v.Fits depthLimit waiting.length :=
  ⟨hv, by rw [hdepth, Nat.zero_add]; exact h.length_le⟩

/-- A complete value is handed over. -/
theorem deliver_sound {waiting : List Frame} (h : WaitingSound waiting) {v : Json}
    (hv : v.Fits depthLimit waiting.length) : Sound (deliver v waiting) := by
  cases waiting with
  | nil => exact ⟨trivial, hv⟩
  | cons frame outer =>
      obtain ⟨hframe, houter⟩ := h
      cases frame with
      | list items => exact ⟨houter, ItemsFit.cons hframe hv⟩
      | member members key => exact ⟨houter, MembersFit.insert hframe key hv⟩

theorem beginValue_sound {waiting : List Frame} {s : List Frame × Due} {c : Char}
    (h : WaitingSound waiting) (hc : beginValue waiting c = .ok s) : Sound s := by
  have hroom : ¬depthLimit ≤ waiting.length → waiting.length + 1 ≤ depthLimit := by omega
  unfold beginValue at hc
  split at hc
  · cases hc
    exact ⟨h, trivial⟩
  split at hc
  · split at hc
    · cases hc
    · rename_i hlimit
      split at hc
      · cases hc
        exact ⟨h, hroom hlimit, nofun⟩
      · cases hc
        exact ⟨h, hroom hlimit, .nil, nofun⟩
  split at hc
  · cases hc
    exact ⟨h, h.fits trivial rfl⟩
  split at hc
  · cases hc
    exact ⟨h, h.fits trivial rfl⟩
  split at hc
  · cases hc
    exact ⟨h, h.fits trivial rfl⟩
  split at hc
  · cases hc
    exact ⟨h, trivial⟩
  · cases hc

theorem structural_sound {waiting : List Frame} {due : Due} {s : List Frame × Due} {c : Char}
    (h : Sound (waiting, due)) (hc : structural waiting due c = .ok s) : Sound s := by
  obtain ⟨hwaiting, hdue⟩ := h
  cases due with
  | firstItem =>
      rw [structural] at hc
      split at hc
      · cases hc
        exact deliver_sound hwaiting (fits_array_iff.mpr hdue)
      · have hopened : WaitingSound (.list [] :: waiting) := ⟨hdue, hwaiting⟩
        exact beginValue_sound hopened hc
  | nextItem items =>
      rw [structural] at hc
      split at hc
      · cases hc
      · have hopened : WaitingSound (.list items :: waiting) := ⟨hdue, hwaiting⟩
        exact beginValue_sound hopened hc
  | afterItem items =>
      rw [structural] at hc
      split at hc
      · cases hc
        exact ⟨hwaiting, hdue⟩
      · split at hc
        · cases hc
          refine deliver_sound hwaiting (fits_array_iff.mpr ⟨hdue.1, fun v hv => ?_⟩)
          exact hdue.2 v (List.mem_reverse.mp hv)
        · cases hc
  | firstKey =>
      rw [structural] at hc
      split at hc
      · cases hc
        exact deliver_sound hwaiting (fits_object_iff.mpr hdue)
      · split at hc
        · cases hc
          exact ⟨hwaiting, hdue⟩
        · cases hc
  | nextKey members =>
      rw [structural] at hc
      split at hc
      · cases hc
      · split at hc
        · cases hc
          exact ⟨hwaiting, hdue⟩
        · cases hc
  | colon members key =>
      rw [structural] at hc
      split at hc
      · cases hc
        exact ⟨⟨hdue, hwaiting⟩, trivial⟩
      · cases hc
  | afterMember members =>
      rw [structural] at hc
      split at hc
      · cases hc
        exact ⟨hwaiting, hdue⟩
      · split at hc
        · cases hc
          exact deliver_sound hwaiting (fits_object_iff.mpr hdue)
        · cases hc
  | nothing document => cases hc
  | _ => exact beginValue_sound hwaiting hc

theorem letter_sound {waiting : List Frame} {rest : List Char} {meaning : Json}
    {s : List Frame × Due} {c : Char} (h : Sound (waiting, .word rest meaning))
    (hc : letter waiting rest meaning c = .ok s) : Sound s := by
  obtain ⟨hwaiting, hmeaning⟩ := h
  unfold letter at hc
  split at hc
  · cases hc
    exact deliver_sound hwaiting hmeaning
  · split at hc
    · cases hc
      split
      · exact deliver_sound hwaiting hmeaning
      · exact ⟨hwaiting, hmeaning⟩
    · cases hc

theorem past_sound {r r' : Reader} {c : Char} {next : Except Cause (List Frame × Due)}
    (h : ∀ s, next = .ok s → Sound s) (hpast : r.past c next = .ok r') :
    Sound (r'.waiting, r'.due) := by
  cases next with
  | error cause => cases hpast
  | ok s =>
      cases hpast
      exact h s rfl

/-- What is due is not the rest of a token. -/
def BetweenTokens : Due → Prop
  | .word _ _ | .number _ | .string _ | .key _ _ => False
  | _ => True

/-- Between tokens a blank changes nothing, and all else is structure. -/
theorem step_between {waiting : List Frame} {due : Due} {position : Position} {c : Char}
    (h : BetweenTokens due) : step ⟨waiting, due, position⟩ c =
      past ⟨waiting, due, position⟩ c
        (if isBlank c then .ok (waiting, due) else structural waiting due c) := by
  cases due with
  | word _ _ | number _ | string _ | key _ _ => exact h.elim
  | _ =>
      rw [step]
      cases isBlank c <;> rfl

/-- One more character. -/
theorem step_sound {r r' : Reader} {c : Char} (h : Sound (r.waiting, r.due))
    (hstep : r.step c = .ok r') : Sound (r'.waiting, r'.due) := by
  obtain ⟨waiting, due, position⟩ := r
  obtain ⟨hwaiting, hdue⟩ := h
  have hsame : ∀ due', DueSound waiting.length due' →
      ∀ s, (Except.ok (waiting, due') : Except Cause _) = .ok s → Sound s := by
    intro due' hdue s heq
    cases heq
    exact ⟨hwaiting, hdue⟩
  by_cases hbetween : BetweenTokens due
  · rw [step_between hbetween] at hstep
    refine past_sound (fun s heq => ?_) hstep
    split at heq
    · exact hsame due hdue s heq
    · exact structural_sound ⟨hwaiting, hdue⟩ heq
  cases due with
  | word rest meaning => exact past_sound (fun s => letter_sound ⟨hwaiting, hdue⟩) hstep
  | number n =>
      rw [step] at hstep
      dsimp only at hstep
      split at hstep
      · exact past_sound (hsame (.number _) trivial) hstep
      · cases hstep
      · cases hstep
  | string s =>
      rw [step] at hstep
      dsimp only at hstep
      split at hstep
      · exact past_sound (hsame (.string _) trivial) hstep
      · refine past_sound (fun s heq => ?_) hstep
        cases heq
        exact deliver_sound hwaiting (hwaiting.fits trivial rfl)
      · cases hstep
  | key members s =>
      rw [step] at hstep
      dsimp only at hstep
      split at hstep
      · rename_i s' _
        exact past_sound (hsame (.key members s') hdue) hstep
      · rename_i text _
        exact past_sound (hsame (.colon members text) hdue) hstep
      · cases hstep
  | _ => exact absurd trivial hbetween

theorem endNumber_sound {r r' : Reader} {n : NumberPhase} (h : WaitingSound r.waiting)
    (hend : r.endNumber n = .ok r') : Sound (r'.waiting, r'.due) := by
  unfold endNumber at hend
  split at hend
  · cases hend
    exact deliver_sound h (h.fits trivial rfl)
  · cases hend

theorem settle_sound {r r' : Reader} {c : Char} (h : Sound (r.waiting, r.due))
    (hsettle : r.settle c = .ok r') : Sound (r'.waiting, r'.due) := by
  unfold settle at hsettle
  split at hsettle
  · split at hsettle
    · exact endNumber_sound h.1 hsettle
    · cases hsettle
      exact h
  · cases hsettle
    exact h

/-- A text ends after its document, or after the number that is its document. -/
theorem due_of_finish {r : Reader} {v : Json} (h : r.finish = .ok v) :
    r.due = .nothing v ∨
      ∃ n r', r.due = .number n ∧ r.endNumber n = .ok r' ∧ r'.due = .nothing v := by
  obtain ⟨waiting, due, position⟩ := r
  cases due with
  | nothing document =>
      cases h
      exact Or.inl rfl
  | number n =>
      rw [finish] at h
      dsimp only at h
      cases hend : endNumber ⟨waiting, .number n, position⟩ n with
      | error e =>
          rw [hend] at h
          cases h
      | ok r' =>
          rw [hend] at h
          obtain ⟨waiting', due', position'⟩ := r'
          cases due' with
          | nothing document =>
              cases h
              exact Or.inr ⟨n, _, rfl, hend, rfl⟩
          | _ => cases h
  | _ => cases h

/-- The document at the end of a text. -/
theorem finish_sound {r : Reader} {v : Json} (h : Sound (r.waiting, r.due))
    (hfinish : r.finish = .ok v) : v.Fits depthLimit 0 := by
  rcases due_of_finish hfinish with hdue | ⟨n, r', -, hend, hdue⟩
  · rw [hdue] at h
    exact h.2
  · have hended := endNumber_sound h.1 hend
    rw [hdue] at hended
    exact hended.2

/-- Where the document is complete, what follows it is looked at. -/
theorem run_complete {r r₁ : Reader} {c : Char} {v : Json} (hsettle : r.settle c = .ok r₁)
    (hdue : r₁.due = .nothing v) (cs : List Char) :
    r.run (c :: cs) = .ok (v, trailing r₁.position (c :: cs)) := by
  obtain ⟨waiting, due, position⟩ := r₁
  cases hdue
  rw [run, hsettle]
  rfl

/-- Where it is not, the character is taken in by a step. -/
theorem run_step {r r₁ : Reader} {c : Char} (hsettle : r.settle c = .ok r₁)
    (hdue : ∀ v, r₁.due ≠ .nothing v) (cs : List Char) :
    r.run (c :: cs) = (r₁.step c).bind fun r' => r'.run cs := by
  obtain ⟨waiting, due, position⟩ := r₁
  rw [run, hsettle]
  cases due with
  | nothing v => exact absurd rfl (hdue v)
  | _ => rfl

/-- A whole text. -/
theorem run_sound {cs : List Char} {r : Reader} {v : Json} {rest : Option Malformed}
    (h : Sound (r.waiting, r.due)) (hrun : r.run cs = .ok (v, rest)) : v.Fits depthLimit 0 := by
  induction cs generalizing r with
  | nil =>
      rw [run] at hrun
      cases hfinish : r.finish with
      | error e =>
          rw [hfinish] at hrun
          cases hrun
      | ok w =>
          rw [hfinish] at hrun
          cases hrun
          exact finish_sound h hfinish
  | cons c cs ih =>
      cases hsettle : r.settle c with
      | error e =>
          rw [run, hsettle] at hrun
          cases hrun
      | ok r₁ =>
          have hsettled := settle_sound h hsettle
          by_cases hdue : ∃ document, r₁.due = .nothing document
          · obtain ⟨document, hdue⟩ := hdue
            rw [run_complete hsettle hdue] at hrun
            cases hrun
            rw [hdue] at hsettled
            exact hsettled.2
          · rw [run_step hsettle (not_exists.mp hdue)] at hrun
            cases hstep : r₁.step c with
            | error e =>
                rw [hstep] at hrun
                cases hrun
            | ok r₂ =>
                rw [hstep] at hrun
                exact ih (step_sound hsettled hstep) hrun

end Reader

/-- **Whatever document a text begins with** is well-formed and nests no deeper than the reader lets
it. -/
theorem readFirst_fits {text : String} {v : Json} {rest : Option Malformed}
    (h : readFirst text = .ok (v, rest)) : v.Fits depthLimit 0 :=
  Reader.run_sound (r := .start) ⟨trivial, trivial⟩ h

/-- A text spells the document that it begins with if nothing follows. -/
theorem read_eq_ok {text : String} {v : Json} :
    read text = .ok v ↔ readFirst text = .ok (v, none) := by
  unfold read
  split
  · rename_i document hfirst
    rw [hfirst]
    exact ⟨fun h => by cases h; rfl, fun h => by cases h; rfl⟩
  · rename_i document complaint hfirst
    rw [hfirst]
    exact ⟨nofun, nofun⟩
  · rename_i complaint hfirst
    rw [hfirst]
    exact ⟨nofun, nofun⟩

end Larder.Json
