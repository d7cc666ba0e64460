import Larder.Proofs.ReaderLaw
import Larder.Proofs.Rereading
import Larder.Proofs.StringSpelling

/-!
# What the compact text of a document is read as

The reader is followed through the text of a document, part by part: `Leads` says that some
characters take it from one state to another, wherever they stand. Whatever waits for a value, the
text of the value leads to the state in which the value has been handed over, with its numbers as
they are read from their own texts, except that a number is only handed over when the next character
comes (`Ready`). The proof goes along the document; its items and members are each read where a value
is due, one container further in. So the text of a document is read as `Json.reread` of it
(`read_compact`), which is the document itself where that is stable.
-/

namespace Larder.Json

open Reader

/-! ## Following the reader -/

namespace Reader

/-- What waits, and what is due. -/
abbrev State : Type := List Frame × Due

/-- The reader in a state, at a place of the text. -/
def ofState (s : State) (position : Position) : Reader := ⟨s.1, s.2, position⟩

/-- The characters take the reader from the one state to the other, whatever comes after them. -/
def Leads (s : State) (cs : List Char) (s' : State) : Prop :=
  ∀ position, ∃ position', ∀ rest, (ofState s position).run (cs ++ rest) =
    (ofState s' position').run rest

theorem Leads.refl (s : State) : Leads s [] s := fun position => ⟨position, fun _ => rfl⟩

theorem Leads.trans {s s' s'' : State} {cs ds : List Char} (h : Leads s cs s')
    (h' : Leads s' ds s'') : Leads s (cs ++ ds) s'' := by
  intro position
  obtain ⟨position', hrun⟩ := h position
  obtain ⟨position'', hrun'⟩ := h' position'
  refine ⟨position'', fun rest => ?_⟩
  rw [List.append_assoc, hrun, hrun']

/-- One character and then more. -/
theorem Leads.cons {s s' s'' : State} {c : Char} {cs : List Char} (h : Leads s [c] s')
    (h' : Leads s' cs s'') : Leads s (c :: cs) s'' := h.trans h'

/-- A character that ends no number, before the document is complete, is taken in by a step. -/
theorem leads_step {s s' : State} {c : Char}
    (hsettle : ∀ position, (ofState s position).settle c = .ok (ofState s position))
    (hdue : ∀ v, s.2 ≠ .nothing v)
    (hstep : ∀ position, (ofState s position).step c = .ok (ofState s' (position.advance c))) :
    Leads s [c] s' := by
  intro position
  refine ⟨position.advance c, fun rest => ?_⟩
  rw [List.singleton_append, run_step (hsettle position) hdue, hstep]
  rfl

/-- A bracket, brace, comma or colon, or the first character of a value. -/
theorem leads_structural {s s' : State} {c : Char} (hdue : BetweenTokens s.2)
    (hblank : isBlank c = false) (h : structural s.1 s.2 c = .ok s') : Leads s [c] s' := by
  obtain ⟨waiting, due⟩ := s
  refine leads_step (fun position => ?_) (fun v hv => ?_) fun position => ?_
  · cases due with
    | number _ => exact hdue.elim
    | _ => rfl
  · cases (hv : due = .nothing v)
    cases h
  · rw [ofState, step_between hdue, if_neg (ne_true_of_eq_false hblank), h]
    rfl

/-! ### Inside tokens -/

/-- The letters of a word, to the last. -/
theorem leads_word (waiting : List Frame) (meaning : Json) {rest : List Char} (hne : rest ≠ []) :
    Leads (waiting, .word rest meaning) rest (deliver meaning waiting) := by
  induction rest with
  | nil => exact absurd rfl hne
  | cons c rest ih =>
      have hletter : Leads (waiting, .word (c :: rest) meaning) [c]
          (if rest.isEmpty then deliver meaning waiting else (waiting, .word rest meaning)) := by
        refine leads_step (fun _ => rfl) nofun fun position => ?_
        show past _ c (if c = c then .ok _ else .error .expectedWord) = _
        rw [if_pos rfl]
        rfl
      cases rest with
      | nil => exact hletter
      | cons d rest => exact hletter.cons (ih (List.cons_ne_nil d rest))

/-- More of a number. -/
theorem leads_number (waiting : List Frame) {p q : NumberPhase} {cs : List Char}
    (h : p.after cs = some q) : Leads (waiting, .number p) cs (waiting, .number q) := by
  induction cs generalizing p with
  | nil =>
      cases h
      exact .refl _
  | cons c cs ih =>
      rw [NumberPhase.after] at h
      split at h
      · rename_i p' hp
        have hnumber : ∀ v, Due.number p ≠ .nothing v := fun v hv => by cases hv
        refine Leads.cons (leads_step (fun position => ?_) hnumber fun position => ?_) (ih h)
        · show (if (p.next? c).isNone then _ else Except.ok _) = _
          rw [hp]
          rfl
        · unfold Reader.step ofState
          dsimp only
          rw [hp]
          rfl
      · cases h

/-- More of a string that is a value. -/
theorem leads_string (waiting : List Frame) {s s' : StringPhase} {cs : List Char}
    (h : s.Takes cs s') : Leads (waiting, .string s) cs (waiting, .string s') := by
  induction h with
  | nil s => exact .refl _
  | cons hstep _ ih =>
      refine Leads.cons (leads_step (fun _ => rfl) nofun fun position => ?_) ih
      unfold Reader.step ofState
      dsimp only
      rw [hstep]
      rfl

/-- More of a string that is a key. -/
theorem leads_key (waiting : List Frame) (members : List (String × Json)) {s s' : StringPhase}
    {cs : List Char} (h : s.Takes cs s') :
    Leads (waiting, .key members s) cs (waiting, .key members s') := by
  induction h with
  | nil s => exact .refl _
  | cons hstep _ ih =>
      refine Leads.cons (leads_step (fun _ => rfl) nofun fun position => ?_) ih
      unfold Reader.step ofState
      dsimp only
      rw [hstep]
      rfl

/-- The text of a string after its opening quote. -/
theorem takes_quoted (s : String) :
    StringPhase.opened.Takes (s.toList.flatMap Text.escape) ⟨s.toList.reverse, .plain⟩ := by
  have h := StringPhase.takes_chars s.toList []
  rwa [List.append_nil] at h

theorem leads_quoted {state : State} {waiting : List Frame} (s : String)
    (hopen : Leads state ['"'] (waiting, .string .opened)) :
    Leads state (Text.quoted s) (deliver (.string s) waiting) := by
  refine hopen.cons ((leads_string waiting (takes_quoted s)).trans ?_)
  refine leads_step (fun _ => rfl) nofun fun position => ?_
  unfold Reader.step ofState
  dsimp only
  rw [StringPhase.step_closed]
  rfl

/-- A key and its colon: then a value is due. -/
theorem leads_member {state : State} {waiting : List Frame} {members : List (String × Json)}
    (key : String) (hopen : Leads state ['"'] (waiting, .key members .opened)) :
    Leads state (Text.quoted key ++ [':']) (.member members key :: waiting, .value) := by
  have hclose : Leads (waiting, .key members ⟨key.toList.reverse, .plain⟩) ['"']
      (waiting, .colon members key) := by
    refine leads_step (fun _ => rfl) nofun fun position => ?_
    unfold Reader.step ofState
    dsimp only
    rw [StringPhase.step_closed]
    rfl
  have hcolon : Leads (waiting, .colon members key) [':']
      (.member members key :: waiting, .value) := leads_structural trivial rfl rfl
  exact (hopen.cons ((leads_key waiting members (takes_quoted key)).trans hclose)).trans hcolon

/-! ### Values -/

/-- A value may begin, and these containers wait for it. -/
inductive Opens : State → List Frame → Prop where
  | value (waiting : List Frame) : Opens (waiting, .value) waiting
  | first (waiting : List Frame) : Opens (waiting, .firstItem) (.list [] :: waiting)
  | next (waiting : List Frame) (items : List Json) :
      Opens (waiting, .nextItem items) (.list items :: waiting)

/-- The first character of a value. -/
theorem Opens.leads {s s' : State} {waiting : List Frame} {c : Char} (hs : Opens s waiting)
    (hc : beginValue waiting c = .ok s') : Leads s [c] s' := by
  -- no value begins with a blank or a closing bracket
  have hblank : isBlank c = false := by
    by_contra hblank
    simp only [isBlank, Bool.not_eq_false, Bool.or_eq_true, decide_eq_true_eq] at hblank
    rcases hblank with ((rfl | rfl) | rfl) | rfl <;> cases hc
  have hclose : c ≠ ']' := by
    rintro rfl
    cases hc
  cases hs with
  | value => exact leads_structural trivial hblank hc
  | first => exact leads_structural trivial hblank ((if_neg hclose).trans hc)
  | next items => exact leads_structural trivial hblank ((if_neg hclose).trans hc)

/-- The text of a value has been read: the value has been handed over, or is a number that will be
when the next character comes. -/
inductive Ready : Json → List Frame → State → Prop where
  | delivered (v : Json) (waiting : List Frame) : Ready v waiting (deliver v waiting)
  | number {n : Number} {p : NumberPhase} (h : p.Complete n) (waiting : List Frame) :
      Ready (.number n) waiting (waiting, .number p)

/-- A number is handed over before the character that ends it is taken in. -/
theorem run_number {p : NumberPhase} {n : Number} (h : p.Complete n) {c : Char}
    (hc : c ∈ [',', ']', '}']) (waiting : List Frame) (position : Position) (cs : List Char) :
    (ofState (waiting, .number p) position).run (c :: cs) =
      (ofState (deliver (.number n) waiting) position).run (c :: cs) := by
  obtain ⟨hfinish, hstop⟩ := h
  have hsettle : (ofState (waiting, .number p) position).settle c =
      .ok (ofState (deliver (.number n) waiting) position) := by
    unfold settle ofState endNumber
    dsimp only
    rw [hstop c hc, hfinish]
    rfl
  have hsettled : (ofState (deliver (.number n) waiting) position).settle c =
      .ok (ofState (deliver (.number n) waiting) position) := by
    cases waiting with
    | nil => rfl
    | cons frame waiting => cases frame <;> rfl
  rw [run, run, hsettle, hsettled]

/-- A comma or the end of a container after a value that the container waited for. -/
theorem Ready.leads {v : Json} {frame : Frame} {waiting : List Frame} {s s' : State} {c : Char}
    (h : Ready v (frame :: waiting) s) (hc : c ∈ [',', ']', '}'])
    (hnext : structural (deliver v (frame :: waiting)).1 (deliver v (frame :: waiting)).2 c =
      .ok s') : Leads s [c] s' := by
  have hdelivered : Leads (deliver v (frame :: waiting)) [c] s' := by
    refine leads_structural ?_ ?_ hnext
    · cases frame <;> trivial
    · simp only [List.mem_cons, List.not_mem_nil, or_false] at hc
      rcases hc with rfl | rfl | rfl <;> rfl
  cases h with
  | delivered => exact hdelivered
  | number hcomplete =>
      intro position
      obtain ⟨position', hrun⟩ := hdelivered position
      refine ⟨position', fun rest => ?_⟩
      rw [← hrun]
      exact run_number hcomplete hc _ position rest

theorem beginValue_number {waiting : List Frame} {c : Char} {p : NumberPhase}
    (h : NumberPhase.start? c = some p) : beginValue waiting c = .ok (waiting, .number p) := by
  have hother : ∀ d, NumberPhase.start? d = none → c ≠ d := by
    rintro d hd rfl
    cases hd.symm.trans h
  unfold beginValue
  rw [if_neg (hother '"' rfl), if_neg (not_or.mpr ⟨hother '[' rfl, hother '{' rfl⟩),
    if_neg (hother 'n' rfl), if_neg (hother 't' rfl), if_neg (hother 'f' rfl), h]

theorem beginValue_bracket {waiting : List Frame} (h : waiting.length < depthLimit) :
    beginValue waiting '[' = .ok (waiting, .firstItem) :=
  (if_neg (Nat.not_le.mpr h))

theorem beginValue_brace {waiting : List Frame} (h : waiting.length < depthLimit) :
    beginValue waiting '{' = .ok (waiting, .firstKey) :=
  (if_neg (Nat.not_le.mpr h))

/-- A number in any spelling. -/
theorem leads_numeral {s : State} {waiting : List Frame} (hs : Opens s waiting) {p : NumberPhase}
    {cs : List Char} (h : NumberPhase.read cs = some p) : Leads s cs (waiting, .number p) := by
  cases cs with
  | nil => cases h
  | cons c cs =>
      rw [NumberPhase.read, Option.bind_eq_some_iff] at h
      obtain ⟨q, hstart, hafter⟩ := h
      exact (hs.leads (beginValue_number hstart)).cons (leads_number waiting hafter)

/-- The text of a number. -/
theorem leads_number_chars {s : State} {waiting : List Frame} (hs : Opens s waiting) {n m : Number}
    (h : n.reread = some m) : ∃ s', Ready (.number m) waiting s' ∧ Leads s n.chars s' := by
  obtain ⟨p, hread, hfinish⟩ := Number.reread_eq_some.mp h
  exact ⟨_, .number (NumberPhase.complete_of_finish hfinish) waiting, leads_numeral hs hread⟩

end Reader

/-! ## Documents -/

/-- A member whose key comes after all others is put behind them. -/
theorem insert_append {members : List (String × Json)} {key : String} {value : Json}
    (h : ∀ m ∈ members, m.1 < key) :
    Keyed.insert key value members = members ++ [(key, value)] := by
  induction members with
  | nil => rfl
  | cons m rest ih =>
      obtain ⟨hm, hrest⟩ := List.forall_mem_cons.mp h
      obtain ⟨k, v⟩ := m
      rw [Keyed.insert, if_neg (String.lt_asymm hm), if_neg (String.ne_of_lt hm).symm, ih hrest]
      rfl

theorem lt_of_sorted {before after : List (String × Json)} {key : String} {v : Json}
    (h : Keyed.Sorted (before ++ (key, v) :: after)) : ∀ m ∈ before, m.1 < key := fun m hm =>
  (List.pairwise_append.mp h).2.2 m hm (key, v) List.mem_cons_self

mutual

/-- The text of a document leads, from where a value may begin, to where it has been read, if the
containers that wait leave room for its own. -/
theorem leads_chars : ∀ (v : Json) {w : Json} {s : State} {waiting : List Frame}, Opens s waiting →
    v.Fits depthLimit waiting.length → v.reread = some w →
      ∃ s', Ready w waiting s' ∧ Leads s v.chars s'
  | .null, _, _, waiting, hs, _, rfl =>
      ⟨_, .delivered _ _, (hs.leads rfl).cons (leads_word waiting .null (List.cons_ne_nil _ _))⟩
  | .bool true, _, _, waiting, hs, _, rfl =>
      ⟨_, .delivered _ _,
        (hs.leads rfl).cons (leads_word waiting (.bool true) (List.cons_ne_nil _ _))⟩
  | .bool false, _, _, waiting, hs, _, rfl =>
      ⟨_, .delivered _ _,
        (hs.leads rfl).cons (leads_word waiting (.bool false) (List.cons_ne_nil _ _))⟩
  | .number n, _, _, _, hs, _, hw => by
      obtain ⟨m, hm, rfl⟩ := reread_number.mp hw
      exact leads_number_chars hs hm
  | .string s, _, _, _, hs, _, rfl => ⟨_, .delivered _ _, leads_quoted s (hs.leads rfl)⟩
  | .array [], _, _, _, hs, h, rfl => by
      obtain ⟨hroom, -⟩ := fits_array_iff.mp h
      refine ⟨_, .delivered _ _, (hs.leads (beginValue_bracket hroom)).cons ?_⟩
      exact leads_structural trivial rfl rfl
  | .array (v :: rest), _, _, waiting, hs, h, hw => by
      obtain ⟨hroom, hitems⟩ := fits_array_iff.mp h
      obtain ⟨hv, hrest⟩ := List.forall_mem_cons.mp hitems
      obtain ⟨_, hwitems, rfl⟩ := reread_array.mp hw
      obtain ⟨w, hwv, ws, hwrest, rfl⟩ := rereadItems_cons.mp hwitems
      obtain ⟨s', hready, hlead⟩ := leads_chars v (.first waiting) hv hwv
      have hfurther := leads_furtherItems rest hready hrest hwrest
      exact ⟨_, .delivered _ _, (hs.leads (beginValue_bracket hroom)).cons (hlead.trans hfurther)⟩
  | .object [], _, _, _, hs, h, rfl => by
      obtain ⟨hroom, -⟩ := fits_object_iff.mp h
      refine ⟨_, .delivered _ _, (hs.leads (beginValue_brace hroom)).cons ?_⟩
      exact leads_structural trivial rfl rfl
  | .object ((key, v) :: rest), _, _, waiting, hs, h, hw => by
      obtain ⟨hroom, hsorted, hmembers⟩ := fits_object_iff.mp h
      obtain ⟨hv, hrest⟩ := List.forall_mem_cons.mp hmembers
      obtain ⟨_, hwmembers, rfl⟩ := reread_object.mp hw
      -- the keys stay in order, since reading numbers again does not touch them
      have hkeys : Keyed.Sorted _ := hsorted.of_sublist (by rw [keys_of_rereadMembers hwmembers])
      obtain ⟨w, hwv, ms, hwrest, rfl⟩ := rereadMembers_cons.mp hwmembers
      have hmember : Leads (waiting, .firstKey) (Text.quoted key ++ [':']) _ :=
        leads_member key (leads_structural trivial rfl rfl)
      obtain ⟨s', hready, hlead⟩ := leads_chars v (.value (.member [] key :: waiting)) hv hwv
      have hfurther := leads_furtherMembers rest hkeys hready hrest hwrest
      refine ⟨_, .delivered _ _, (hs.leads (beginValue_brace hroom)).cons ?_⟩
      have hall := hmember.trans (hlead.trans hfurther)
      rwa [List.append_assoc] at hall

/-- The items after one that has been read, and the end of the list. -/
theorem leads_furtherItems : ∀ (items : List Json) {ws before : List Json} {v : Json}
    {waiting : List Frame} {s : State}, Ready v (.list before :: waiting) s →
      (∀ w ∈ items, w.Fits depthLimit (waiting.length + 1)) → rereadItems items = some ws →
        Leads s (furtherItems items ++ [']'])
          (deliver (.array (before.reverse ++ v :: ws)) waiting)
  | [], _, before, v, waiting, s, hs, _, rfl => by
      refine hs.leads (by simp) ?_
      show Except.ok (deliver (.array (v :: before).reverse) waiting) = _
      rw [List.reverse_cons]
  | x :: rest, _, before, v, waiting, s, hs, h, hws => by
      obtain ⟨hx, hrest⟩ := List.forall_mem_cons.mp h
      obtain ⟨w, hw, ws, hwrest, rfl⟩ := rereadItems_cons.mp hws
      have hcomma : Leads s [','] (waiting, .nextItem (v :: before)) := hs.leads (by simp) rfl
      obtain ⟨s', hready, hlead⟩ := leads_chars x (.next waiting (v :: before)) hx hw
      have hfurther := leads_furtherItems rest hready hrest hwrest
      have hall := hcomma.cons (hlead.trans hfurther)
      rw [List.reverse_cons, List.append_assoc, List.singleton_append, ← List.append_assoc] at hall
      exact hall

/-- The members after one that has been read, and the end of the object. -/
theorem leads_furtherMembers : ∀ (members : List (String × Json))
    {ms before : List (String × Json)} {key : String} {v : Json} {waiting : List Frame}
    {s : State}, Keyed.Sorted (before ++ (key, v) :: ms) → Ready v (.member before key :: waiting) s →
      (∀ m ∈ members, m.2.Fits depthLimit (waiting.length + 1)) →
        rereadMembers members = some ms →
          Leads s (furtherMembers members ++ ['}'])
            (deliver (.object (before ++ (key, v) :: ms)) waiting)
  | [], _, before, key, v, waiting, s, hsorted, hs, _, rfl => by
      refine hs.leads (by simp) ?_
      show Except.ok (deliver (.object (Keyed.insert key v before)) waiting) = _
      rw [insert_append (lt_of_sorted hsorted)]
  | (k, x) :: rest, _, before, key, v, waiting, s, hsorted, hs, h, hms => by
      obtain ⟨hx, hrest⟩ := List.forall_mem_cons.mp h
      obtain ⟨w, hw, ms, hwrest, rfl⟩ := rereadMembers_cons.mp hms
      have hcomma : Leads s [','] (waiting, .nextKey (before ++ [(key, v)])) := by
        rw [← insert_append (lt_of_sorted hsorted)]
        exact hs.leads (by simp) rfl
      have hmember : Leads (waiting, .nextKey (before ++ [(key, v)])) (Text.quoted k ++ [':']) _ :=
        leads_member k (leads_structural trivial rfl rfl)
      obtain ⟨s', hready, hlead⟩ :=
        leads_chars x (.value (.member (before ++ [(key, v)]) k :: waiting)) hx hw
      rw [List.append_cons] at hsorted ⊢
      have hfurther := leads_furtherMembers rest hsorted hready hrest hwrest
      have hall := hcomma.cons (hmember.trans (hlead.trans hfurther))
      rw [List.append_assoc, List.append_assoc] at hall
      rw [furtherMembers]
      simpa only [List.cons_append, List.append_assoc, List.nil_append] using hall

end

/-- A text is read as a document when it leads to where that has been handed over. -/
theorem readFirst_of_leads {v : Json} {text : String} {s : State} (hready : Ready v [] s)
    (hlead : Leads ([], .value) text.toList s) : readFirst text = .ok (v, none) := by
  obtain ⟨position, hrun⟩ := hlead .start
  have hend := hrun []
  rw [List.append_nil] at hend
  show (ofState ([], .value) .start).run text.toList = _
  rw [hend]
  cases hready with
  | delivered => rfl
  | number hcomplete =>
      unfold run finish endNumber ofState
      dsimp only
      rw [hcomplete.1]
      rfl

variable {v w : Json}

/-- **The compact text of a document is read as the document with its numbers read again**, if it
does not nest too deep. -/
theorem read_compact (hv : v.WellFormed) (hdepth : v.depth ≤ depthLimit)
    (hw : v.reread = some w) : read v.compact = .ok w := by
  obtain ⟨s, hready, hlead⟩ := leads_chars v (.value []) ⟨hv, hdepth⟩ hw
  refine read_eq_ok.mpr (readFirst_of_leads hready ?_)
  rwa [compact, String.toList_ofList]

/-- An object with one number in it, in any spelling. -/
theorem read_numeral (key : String) {cs : List Char} {p : NumberPhase} {n : Number}
    (h : NumberPhase.read cs = some p) (hn : p.finish = .ok n) :
    read (String.ofList ('{' :: (Text.quoted key ++ [':'] ++ (cs ++ ['}'])))) =
      .ok (.object [(key, .number n)]) := by
  have hmember : Leads ([], .firstKey) (Text.quoted key ++ [':']) ([.member [] key], .value) :=
    leads_member key (leads_structural trivial rfl rfl)
  have hnumber := leads_numeral (.value [.member [] key]) h
  have hready : Ready (.number n) [.member [] key] ([.member [] key], .number p) :=
    .number (NumberPhase.complete_of_finish hn) _
  have hend : Leads ([.member [] key], .number p) ['}'] (deliver (.object [(key, .number n)]) []) :=
    hready.leads (by simp) rfl
  have hall := ((Opens.value []).leads (beginValue_brace (by decide))).cons
    (hmember.trans (hnumber.trans hend))
  refine read_eq_ok.mpr (readFirst_of_leads (.delivered _ _) ?_)
  rwa [String.toList_ofList]

end Larder.Json
