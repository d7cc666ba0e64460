/-!
# Standing towards a list

A person owns a list, or has it shared for writing or for reading only. A standing this library
does not know keeps its name, and permits nothing.
-/

namespace Larder

/-- How a person stands towards a list. -/
inductive ListStatus where
  | owned
  | sharedWrite
  | sharedRead
  | other (name : String)
deriving DecidableEq

namespace ListStatus

/-- The standings with a name of their own. -/
def known : List String := ["owned", "shared_write", "shared_read"]

/-- The standing of a name. -/
def ofText (name : String) : ListStatus :=
  if name = "owned" then owned
  else if name = "shared_write" then sharedWrite
  else if name = "shared_read" then sharedRead
  else other name

/-- The name of a standing. -/
def text : ListStatus → String
  | owned => "owned"
  | sharedWrite => "shared_write"
  | sharedRead => "shared_read"
  | other name => name

/-- Whether the standing permits adding and changing items. -/
def canWrite : ListStatus → Bool
  | owned | sharedWrite => true
  | _ => false

/-- The name of a standing read from a name is that name. -/
theorem text_ofText (name : String) : (ofText name).text = name := by
  unfold ofText
  split
  · simp_all [text]
  · split
    · simp_all [text]
    · split <;> simp_all [text]

/-- A name of its own is what makes `ofText` give another standing. -/
theorem ofText_eq_other_iff {name : String} : ofText name = other name ↔ name ∉ known := by
  unfold ofText known
  split
  · simp_all
  · split
    · simp_all
    · split <;> simp_all

/-- A standing is found by its name unless it goes by the name of another. -/
theorem ofText_text_iff {s : ListStatus} :
    ofText s.text = s ↔ ∀ name, s = other name → name ∉ known := by
  cases s with
  | other name =>
    refine ofText_eq_other_iff.trans ⟨fun h name' he => ?_, fun h => h name rfl⟩
    cases he
    exact h
  | _ => exact ⟨fun _ => nofun, fun _ => by decide⟩

/-- Two names permit writing, spelled just so. -/
theorem canWrite_ofText_iff {name : String} :
    (ofText name).canWrite = true ↔ name = "owned" ∨ name = "shared_write" := by
  unfold ofText
  split
  · simp_all [canWrite]
  · split
    · simp_all [canWrite]
    · split <;> simp_all [canWrite]

end ListStatus

end Larder
