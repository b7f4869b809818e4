/-
BATCHES TAKE THEIR TEMPLATES ONE BY ONE. `Job.product?` is what a template gives when it is compiled, and rendered if
there are data, by itself; `Job.target` is the place in the output folder that its path stands for.

- `makeFolders_ok`, `makeFolders_total`: the folders of a path lead to where its names lead, and are made unless a
  file is in the way.
- `treat_step`: a template that does not stop the batch is written with its product, or fails and writes nothing.
- `treatAll_files`: the files after templates one after the other.
- `batch_isolated`: a batch whose templates are put in different places leaves exactly the products of the templates
  that do not fail, each as if its template were alone; it counts every template once, and its status tells whether
  one failed.
-/
import Stencil.Batch.Run
import Stencil.Proofs.Names
import Stencil.Proofs.Step

namespace Stencil

/-! ## Places -/

namespace Path

/-- where a name leads from a place: back, or one folder further in -/
def step (p : Path) (name : Text) : Path := if name == backName && !p.isEmpty then p.dropLast else p ++ [name]

/-- where the names of a path lead -/
def resolve (path : Path) : Path := path.foldl step []

/-- the places that a path leads through, from the first to the last -/
def visited (path : Path) : List Path := List.scanl step [] path

theorem foldl_step_mem_scanl (p path : Path) : path.foldl step p ∈ List.scanl step p path := by
  induction path generalizing p with
  | nil => simp
  | cons name path ih =>
    rw [List.scanl_cons]
    exact List.mem_cons_of_mem p (ih _)

theorem resolve_mem_visited (path : Path) : resolve path ∈ visited path := foldl_step_mem_scanl [] path

end Path

namespace Folder

variable {f f' : Folder} {p q : Path} {name : Text}

theorem isFolder_nil (f : Folder) : f.isFolder [] = true := rfl

theorem isFolder_iff : f.isFolder p = true ↔
    p = [] ∨ (∃ e ∈ f.files, isAbove p e.1 = true) ∨ ∃ q ∈ f.made, p <+: q := by
  simp [isFolder, List.isEmpty_iff, or_assoc]

/-- what is above a folder is a folder -/
theorem isFolder_of_isPrefix (h : q <+: p) (hp : f.isFolder p = true) : f.isFolder q = true := by
  rw [isFolder_iff] at hp ⊢
  rcases hp with rfl | ⟨e, he, habove⟩ | ⟨r, hr, hpr⟩
  · exact .inl (List.prefix_nil.1 h)
  · rw [isAbove, Bool.and_eq_true, List.isPrefixOf_iff_prefix, decide_eq_true_iff] at habove
    refine .inr (.inl ⟨e, he, ?_⟩)
    rw [isAbove, Bool.and_eq_true, List.isPrefixOf_iff_prefix, decide_eq_true_iff]
    exact ⟨h.trans habove.1, Nat.lt_of_le_of_lt h.length_le habove.2⟩
  · exact .inr (.inr ⟨r, hr, h.trans hpr⟩)

theorem isFolder_made_iff : isFolder { f with made := q :: f.made } p = true ↔ p <+: q ∨ f.isFolder p = true := by
  simp only [isFolder_iff, List.exists_mem_cons_iff]
  constructor
  · rintro (h | h | h | h)
    exacts [.inr (.inl h), .inr (.inr (.inl h)), .inl h, .inr (.inr (.inr h))]
  · rintro (h | h | h | h)
    exacts [.inr (.inr (.inl h)), .inl h, .inr (.inl h), .inr (.inr (.inr h))]

theorem mem_of_isFile (h : f.isFile p = true) : p ∈ f.files.map (·.1) := by
  rw [isFile, text?, getAt?, Option.isSome_map, List.find?_isSome] at h
  obtain ⟨e, he, hp⟩ := h
  exact beq_iff_eq.1 hp ▸ List.mem_map_of_mem he

/-- from a folder, a name leads on to a folder or file, or nowhere yet -/
theorem next?_cases (hp : f.isFolder p = true) (name : Text) :
    f.next? p name = some (Path.step p name) ∧
        (f.isFile (Path.step p name) = true ∨ f.isFolder (Path.step p name) = true) ∨
      f.next? p name = none ∧ Path.step p name = p ++ [name] ∧
        (name = backName ∧ p = [] ∨ f.isFolder (p ++ [name]) = false) := by
  by_cases hback : name = backName
  · cases p with
    | nil => exact .inr ⟨by simp [next?, hback, isFolder_nil], by simp [Path.step], .inl ⟨hback, rfl⟩⟩
    | cons n p =>
      have hstep : Path.step (n :: p) name = (n :: p).dropLast := by simp [Path.step, hback]
      rw [hstep]
      exact .inl ⟨by simp [next?, hp, hback], .inr (isFolder_of_isPrefix (List.dropLast_prefix _) hp)⟩
  · have hstep : Path.step p name = p ++ [name] := by simp [Path.step, hback]
    rw [hstep]
    have hnext : f.next? p name =
        if f.isFolder (p ++ [name]) || f.isFile (p ++ [name]) then some (p ++ [name]) else none := by
      simp [next?, hp, hback]
    rw [hnext]
    cases hfolder : f.isFolder (p ++ [name]) with
    | true => exact .inl ⟨by simp, .inr rfl⟩
    | false =>
      cases hfile : f.isFile (p ++ [name]) with
      | true => exact .inl ⟨by simp, .inl rfl⟩
      | false => exact .inr ⟨by simp, rfl, .inr rfl⟩

/-- **The folders of a path** that could be made: the path leads where its names lead, no file is touched, and what
was made lies on the way. -/
theorem makeFolders_ok {created : Bool} {path : Path} (hp : f.isFolder p = true)
    (h : makeFolders created p path f = .ok (q, f')) :
    q = path.foldl Path.step p ∧ f'.files = f.files ∧
      ∀ r ∈ f'.made, r ∈ f.made ∨ r ∈ List.scanl Path.step p path := by
  induction path generalizing created p f with
  | nil =>
    obtain ⟨rfl, rfl⟩ : p = q ∧ f = f' := by simpa [makeFolders] using h
    exact ⟨rfl, rfl, fun r hr => .inl hr⟩
  | cons name path ih =>
    have hlater {r : Path} (hr : r ∈ List.scanl Path.step (Path.step p name) path) :
        r ∈ List.scanl Path.step p (name :: path) := by
      rw [List.scanl_cons]
      exact List.mem_cons_of_mem p hr
    rcases next?_cases hp name with ⟨hnext, hthere⟩ | ⟨hnext, hstep, -⟩
    · rw [makeFolders, hnext] at h
      dsimp only at h
      split at h
      · simp at h
      · rename_i hfile
        obtain ⟨hq, hfiles, hmade⟩ := ih (hthere.resolve_left hfile) h
        exact ⟨hq, hfiles, fun r hr => (hmade r hr).imp id hlater⟩
    · rw [makeFolders, hnext] at h
      dsimp only at h
      split at h
      · simp at h
      · rw [← hstep] at h
        obtain ⟨hq, hfiles, hmade⟩ := ih (isFolder_made_iff.2 (.inl (List.prefix_refl _))) h
        refine ⟨hq, hfiles, fun r hr => ?_⟩
        rcases hmade r hr with hr | hr
        · rcases List.mem_cons.1 hr with rfl | hr
          · refine .inr (hlater ?_)
            cases path <;> simp [List.scanl_cons]
          · exact .inl hr
        · exact .inr (hlater hr)

/-- folders that can be made where nothing is can be made wherever no file is in the way -/
theorem makeFolders_total {created created₀ : Bool} {path : Path} {f₀ : Folder} {r₀ : Path × Folder}
    (hfiles : f₀.files = []) (hsub : ∀ r, f₀.isFolder r = true → f.isFolder r = true) (hp : f₀.isFolder p = true)
    (hclear : ∀ r ∈ List.scanl Path.step p path, f.isFile r = false)
    (h : makeFolders created₀ p path f₀ = .ok r₀) : ∃ r, makeFolders created p path f = .ok r := by
  induction path generalizing created created₀ p f f₀ with
  | nil => exact ⟨(p, f), rfl⟩
  | cons name path ih =>
    rw [List.scanl_cons, List.forall_mem_cons] at hclear
    have hfile : f.isFile (Path.step p name) = false := hclear.2 _ (by cases path <;> simp [List.scanl_cons])
    have hfile₀ (r : Path) : f₀.isFile r = false := by simp [isFile, text?, getAt?, hfiles]
    have hclear' := hclear.2
    -- with the folder made on the small side only, or on both, it has no folder that the large side lacks
    have hmade {g : Folder} (hg : ∀ r, f.isFolder r = true → g.isFolder r = true)
        (hq : g.isFolder (p ++ [name]) = true) (r : Path)
        (hr : isFolder { f₀ with made := (p ++ [name]) :: f₀.made } r = true) : g.isFolder r = true := by
      rcases isFolder_made_iff.1 hr with hr | hr
      · exact isFolder_of_isPrefix hr hq
      · exact hg r (hsub r hr)
    have hfiles' : Folder.files { f₀ with made := (p ++ [name]) :: f₀.made } = [] := hfiles
    rw [makeFolders] at h
    rw [makeFolders]
    rcases next?_cases hp name with ⟨hnext₀, hthere₀⟩ | ⟨hnext₀, hstep, hnone₀⟩ <;>
      rcases next?_cases (hsub p hp) name with ⟨hnext, hthere⟩ | ⟨hnext, hstep', hnone⟩ <;>
      simp only [hnext₀, hnext, hfile₀, hfile, Bool.false_eq_true, if_false] at h ⊢
    case inl.inl =>
      exact ih hfiles hsub (hthere₀.resolve_left (by simp [hfile₀])) hclear' h
    case inl.inr =>
      -- the name leads to a folder of the small side, which the large side has too
      rcases hnone with ⟨rfl, rfl⟩ | hnone
      · simp [next?, isFolder_nil] at hnext₀
      · have hfolder := hsub _ (hthere₀.resolve_left (by simp [hfile₀]))
        rw [hstep', hnone] at hfolder
        simp at hfolder
    case inr.inl =>
      split at h
      · simp at h
      · have hfolder := hthere.resolve_left (by simp [hfile])
        rw [hstep] at hfolder hclear' ⊢
        exact ih hfiles' (hmade (fun _ => id) hfolder) (isFolder_made_iff.2 (.inl (List.prefix_refl _))) hclear' h
    case inr.inr =>
      split at h
      · simp at h
      · rename_i hshort
        rw [if_neg hshort]
        rw [hstep] at hclear'
        have hself := isFolder_made_iff (f := f).2 (.inl (List.prefix_refl (p ++ [name])))
        exact ih hfiles' (hmade (fun r hr => isFolder_made_iff.2 (.inr hr)) hself)
          (isFolder_made_iff.2 (.inl (List.prefix_refl _))) hclear' h

theorem write_ok {content : Text} (h : f.write p name content = (f', none)) :
    f'.files = putAt (p ++ [name]) content f.files ∧ f'.made = f.made := by
  unfold write at h
  simp only at h
  split at h
  · simp at h
  · split at h
    · simp at h
    · split at h
      · obtain ⟨rfl, -⟩ := Prod.mk.inj h
        exact ⟨rfl, rfl⟩
      · simp at h

/-- a text that could be written in one folder can be written wherever no folder is in its place -/
theorem write_total {f₀ : Folder} {p₀ : Path} {content : Text} (hfolder : f.isFolder (p ++ [name]) = false)
    (h : (f₀.write p₀ name content).2 = none) : (f.write p name content).2 = none := by
  unfold write at h ⊢
  simp only at h ⊢
  split at h
  · simp at h
  · rename_i hshort
    rw [if_neg hshort, hfolder]
    split at h
    · simp at h
    · split at h
      · rename_i hwritable
        simp [hwritable]
      · simp at h

end Folder

namespace Batch

/-! ## What a template gives by itself -/

namespace Job

variable (j : Job)

/-- the suffix of what a job writes: code, or rendered text if there are data -/
def suffix : Text :=
  match j.data with
  | none => codeSuffix
  | some _ => textSuffix

/-- the place in the output folder that the path of a template stands for -/
def target (path : Path) : Path :=
  Path.resolve path.dropLast ++ [(path.withSuffix j.suffix).getLast?.getD []]

/-- what a compiled template gives: its code, or the rendered text if there are data and no failure -/
def productOf (t : Template) : Option Text :=
  match j.data with
  | none => some t.code
  | some data => (t.render (.mapping data) [] j.phrases (.mapping j.mappings)).outcome.toOption.map (·.output)

/-- what the text of a template gives, compiled by itself -/
def product? (text : Text) : Option Text :=
  (j.compiler.compile (Text.unixLines text)).toOption.bind j.productOf

/-- what came of a template is what it gives by itself, and the files are those with it -/
def Treats (path : Path) (product : Option Text) (before : Files) (t : Treated) : Prop :=
  match product with
  | some content =>
    t.result = .written (path.withSuffix j.suffix) ∧ t.folder.files = putAt (j.target path) content before
  | none => t.isFailed = true ∧ t.folder.files = before

theorem written_stop? {path place : Path} {suffix content : Text} {records : List Record} {f : Folder} :
    (j.written path place suffix content records f).stop? =
      (f.write place ((path.withSuffix suffix).getLast?.getD []) content).2.map .folder := by
  rw [written]
  cases hwrite : f.write place ((path.withSuffix suffix).getLast?.getD []) content with
  | mk f' e => cases e <;> simp [Treated.stop?]

theorem written_treats {path : Path} {content : Text} {records : List Record} {f : Folder}
    (h : (j.written path (Path.resolve path.dropLast) j.suffix content records f).stop? = none) :
    j.Treats path (some content) f.files
        (j.written path (Path.resolve path.dropLast) j.suffix content records f) ∧
      (j.written path (Path.resolve path.dropLast) j.suffix content records f).folder.made = f.made := by
  rw [written_stop?, Option.map_eq_none_iff] at h
  rw [written]
  cases hwrite : f.write (Path.resolve path.dropLast) ((path.withSuffix j.suffix).getLast?.getD []) content with
  | mk f' e =>
    rw [hwrite] at h
    obtain rfl : e = none := h
    obtain ⟨hfiles, hmade⟩ := Folder.write_ok hwrite
    exact ⟨⟨rfl, hfiles⟩, hmade⟩

/-- a template that is compiled gives its product, if it does not stop the batch -/
theorem finish_treats {path : Path} {t : Template} {f : Folder}
    (h : (j.finish path (Path.resolve path.dropLast) t f).stop? = none) :
    j.Treats path (j.productOf t) f.files (j.finish path (Path.resolve path.dropLast) t f) ∧
      (j.finish path (Path.resolve path.dropLast) t f).folder.made = f.made := by
  rw [finish] at h ⊢
  cases hdata : j.data with
  | none =>
    have hsuffix : j.suffix = codeSuffix := by rw [suffix, hdata]
    simp only [hdata, productOf] at h ⊢
    rw [← hsuffix] at h ⊢
    exact j.written_treats h
  | some data =>
    have hsuffix : j.suffix = textSuffix := by rw [suffix, hdata]
    simp only [hdata, productOf] at h ⊢
    rw [← hsuffix] at h ⊢
    cases hout : (t.render (.mapping data) [] j.phrases (.mapping j.mappings)).outcome with
    | ok o =>
      simp only [hout] at h ⊢
      exact j.written_treats h
    | error e =>
      cases e with
      | undefined reference => exact ⟨⟨rfl, rfl⟩, rfl⟩
      | _ => simp [hout, Treated.stop?] at h

/-- **One template** that does not stop the batch is written with its product, or fails and is not written; the
folders that are made lie on its path. -/
theorem treat_treats {path : Path} {text : Text} {f : Folder} (h : (j.treat path text f).stop? = none) :
    j.Treats path (j.product? text) f.files (j.treat path text f) ∧
      ∀ r ∈ (j.treat path text f).folder.made, r ∈ f.made ∨ r ∈ Path.visited path.dropLast := by
  rw [treat] at h ⊢
  rw [product?]
  cases hcompile : j.compiler.compile (Text.unixLines text) with
  | error e =>
    simp only [hcompile] at h ⊢
    cases e with
    | fault e => exact ⟨⟨rfl, rfl⟩, fun r hr => .inl hr⟩
    | _ => simp [Treated.stop?] at h
  | ok t =>
    simp only [hcompile] at h ⊢
    cases hfolders : f.makeFolders false [] path.dropLast with
    | error e => simp [hfolders, Treated.stop?] at h
    | ok r =>
      obtain ⟨place, f'⟩ := r
      obtain ⟨hplace, hfiles, hmade⟩ := Folder.makeFolders_ok f.isFolder_nil hfolders
      obtain rfl : place = Path.resolve path.dropLast := hplace
      simp only [hfolders] at h ⊢
      obtain ⟨htreats, hmade'⟩ := j.finish_treats h
      refine ⟨?_, fun r hr => hmade r (hmade' ▸ hr)⟩
      rw [← hfiles]
      exact htreats

/-! ## One template after the other -/

/-- the files with the product of one template more -/
def add (files : Files) (e : Path × Text) : Files :=
  match j.product? e.2 with
  | some content => putAt (j.target e.1) content files
  | none => files

/-- the products of templates, at their places -/
def products (templates : Files) : Files :=
  templates.filterMap fun e => (j.product? e.2).map fun content => (j.target e.1, content)

theorem Treats.files {path : Path} {text : Text} {before : Files} {t : Treated}
    (h : j.Treats path (j.product? text) before t) : t.folder.files = j.add before (path, text) := by
  cases hproduct : j.product? text with
  | none =>
    rw [hproduct] at h
    simpa [add, hproduct] using h.2
  | some content =>
    rw [hproduct] at h
    simpa [add, hproduct] using h.2

theorem Treats.isFailed {path : Path} {text : Text} {before : Files} {t : Treated}
    (h : j.Treats path (j.product? text) before t) : t.isFailed = (j.product? text).isNone ∧
      t.target?.isSome = (j.product? text).isSome := by
  cases hproduct : j.product? text with
  | none =>
    rw [hproduct] at h
    obtain ⟨hfailed, -⟩ := h
    cases hr : t.result <;> simp [Treated.isFailed, Treated.target?, hr] at hfailed ⊢
  | some content =>
    rw [hproduct] at h
    simp [Treated.isFailed, Treated.target?, h.1]

theorem treatAll_cons (f : Folder) (e : Path × Text) (rest : Files) (h : (j.treat e.1 e.2 f).stop? = none) :
    j.treatAll f (e :: rest) = j.treat e.1 e.2 f :: j.treatAll (j.treat e.1 e.2 f).folder rest := by
  rw [treatAll]
  cases hr : (j.treat e.1 e.2 f).result <;> simp [Treated.stop?, hr] at h ⊢

theorem stop?_of_treatAll {f : Folder} {e : Path × Text} {rest : Files}
    (h : ∀ t ∈ j.treatAll f (e :: rest), t.stop? = none) : (j.treat e.1 e.2 f).stop? = none := by
  apply h
  rw [treatAll]
  cases (j.treat e.1 e.2 f).result <;> simp

/-- **Templates one after the other**, none of which stops the batch: each is treated, the last folder has the files
of all, and the failed ones are those without a product. -/
theorem treatAll_files {templates : Files} {f : Folder} (h : ∀ t ∈ j.treatAll f templates, t.stop? = none) :
    (((j.treatAll f templates).getLast?.map Treated.folder).getD f).files = templates.foldl j.add f.files ∧
      (j.treatAll f templates).map Treated.isFailed = templates.map (fun e => (j.product? e.2).isNone) ∧
      (j.treatAll f templates).map (fun t => t.target?.isSome) = templates.map (fun e => (j.product? e.2).isSome) := by
  induction templates generalizing f with
  | nil => exact ⟨rfl, rfl, rfl⟩
  | cons e rest ih =>
    have hstop := j.stop?_of_treatAll h
    rw [j.treatAll_cons f e rest hstop] at h ⊢
    obtain ⟨htreats, -⟩ := j.treat_treats hstop
    obtain ⟨hfiles, hfailed, hwritten⟩ := ih (List.forall_mem_cons.1 h).2
    refine ⟨?_, ?_, ?_⟩
    · rw [List.foldl_cons, ← htreats.files, ← hfiles]
      cases hlast : (j.treatAll (j.treat e.1 e.2 f).folder rest).getLast? <;>
        simp [List.getLast?_cons, hlast]
    · rw [List.map_cons, List.map_cons, hfailed, htreats.isFailed.1]
    · rw [List.map_cons, List.map_cons, hwritten, htreats.isFailed.2]

theorem sublist_products (templates : Files) :
    ((j.products templates).map (·.1)).Sublist (templates.map fun e => j.target e.1) := by
  rw [products]
  induction templates with
  | nil => exact List.Sublist.refl _
  | cons e rest ih =>
    cases hproduct : j.product? e.2 with
    | none => simpa [List.filterMap_cons, hproduct] using ih.cons (j.target e.1)
    | some content => simpa [List.filterMap_cons, hproduct] using ih

/-- templates in different places, none of them there yet, leave their products behind the files that were there -/
theorem foldl_add {templates files : Files} (hnew : ∀ e ∈ templates, j.target e.1 ∉ files.map (·.1))
    (hplaces : (templates.map fun e => j.target e.1).Nodup) :
    templates.foldl j.add files = files ++ j.products templates := by
  induction templates generalizing files with
  | nil => simp [products]
  | cons e rest ih =>
    rw [List.forall_mem_cons] at hnew
    rw [List.map_cons, List.nodup_cons] at hplaces
    rw [List.foldl_cons]
    cases hproduct : j.product? e.2 with
    | none =>
      have hadd : j.add files e = files := by simp [add, hproduct]
      rw [hadd, ih hnew.2 hplaces.2]
      simp [products, hproduct]
    | some content =>
      have hadd : j.add files e = files ++ [(j.target e.1, content)] := by
        simp [add, hproduct, putAt_of_notMem hnew.1]
      rw [hadd, ih ?_ hplaces.2]
      · simp [products, hproduct]
      · intro e' he' hmem
        rw [List.map_append, List.mem_append, List.map_singleton, List.mem_singleton] at hmem
        rcases hmem with hmem | hmem
        · exact hnew.2 e' he' hmem
        · have hsame : j.target e'.1 = j.target e.1 := hmem
          rw [← hsame] at hplaces
          exact hplaces.1 (List.mem_map_of_mem (f := fun e => j.target e.1) he')

/-! ## What stops a batch -/

/-- no template is put where the path of one leads through -/
def Clear (templates : Files) : Prop :=
  ∀ e ∈ templates, ∀ e' ∈ templates, ∀ r ∈ Path.visited e'.1.dropLast, ¬ j.target e.1 <+: r

/-- what is in the output folder comes of the templates -/
structure Comes (templates : Files) (f : Folder) : Prop where
  files : ∀ p ∈ f.files.map (·.1), ∃ e ∈ templates, p = j.target e.1
  made : ∀ r ∈ f.made, ∃ e ∈ templates, r ∈ Path.visited e.1.dropLast

theorem finish_total {path : Path} {t : Template} {f f₀ : Folder} (hfolder : f.isFolder (j.target path) = false)
    (h : (j.finish path (Path.resolve path.dropLast) t f₀).stop? = none) :
    (j.finish path (Path.resolve path.dropLast) t f).stop? = none := by
  have hwritten {content : Text} {records : List Record} (suffix : Text) (hsuffix : suffix = j.suffix)
      (h : (j.written path (Path.resolve path.dropLast) suffix content records f₀).stop? = none) :
      (j.written path (Path.resolve path.dropLast) suffix content records f).stop? = none := by
    rw [written_stop?, Option.map_eq_none_iff] at h ⊢
    refine Folder.write_total ?_ h
    rw [hsuffix]
    exact hfolder
  rw [finish] at h ⊢
  cases hdata : j.data with
  | none =>
    simp only [hdata] at h ⊢
    exact hwritten codeSuffix (by rw [suffix, hdata]) h
  | some data =>
    simp only [hdata] at h ⊢
    cases hout : (t.render (.mapping data) [] j.phrases (.mapping j.mappings)).outcome with
    | ok o =>
      simp only [hout] at h ⊢
      exact hwritten textSuffix (by rw [suffix, hdata]) h
    | error e =>
      cases e with
      | undefined reference => rfl
      | _ => simp [hout, Treated.stop?] at h

/-- where a template is put there is no folder -/
theorem isFolder_target {templates : Files} {e : Path × Text} {f : Folder} (hclear : j.Clear templates)
    (he : e ∈ templates) (hcomes : j.Comes templates f) : f.isFolder (j.target e.1) = false := by
  rw [Bool.eq_false_iff, Ne, Folder.isFolder_iff]
  rintro (hnil | ⟨e', he', habove⟩ | ⟨r, hr, hprefix⟩)
  · simp [target] at hnil
  · obtain ⟨e₂, he₂, hplace⟩ := hcomes.files e'.1 (List.mem_map_of_mem he')
    rw [Folder.isAbove, Bool.and_eq_true, List.isPrefixOf_iff_prefix, decide_eq_true_iff, hplace] at habove
    -- a place above a file is at or above the folder that the file is in
    have hprefix : j.target e.1 <+: Path.resolve e₂.1.dropLast := by
      refine List.prefix_of_prefix_length_le habove.1 (List.prefix_append _ _) ?_
      have := habove.2
      simp only [target, List.length_append, List.length_singleton] at this ⊢
      omega
    exact hclear e he e₂ he₂ _ (Path.resolve_mem_visited _) hprefix
  · obtain ⟨e₂, he₂, hvisited⟩ := hcomes.made r hr
    exact hclear e he e₂ he₂ r hvisited hprefix

theorem Comes.treat {templates : Files} {e : Path × Text} {f : Folder} (he : e ∈ templates)
    (hcomes : j.Comes templates f) (h : (j.treat e.1 e.2 f).stop? = none) :
    j.Comes templates (j.treat e.1 e.2 f).folder := by
  obtain ⟨htreats, hmade⟩ := j.treat_treats h
  constructor
  · intro p hp
    rw [htreats.files, add] at hp
    cases hproduct : j.product? e.2 with
    | none =>
      rw [hproduct] at hp
      exact hcomes.files p hp
    | some content =>
      simp only [hproduct] at hp
      rw [keys_putAt] at hp
      split at hp
      · exact hcomes.files p hp
      · rcases List.mem_append.1 hp with hp | hp
        · exact hcomes.files p hp
        · exact ⟨e, he, List.mem_singleton.1 hp⟩
  · intro r hr
    rcases hmade r hr with hr | hr
    · exact hcomes.made r hr
    · exact ⟨e, he, hr⟩

/-- a template that does not stop a batch of its own does not stop one whose folder is clear for it -/
theorem treat_total {templates : Files} {e : Path × Text} {f : Folder} (hclear : j.Clear templates)
    (he : e ∈ templates) (hcomes : j.Comes templates f) (h : (j.treat e.1 e.2 .empty).stop? = none) :
    (j.treat e.1 e.2 f).stop? = none := by
  rw [Job.treat] at h ⊢
  cases hcompile : j.compiler.compile (Text.unixLines e.2) with
  | error r =>
    simp only [hcompile] at h ⊢
    cases r with
    | fault r => rfl
    | _ => simp [Treated.stop?] at h
  | ok t =>
    simp only [hcompile] at h ⊢
    have hfile (r : Path) (hr : r ∈ Path.visited e.1.dropLast) : f.isFile r = false := by
      rw [Bool.eq_false_iff]
      intro hfile
      obtain ⟨e', he', hplace⟩ := hcomes.files r (Folder.mem_of_isFile hfile)
      exact hclear e' he' e he r hr (hplace ▸ List.prefix_refl _)
    cases hempty : Folder.empty.makeFolders false [] e.1.dropLast with
    | error r => simp [hempty, Treated.stop?] at h
    | ok r₀ =>
      obtain ⟨⟨place, f'⟩, hfolders⟩ : ∃ r, f.makeFolders false [] e.1.dropLast = .ok r :=
        Folder.makeFolders_total rfl (by simp [Folder.empty, Folder.isFolder, List.isEmpty_iff]) rfl hfile hempty
      obtain ⟨place₀, f₀⟩ := r₀
      obtain ⟨hplace₀, -, -⟩ := Folder.makeFolders_ok Folder.empty.isFolder_nil hempty
      obtain ⟨hplace, hfiles, hmade⟩ := Folder.makeFolders_ok f.isFolder_nil hfolders
      obtain rfl : place₀ = Path.resolve e.1.dropLast := hplace₀
      obtain rfl : place = Path.resolve e.1.dropLast := hplace
      have hcomes' : j.Comes templates f' :=
        ⟨hfiles ▸ hcomes.files, fun r hr => (hmade r hr).elim (hcomes.made r) fun hr => ⟨e, he, hr⟩⟩
      simp only [hempty] at h
      simp only [hfolders]
      exact j.finish_total (j.isFolder_target hclear he hcomes') h

/-- **A batch is not stopped** if none of its templates stops a batch of its own, and none is put where the path of
one leads through. -/
theorem treatAll_total {templates rest : Files} {f : Folder} (hclear : j.Clear templates)
    (halone : ∀ e ∈ templates, (j.treat e.1 e.2 .empty).stop? = none) (hcomes : j.Comes templates f)
    (hrest : ∀ e ∈ rest, e ∈ templates) : ∀ t ∈ j.treatAll f rest, t.stop? = none := by
  induction rest generalizing f with
  | nil => simp [treatAll]
  | cons e rest ih =>
    rw [List.forall_mem_cons] at hrest
    have hstop := j.treat_total hclear hrest.1 hcomes (halone e hrest.1)
    rw [j.treatAll_cons f e rest hstop, List.forall_mem_cons]
    exact ⟨hstop, ih (Comes.treat j hrest.1 hcomes hstop) hrest.2⟩

end Job

/-! ## The outcome -/

/-- what a batch of templates leaves and tells, if every template is treated by itself -/
structure Accounted (j : Job) (templates : Files) (treated : List Treated) (o : Outcome) : Prop where
  /-- the files are the products of the templates that have one -/
  files : o.files.Perm (j.products templates)
  /-- at the place of a template is what it gives by itself, and nothing if it fails -/
  own : ∀ e ∈ templates, getAt? (j.target e.1) o.files = j.product? e.2
  /-- the failures are the templates that give nothing -/
  failures : (treated.filter Treated.isFailed).length = (templates.filter fun e => (j.product? e.2).isNone).length
  /-- every template is written or failed -/
  counted : (treated.filterMap Treated.target?).length + (treated.filter Treated.isFailed).length = templates.length
  /-- the status tells whether one failed -/
  exit : o.exit = if (treated.filter Treated.isFailed).length = 0 then 0 else 1

namespace Job

theorem stop_conclude {j : Job} {before : List Record} {treated : List Treated} :
    (conclude j before treated).stop = none ↔ ∀ t ∈ treated, t.stop? = none := by
  rw [← List.findSome?_eq_none_iff, conclude]
  cases hstop : treated.findSome? Treated.stop? with
  | some s => simp
  | none => simp only; split <;> simp

theorem files_conclude {j : Job} {before : List Record} {treated : List Treated} :
    (conclude j before treated).files = ((treated.getLast?.map Treated.folder).getD Folder.empty).listing := by
  rw [conclude]
  cases treated.findSome? Treated.stop? with
  | some s => rfl
  | none => simp only; split <;> rfl

theorem exit_conclude {j : Job} {before : List Record} {treated : List Treated}
    (h : (conclude j before treated).stop = none) :
    (conclude j before treated).exit = if (treated.filter Treated.isFailed).length = 0 then 0 else 1 := by
  rw [stop_conclude, ← List.findSome?_eq_none_iff] at h
  rw [conclude, h]
  simp only [beq_iff_eq]
  split <;> rfl

theorem accounted {j : Job} {before : List Record} {templates : Files}
    (hplaces : (templates.map fun e => j.target e.1).Nodup)
    (hstop : (conclude j before (j.treatAll .empty templates)).stop = none) :
    Accounted j templates (j.treatAll .empty templates) (conclude j before (j.treatAll .empty templates)) := by
  obtain ⟨hfiles, hfailed, hwritten⟩ := j.treatAll_files (stop_conclude.1 hstop)
  have hperm : (conclude j before (j.treatAll .empty templates)).files.Perm (j.products templates) := by
    rw [files_conclude, Folder.listing, hfiles, j.foldl_add (by simp [Folder.empty]) hplaces]
    exact List.mergeSort_perm _ _
  have hfailures : ((j.treatAll .empty templates).filter Treated.isFailed).length =
      (templates.filter fun e => (j.product? e.2).isNone).length := by
    have hcount := congrArg (List.countP id) hfailed
    rwa [List.countP_map, List.countP_map, List.countP_eq_length_filter, List.countP_eq_length_filter] at hcount
  have hproduced : ((j.treatAll .empty templates).filterMap Treated.target?).length =
      (templates.filter fun e => (j.product? e.2).isSome).length := by
    have hcount := congrArg (List.countP id) hwritten
    rw [List.countP_map, List.countP_map, List.countP_eq_length_filter (l := templates)] at hcount
    rw [List.length_filterMap_eq_countP]
    exact hcount
  refine ⟨hperm, fun e he => ?_, hfailures, ?_, exit_conclude hstop⟩
  · have hkeys : ((conclude j before (j.treatAll .empty templates)).files.map (·.1)).Nodup :=
      (hperm.map _).nodup_iff.2 ((j.sublist_products templates).nodup hplaces)
    cases hproduct : j.product? e.2 with
    | some content =>
      exact getAt?_of_mem hkeys (hperm.mem_iff.2 (List.mem_filterMap.2 ⟨e, he, by rw [hproduct]; rfl⟩))
    | none =>
      apply getAt?_eq_none
      intro hmem
      obtain ⟨file, hfile, hplace⟩ := List.mem_map.1 hmem
      obtain ⟨e', he', hproduct'⟩ := List.mem_filterMap.1 (hperm.mem_iff.1 hfile)
      obtain ⟨content, hcontent, rfl⟩ := Option.map_eq_some_iff.1 hproduct'
      -- no other template is put in this place
      obtain rfl : e' = e := List.inj_on_of_nodup_map hplaces he' he hplace
      rw [hproduct] at hcontent
      cases hcontent
  · rw [hproduced, hfailures]
    have hsplit := List.length_eq_length_filter_add (l := templates) fun e => (j.product? e.2).isSome
    simpa only [Option.not_isSome] using hsplit.symm

end Job

/-- **Batches take their templates one by one.** Let templates be put in different places. If none of them stops a
batch of its own, and none is put where the path of one leads through, then they do not stop the batch. If the batch
is not stopped, so that each template that fails does so by a fault of its directives or by a reference that reaches
nothing, then what it leaves is what each template gives by itself, every template is counted, and the status tells
whether one failed; and a template that stands in another such batch too gives the same there, whatever stands
beside it. -/
theorem batch_isolated (j : Job) (before : List Record) {templates : Files}
    (hplaces : (templates.map fun e => j.target e.1).Nodup) :
    (j.Clear templates → (∀ e ∈ templates, (j.treat e.1 e.2 .empty).stop? = none) →
      (conclude j before (j.treatAll .empty templates)).stop = none) ∧
    ((conclude j before (j.treatAll .empty templates)).stop = none →
      Accounted j templates (j.treatAll .empty templates) (conclude j before (j.treatAll .empty templates)) ∧
      ∀ before' templates', (templates'.map fun e => j.target e.1).Nodup →
        (conclude j before' (j.treatAll .empty templates')).stop = none → ∀ e ∈ templates, e ∈ templates' →
          getAt? (j.target e.1) (conclude j before (j.treatAll .empty templates)).files =
            getAt? (j.target e.1) (conclude j before' (j.treatAll .empty templates')).files) := by
  constructor
  · intro hclear halone
    have hcomes : j.Comes templates .empty := ⟨by simp [Folder.empty], by simp [Folder.empty]⟩
    exact Job.stop_conclude.2 (j.treatAll_total hclear halone hcomes fun _ => id)
  · intro hstop
    have haccounted := Job.accounted hplaces hstop
    refine ⟨haccounted, ?_⟩
    intro before' templates' hplaces' hstop' e he he'
    rw [haccounted.own e he, (Job.accounted hplaces' hstop').own e he']

/-- a template that is rendered between one that is refused and one that reaches nothing -/
theorem batch_of_three :
    let j : Job := ⟨true, 1, "out", some [(.text "x", .text "<y>")], none, []⟩
    let templates : Files :=
      [([['a'], "bad.tpl".toList], "\x7b\x7b for \x7d\x7d".toList),
       ([['a'], "good.tpl".toList], "\x7b\x7b x \x7d\x7d!".toList),
       (["lost.tpl".toList], "\x7b\x7b x.z \x7d\x7d".toList)]
    (templates.map fun e => j.target e.1).Nodup ∧
      (conclude j [] (j.treatAll .empty templates)).stop = none ∧
      (conclude j [] (j.treatAll .empty templates)).files = [([['a'], "good.html".toList], "&lt;y&gt;!".toList)] ∧
      Accounted j templates (j.treatAll .empty templates) (conclude j [] (j.treatAll .empty templates)) := by
  intro j templates
  have hplaces : (templates.map fun e => j.target e.1).Nodup := by decide
  have hclear : j.Clear templates := by unfold Job.Clear; decide
  have halone : ∀ e ∈ templates, (j.treat e.1 e.2 .empty).stop? = none := by decide +kernel
  obtain ⟨hunstopped, haccounted⟩ := batch_isolated j [] hplaces
  have hstop := hunstopped hclear halone
  exact ⟨hplaces, hstop, by decide +kernel, (haccounted hstop).1⟩

end Batch

end Stencil
