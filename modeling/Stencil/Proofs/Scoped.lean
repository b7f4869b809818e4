/-
NAMES IN SCOPE. The scope of a render is known before the render: each statement opens a layer, closes the innermost
one, binds a name in it, or leaves the scope alone. A block is scoped if every path in it begins with a name that is
declared, or that a layer has where the path is asked for.

- `Provides.find?`: a name that is declared or that a layer has is found.
- `passes_scoped`: a scoped block comes by moments only at which the paths of the next statement begin with names that
  are found.
- `balanced_page`: a passage that was read in strict mode is scoped, and closes the layers that it opens.
-/
import Stencil.Proofs.Lookups
import Stencil.Proofs.Names
import Stencil.Proofs.Watch

namespace Stencil

/-! ## Layers of names -/

/-- the names of the layers of a scope, the innermost first -/
abbrev Layering := List (List Text)

/-- the layers after a statement -/
def Stmt.layers (ks : Layering) (s : Stmt) : Layering :=
  match s, ks with
  | .scopeLoop, ks => ["loop"] :: ks
  | .scopeForm, ks => ["form"] :: ks
  | .bind name _, k :: ks => (name :: k) :: ks
  | .scopeClose, ks => ks.drop 1
  | _, ks => ks

/-- layers with at least the names of others -/
abbrev Covers (ls ks : Layering) : Prop := List.Forall₂ (fun l k => k ⊆ l) ls ks

/-- a layer has the names -/
def Layer.Provides (l : Layer) (k : List Text) : Prop :=
  ∀ name ∈ k, name = l.shown.name ∨ (Value.find? (.text name) l.names).isSome

/-- the data have the declared names, and the layers theirs -/
structure State.Provides (names : List Text) (ks : Layering) (s : State) : Prop where
  data : ∀ name ∈ names, (Value.find? (.text name) s.data).isSome
  scope : List.Forall₂ Layer.Provides s.scope ks

/-- the path begins with a name that is found -/
def State.Roots (s : State) (path : List Segment) : Prop :=
  ∃ root rest, path = .name root :: rest ∧ (s.find? root).isSome

namespace State.Provides

variable {names : List Text} {ks ls : Layering} {s s' : State}

/-- **A name that is declared or that a layer has** is found. -/
theorem find? (h : s.Provides names ks) {name : Text} (hname : name ∈ names ++ ks.flatten) :
    (s.find? name).isSome := by
  have hfrom : ∀ {scope : List Layer} {ks : Layering}, List.Forall₂ Layer.Provides scope ks →
      name ∈ names ++ ks.flatten → (s.findFrom name scope).isSome := by
    intro scope ks hscope
    induction hscope with
    | nil =>
      intro hname
      exact h.data name (by simpa using hname)
    | @cons l k scope ks hl _ ih =>
      intro hname
      rw [State.findFrom_cons, Option.isSome_or]
      split
      · simp
      · rename_i hshown
        rw [List.flatten_cons, List.mem_append, List.mem_append] at hname
        rcases hname with hname | hname | hname
        · simp [ih (List.mem_append_left _ hname)]
        · simp [(hl name hname).resolve_left hshown]
        · simp [ih (List.mem_append_right _ hname)]
  exact hfrom h.scope hname

theorem roots (h : s.Provides names ks) {path : List Segment} (hpath : Knows (names ++ ks.flatten) path) :
    s.Roots path := by
  obtain ⟨root, rest, rfl, hroot⟩ := hpath
  exact ⟨root, rest, rfl, h.find? hroot⟩

theorem mono (h : s.Provides names ls) (hc : Covers ls ks) : s.Provides names ks where
  data := h.data
  scope := by
    obtain ⟨-, hscope⟩ := h
    generalize s.scope = scope at hscope
    induction hscope generalizing ks with
    | nil =>
      cases hc
      exact .nil
    | cons hl _ ih =>
      cases hc with
      | cons hk hc => exact .cons (fun name hname => hl name (hk hname)) (ih hc)

theorem congr (h : s.Provides names ks) (hdata : s'.data = s.data) (hscope : s'.scope = s.scope) :
    s'.Provides names ks := ⟨hdata ▸ h.data, hscope ▸ h.scope⟩

theorem bind (h : s.Provides names ks) (name : Text) (half : Half) (v : Value) :
    (s.bind name v).Provides names ((Stmt.bind name half).layers ks) := by
  have hput : ∀ (es : Entries) (a : Text), (Value.find? (.text a) es).isSome →
      (Value.find? (.text a) (Value.put (.text name) v es)).isSome := by
    intro es a ha
    rw [Value.find?_put]
    split
    · rfl
    · exact ha
  obtain ⟨hdata, hscope⟩ := h
  unfold State.bind
  generalize s.scope = scope at hscope
  cases hscope with
  | nil => exact ⟨fun a ha => hput _ a (hdata a ha), .nil⟩
  | cons hl hls =>
    refine ⟨hdata, .cons (List.forall_mem_cons.2 ⟨.inr ?_, fun a ha => (hl a ha).imp id (hput _ a)⟩) hls⟩
    rw [Value.find?_put, if_pos rfl]
    rfl

end State.Provides

/-! ## Statements -/

section

variable {names : List Text} {ks : Layering}

theorem Keeps.provides {α : Type} {x : Render α} (hx : Keeps x) :
    Leads (State.Provides names ks) x (State.Provides names ks) := by
  intro s hs a s' hrun
  have hkept := hx s s (.refl s) a s' hrun
  exact hs.congr hkept.data hkept.scope

theorem leads_provides_modify {f : State → State} (hdata : ∀ s, (f s).data = s.data)
    (hscope : ∀ s, (f s).scope = s.scope) :
    Leads (State.Provides names ks) (modify f : Render PUnit) (State.Provides names ks) :=
  leads_modify fun s hs => hs.congr (hdata s) (hscope s)

theorem leads_provides_changeLoop (g : Loop → Loop) :
    Leads (State.Provides names ks) (Render.changeLoop g) (State.Provides names ks) := by
  refine leads_get fun s hs => ?_
  split
  · exact leads_set (hs.congr rfl rfl)
  · exact leads_throw

theorem leads_provides_captureEnd (name : Text) :
    Leads (State.Provides names ks) (Render.captureEnd name) (State.Provides names ks) := by
  refine leads_get fun s hs => ?_
  unfold State.captureEnd?
  split
  · exact leads_throw
  · rename_i hs'
    split at hs'
    · cases hs'
    · cases hs'
      exact leads_bind (Q := State.Provides names ks) (leads_set (hs.congr rfl rfl)) fun _ => leads_pure fun _ h => h

/-- **A statement** leads to the layers that it says. -/
theorem leads_provides (s : Stmt) :
    Leads (State.Provides names ks) (Render.exec s) (State.Provides names (s.layers ks)) := by
  cases s
  case loopOpen n =>
    exact leads_bind (Render.keeps_entries n).provides fun es => leads_provides_modify (fun _ => rfl) fun _ => rfl
  case scopeLoop =>
    exact leads_modify fun s hs => ⟨hs.data, .cons (by simp [Layer.Provides, Shown.name]) hs.scope⟩
  case scopeForm =>
    exact leads_modify fun s hs => ⟨hs.data, .cons (by simp [Layer.Provides, Shown.name]) hs.scope⟩
  case iterationBegin n => exact leads_bind (Render.keeps_value n).provides fun v => leads_provides_changeLoop _
  case iterationEnd => exact leads_provides_changeLoop _
  case bind name half =>
    cases half <;> exact leads_bind (Render.keeps_value _).provides fun v => leads_modify fun s hs => hs.bind name _ v
  case scopeClose => exact leads_modify fun s hs => ⟨hs.data, List.forall₂_drop 1 hs.scope⟩
  case loopClose => exact leads_provides_modify (fun _ => rfl) fun _ => rfl
  case formClose => exact leads_provides_modify (fun _ => rfl) fun _ => rfl
  case captureBegin => exact leads_provides_modify (fun _ => rfl) fun _ => rfl
  case captureEnd name => exact leads_bind (leads_provides_captureEnd name) fun _ => leads_pure fun _ h => h
  case formOpen e name attributes =>
    exact leads_bind (Render.keeps_eval e).provides fun v => leads_bind (Render.keeps_makeForm _ _ _).provides fun f =>
      leads_provides_modify (fun _ => rfl) fun _ => rfl
  all_goals exact (keeps_exec (by simp [Stmt.Still])).provides

end

/-! ## Blocks -/

/-- the layers after a block; those inside of its bodies are closed there -/
def Block.layers (ks : Layering) : Block → Layering
  | done => ks
  | step s rest => rest.layers (s.layers ks)
  | nest _ _ rest => rest.layers ks

/-- every path begins with a declared name or one of the layers where it is asked for, and bodies lose no layer -/
def Block.Scoped (names : List Text) (ks : Layering) : Block → Prop
  | done => True
  | step s rest => (∀ path ∈ s.paths, Knows (names ++ ks.flatten) path) ∧ rest.Scoped names (s.layers ks)
  | nest s body rest =>
    (∀ path ∈ s.paths, Knows (names ++ ks.flatten) path) ∧ body.Scoped names ks ∧ Covers (body.layers ks) ks ∧
      rest.Scoped names ks

/-- a kind of states that statements keep, and the entries of loops -/
structure Lasting (E : State → Prop) : Prop where
  exec (s : Stmt) : Leads E (Render.exec s) E
  entries (n : Nat) : Gives E (Render.entries n)
    (fun es => ∀ e ∈ es, ∀ k, Leads E (Render.setTemporary k (.value e.1)) E ∧
      Leads E (Render.setTemporary k (.value e.2)) E) E

theorem Leads.and {α : Type} {P P' Q Q' : State → Prop} {x : Render α} (h : Leads P x Q) (h' : Leads P' x Q') :
    Leads (fun s => P s ∧ P' s) x (fun s => Q s ∧ Q' s) :=
  fun s hs a s' hrun => ⟨h s hs.1 a s' hrun, h' s hs.2 a s' hrun⟩

theorem Leads.and_gives {α : Type} {P P' Q Q' : State → Prop} {T : α → Prop} {x : Render α} (h : Leads P x Q)
    (h' : Gives P' x T Q') : Gives (fun s => P s ∧ P' s) x T (fun s => Q s ∧ Q' s) :=
  fun s hs a s' hrun => ⟨(h' s hs.2 a s' hrun).1, h s hs.1 a s' hrun, (h' s hs.2 a s' hrun).2⟩

section

variable {P : State → Prop}

theorem leads_holds (c : Condition) : Leads P (Render.holds c) P :=
  leads_get fun _ hs => leads_lift fun _ h => h ▸ hs

theorem leads_reached (path : List Segment) : Leads P (Render.reached path) P :=
  leads_get fun _ hs => leads_lift fun _ h => h ▸ hs

theorem leads_temporary (n : Nat) : Leads P (Render.temporary n) P := by
  refine leads_get fun s hs => ?_
  split
  · exact leads_pure fun _ h => h ▸ hs
  · exact leads_throw

theorem leads_textOf (n : Nat) : Leads P (Render.textOf n) P := by
  refine leads_bind (leads_temporary n) fun t => ?_
  split
  · exact leads_pure fun _ h => h
  · exact leads_throw

end

/-- **A scoped block** comes by moments only at which the paths of the next statement begin with names that are found,
while the states are of some kind that lasts. -/
theorem passes_scoped {E : State → Prop} (hE : Lasting E) {names : List Text} (b : Block) {ks : Layering}
    (hb : b.Scoped names ks) (line : Nat) (level : Int) (ran : Bool) :
    Passes (fun m => E m.state ∧ ∀ s ∈ m.next, ∀ path ∈ s.paths, m.state.Roots path)
      (fun s => s.Provides names ks ∧ E s) (b.watch line level ran)
      (fun s => s.Provides names (b.layers ks) ∧ E s) := by
  induction b generalizing ks line level ran with
  | done => exact passes_pure fun _ h => h
  | step s rest ih =>
    obtain ⟨hpaths, hrest⟩ := hb
    refine passes_step (fun st hst => ⟨hst.2, fun u hu path hpath => ?_⟩) ((leads_provides s).and (hE.exec s))
      (ih hrest _ _ _)
    cases hu
    exact hst.1.roots (hpaths path hpath)
  | nest s body rest ihb ihr =>
    obtain ⟨hpaths, hbody, hcovers, hrest⟩ := hb
    have hfirst : ∀ st : State, st.Provides names ks ∧ E st →
        E st ∧ ∀ u ∈ some s, ∀ path ∈ u.paths, st.Roots path := by
      rintro st ⟨hst, hlast⟩
      refine ⟨hlast, fun u hu path hpath => ?_⟩
      cases hu
      exact hst.roots (hpaths path hpath)
    have hinner : Passes (fun m => E m.state ∧ ∀ s ∈ m.next, ∀ path ∈ s.paths, m.state.Roots path)
        (fun st => st.Provides names ks ∧ E st)
        (do
          body.watch (line + 1) (level + 1) false
          Watch.note (line + 1 + body.size) (level + 1) none)
        (fun st => st.Provides names ks ∧ E st) :=
      passes_inner ((ihb hbody _ _ _).weaken fun st hst => ⟨hst.1.mono hcovers, hst.2⟩) fun st hst =>
        ⟨hst.2, by simp⟩
    have hafter := fun ran => ihr hrest (line + 1 + body.size) level ran
    cases s
    case forEach k n items =>
      have hset : ∀ k v, Leads (State.Provides names ks) (Render.setTemporary k (.value v)) (State.Provides names ks) :=
        fun k v => (Render.keeps_setTemporary k _).provides
      refine passes_note hfirst (passes_gives ((Render.keeps_entries items).provides.and_gives (hE.entries items))
        fun es hes => passes_bind (passes_forM fun e he => ?_) fun _ => hafter false)
      exact passes_bind (passes_lift ((hset k e.1).and (hes e he k).1)) fun _ =>
        passes_bind (passes_lift ((hset n e.2).and (hes e he n).2)) fun _ => hinner
    case when c =>
      refine passes_note hfirst (passes_bind (passes_lift (leads_holds c)) fun b => ?_)
      cases b
      · exact hafter false
      · exact passes_bind hinner fun _ => hafter true
    case elsewhen c =>
      cases ran with
      | true => exact hafter true
      | false =>
        refine passes_note hfirst (passes_bind (passes_lift (leads_holds c)) fun b => ?_)
        cases b
        · exact hafter false
        · exact passes_bind hinner fun _ => hafter true
    case otherwise =>
      cases ran
      · exact passes_bind hinner fun _ => hafter false
      · exact hafter false
    case whenReached path =>
      refine passes_note hfirst (passes_bind (passes_lift (leads_reached path)) fun b => ?_)
      cases b
      · exact hafter false
      · exact passes_bind hinner fun _ => hafter false
    case whenText n =>
      refine passes_note hfirst (passes_bind (passes_lift (leads_textOf n)) fun t => ?_)
      cases t
      · exact hafter false
      · exact passes_bind hinner fun _ => hafter true
    all_goals exact passes_note hfirst (passes_bind hinner fun _ => hafter false)

/-! ## Passages -/

/-- the block is scoped, and closes the layers that it opens -/
structure Block.Balanced (names : List Text) (ks : Layering) (b : Block) : Prop where
  known : b.Scoped names ks
  layers : b.layers ks = ks

section

variable {names : List Text} {ks : Layering} {b k : Block}

theorem layers_append (b k : Block) (ks : Layering) : (b.append k).layers ks = k.layers (b.layers ks) := by
  induction b generalizing ks with
  | done => rfl
  | step s rest ih => simp only [Block.append, Block.layers, ih]
  | nest s body rest _ ih => simp only [Block.append, Block.layers, ih]

theorem scoped_append : (b.append k).Scoped names ks ↔ b.Scoped names ks ∧ k.Scoped names (b.layers ks) := by
  induction b generalizing ks with
  | done => simp [Block.append, Block.layers, Block.Scoped]
  | step s rest ih => simp only [Block.append, Block.layers, Block.Scoped, ih, and_assoc]
  | nest s body rest _ ih => simp only [Block.append, Block.layers, Block.Scoped, ih, and_assoc]

theorem Block.Balanced.append (hb : b.Balanced names ks) (hk : k.Balanced names ks) :
    (b.append k).Balanced names ks where
  known := scoped_append.2 ⟨hb.known, hb.layers.symm ▸ hk.known⟩
  layers := by rw [layers_append, hb.layers, hk.layers]

theorem Covers.refl (ks : Layering) : Covers ks ks := by
  induction ks with
  | nil => exact .nil
  | cons k ks ih => exact .cons (List.Subset.refl k) ih

/-- a block of a body that closes its layers -/
theorem Block.Balanced.nest {s : Stmt} {body rest : Block} (hs : ∀ path ∈ s.paths, Knows (names ++ ks.flatten) path)
    (hbody : body.Balanced names ks) (hrest : rest.Balanced names ks) : (Block.nest s body rest).Balanced names ks where
  known := ⟨hs, hbody.known, hbody.layers.symm ▸ Covers.refl ks, hrest.known⟩
  layers := hrest.layers

theorem Block.Balanced.step {s : Stmt} {rest : Block} (hs : ∀ path ∈ s.paths, Knows (names ++ ks.flatten) path)
    (hlayers : s.layers ks = ks) (hrest : rest.Balanced names ks) : (Block.step s rest).Balanced names ks where
  known := ⟨hs, hlayers.symm ▸ hrest.known⟩
  layers := by rw [Block.layers, hlayers, hrest.layers]

theorem balanced_done : Block.Balanced names ks .done := ⟨trivial, rfl⟩

/-- a directive without a body -/
theorem balanced_act {a : Act} (h : ∀ path ∈ a.paths, Knows (names ++ ks.flatten) path) :
    a.block.Balanced names ks := by
  cases a with
  | remark => exact balanced_done
  | emit e => exact .step h rfl balanced_done
  | generate e name attributes submitting => exact .step h rfl balanced_done
  | _ => exact .step (by simp [Stmt.paths]) rfl balanced_done

/-- what a loop binds is in its layer where its body begins -/
theorem layers_loopBinds (names : List Text) (ks : Layering) {binds : List Text} (hshort : binds.length ≤ 2)
    (key item : Nat) (k : List Text) :
    (Block.steps (Directive.loopBinds binds key item)).Scoped names (k :: ks) ∧
      ∃ l, (Block.steps (Directive.loopBinds binds key item)).layers (k :: ks) = l :: ks ∧ k ⊆ l ∧ binds ⊆ l := by
  rcases binds with _ | ⟨a, _ | ⟨b, _ | ⟨c, more⟩⟩⟩
  · exact ⟨trivial, k, rfl, List.Subset.refl k, List.nil_subset k⟩
  · exact ⟨⟨by simp [Stmt.paths], trivial⟩, a :: k, rfl, by simp, by simp⟩
  · exact ⟨⟨by simp [Stmt.paths], by simp [Stmt.paths], trivial⟩, b :: a :: k, rfl,
      by simp [List.subset_cons_of_subset], by simp⟩
  · simp at hshort

/-- **A construct** is scoped if its body is, where the names that it binds are in scope. -/
theorem balanced_opening (o : Opening) (n : Nat) (hshort : o.binds.length ≤ 3)
    (hpaths : ∀ path ∈ o.paths, Knows (names ++ ks.flatten) path)
    (hb : ∀ ks' : Layering, o.binds ++ ks.flatten ⊆ ks'.flatten → b.Balanced names ks') :
    (o.block n b).Balanced names ks := by
  cases o with
  | loop binds path e =>
    obtain ⟨hpath, he⟩ := List.forall_mem_cons.1 hpaths
    obtain ⟨hscoped, l, hlayers, hown, hbinds⟩ :=
      layers_loopBinds names ks (Nat.le_of_succ_le_succ hshort) (n + 2) (n + 3) ["loop"]
    have hbody : b.Balanced names (l :: ks) := by
      refine hb (l :: ks) fun a ha => ?_
      simp only [Opening.binds, List.mem_append, List.mem_cons, List.flatten_cons] at ha ⊢
      rcases ha with (rfl | ha) | ha
      · exact .inl (hown (by simp))
      · exact .inl (hbinds ha)
      · exact .inr ha
    have hiteration : (Opening.iteration binds (n + 2) (n + 3) b).layers (["loop"] :: ks) = l :: ks := by
      simp only [Opening.iteration, Block.layers, Stmt.layers, layers_append, hlayers, hbody.layers]
    refine .nest (by simpa [Stmt.paths] using hpath) ⟨⟨he, by simp [Stmt.paths], by simp [Stmt.paths],
      by simp [Stmt.paths], ⟨by simp [Stmt.paths], ?_⟩, ?_, by simp [Stmt.paths], by simp [Stmt.paths], trivial⟩, rfl⟩
      balanced_done
    · exact scoped_append.2 ⟨hscoped, scoped_append.2 ⟨hlayers.symm ▸ hbody.known, by simp [Stmt.paths], trivial⟩⟩
    · show Covers ((Opening.iteration binds (n + 2) (n + 3) b).layers (["loop"] :: ks)) (["loop"] :: ks)
      rw [hiteration]
      exact .cons hown (Covers.refl ks)
  | capture name =>
    exact .step (by simp [Stmt.paths]) rfl ((hb ks (by simp [Opening.binds])).append
      (.step (by simp [Stmt.paths]) rfl balanced_done))
  | form e name attributes =>
    have hbody : b.Balanced names (["form"] :: ks) := hb _ (by simp [Opening.binds])
    refine ⟨⟨hpaths, by simp [Stmt.paths], by simp [Stmt.paths], scoped_append.2 ⟨hbody.known, by simp [Stmt.paths],
      by simp [Stmt.paths], by simp [Stmt.paths], trivial⟩⟩, ?_⟩
    simp only [Opening.block, Block.layers, Stmt.layers, layers_append, hbody.layers, List.drop_succ_cons,
      List.drop_zero]
  | phrase key params =>
    have hbody : b.Balanced names ks := hb ks (by simp [Opening.binds])
    exact .step (by simpa [Stmt.paths, Opening.paths] using hpaths) rfl (.nest (by simp [Stmt.paths])
      (.step (by simp [Stmt.paths]) rfl balanced_done)
      (.nest (by simp [Stmt.paths]) (.step (by simp [Stmt.paths]) rfl hbody) balanced_done))

end

/-- a loop has a name for the value, and may have one for the key -/
theorem names_of_loop {s : Text} {p : Directive.LoopParts} (h : Directive.loop? s = some p) : p.names.length ≤ 2 := by
  simp only [Directive.loop?, Option.bind_eq_some_iff] at h
  obtain ⟨s, -, ⟨n, rest⟩, -, h⟩ := h
  simp only at h
  split at h
  all_goals
    obtain ⟨path, -, rfl⟩ := Option.map_eq_some_iff.1 h
    simp

/-- a construct binds three names at most: its own, and those of a loop -/
theorem binds_of_read {m : Directive.Mode} {bound : List Text} {t : Token} {o : Opening}
    (h : Instruction.read m bound t = .ok (.opening o)) : o.binds.length ≤ 3 := by
  cases o with
  | loop names path e =>
    have hk : t.kind = .loop := (Instruction.fits_of_read h).1
    simp only [Instruction.read, hk, bind_eq_ok] at h
    obtain ⟨p, hp, path, -, e, -, h⟩ := h
    cases h
    simp only [Directive.loopParts, bind_eq_ok] at hp
    obtain ⟨q, hq, hp⟩ := hp
    have hnames := names_of_loop (Instruction.require_eq_ok.1 hq)
    split at hp
    · simp at hp
    · split at hp
      · simp at hp
      · cases hp
        exact Nat.succ_le_succ hnames
  | _ => simp [Opening.binds]

theorem Knows.within {names bound : List Text} {ks : Layering} {path : List Segment} (h : Knows (names ++ bound) path)
    (hbound : bound ⊆ ks.flatten) : Knows (names ++ ks.flatten) path :=
  h.mono (List.append_subset.2 ⟨List.subset_append_left _ _, fun _ h => List.mem_append_right _ (hbound h)⟩)

section

variable {m : Directive.Mode}

mutual

/-- **A passage that was read in strict mode** is scoped, and closes the layers that it opens. -/
theorem balanced_page (hm : m.strict = true) : ∀ (n : Nested) {bound : List Text} {p : Passage} {ks : Layering}
    (_ : n.page m bound = .ok p) (_ : bound ⊆ ks.flatten) (j : Nat), (p.block j).Balanced m.names ks
  | .done, _, p, ks, h, _, j => by
    cases h
    exact balanced_done
  | .single t ht rest, _, p, ks, h, hbound, j => by
    obtain ⟨a, r, hread, hr, rfl⟩ := page_single_ok h
    exact (balanced_act fun path hpath => (Instruction.knows_of_read hm hread path hpath).within hbound).append
      (balanced_page hm rest hr hbound j)
  | .construct f hf start hs body stop he rest, bound, p, ks, h, hbound, j => by
    obtain ⟨o, b, r, hread, -, hb, hr, rfl⟩ := page_construct_ok h
    refine (balanced_opening o j (binds_of_read hread)
      (fun path hpath => (Instruction.knows_of_read hm hread path hpath).within hbound) fun ks' hks' =>
        balanced_page hm body hb (fun a ha => ?_) _).append (balanced_page hm rest hr hbound _)
    rcases List.mem_append.1 ha with ha | ha
    · exact hks' (List.mem_append_right _ (hbound ha))
    · exact hks' (List.mem_append_left _ ha)
  | .conditional start hs body more rest, _, p, ks, h, hbound, j => by
    obtain ⟨c, b, ms, r, hread, hb, hms, hr, rfl⟩ := page_conditional_ok h
    exact .nest (fun path hpath => (Instruction.knows_of_read hm hread path hpath).within hbound)
      (.step (by simp [Stmt.paths]) rfl (balanced_page hm body hb hbound j))
      ((balanced_page_branches hm more hms hbound _).append (balanced_page hm rest hr hbound _))

/-- so are branches -/
theorem balanced_page_branches (hm : m.strict = true) : ∀ (b : Branches) {bound : List Text} {p : Choices}
    {ks : Layering} (_ : b.page m bound = .ok p) (_ : bound ⊆ ks.flatten) (j : Nat), (p.block j).Balanced m.names ks
  | .stop t ht, _, p, ks, h, _, j => by
    cases h
    exact balanced_done
  | .elsewhen t ht body more, _, p, ks, h, hbound, j => by
    obtain ⟨c, b, ms, hread, hb, hms, rfl⟩ := page_elsewhen_ok h
    exact .nest (fun path hpath => (Instruction.knows_of_read hm hread path hpath).within hbound)
      (.step (by simp [Stmt.paths]) rfl (balanced_page hm body hb hbound j))
      (balanced_page_branches hm more hms hbound _)
  | .otherwise t ht body stop he, _, p, ks, h, hbound, j => by
    obtain ⟨b, hb, rfl⟩ := page_otherwise_ok h
    exact .nest (by simp [Stmt.paths]) (.step (by simp [Stmt.paths]) rfl (balanced_page hm body hb hbound j))
      balanced_done

end

end

end Stencil
