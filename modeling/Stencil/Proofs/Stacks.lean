/-
STACKS. While a template renders, its stacks mirror the constructs around: the scope has a layer for every loop and
form, and as many loops, forms and captures are open as constructs of their families.

- `passes_passage`: a passage that begins in a state which mirrors the constructs around it comes by moments only that
  mirror the constructs around them, where each statement finds the loop, form, section or layer it needs.
- `stacks_mirror`: so does every template that compiles, from its first line to its last.
-/
import Stencil.Proofs.Spots

namespace Stencil

/-- the stacks of the state are those of the constructs around -/
structure State.Mirrors (s : State) (k : List Family) : Prop where
  scope : s.scope.length = k.count .loop + k.count .form
  loops : s.loops.length = k.count .loop
  forms : s.forms.length = k.count .form
  captures : s.captures.length = k.count .capture

namespace State.Mirrors

variable {s s' : State} {k : List Family}

theorem kept (h : s.Mirrors k) (hk : s.Kept s') : s'.Mirrors k where
  scope := by rw [hk.scope, h.scope]
  loops := by rw [hk.loops, h.loops]
  forms := by rw [hk.forms, h.forms]
  captures := by rw [hk.captures, h.captures]

/-- conditionals leave the stacks alone -/
theorem conditional : s.Mirrors (.conditional :: k) ↔ s.Mirrors k := by
  constructor
  · rintro ⟨h₁, h₂, h₃, h₄⟩
    exact ⟨by simpa using h₁, by simpa using h₂, by simpa using h₃, by simpa using h₄⟩
  · rintro ⟨h₁, h₂, h₃, h₄⟩
    exact ⟨by simpa using h₁, by simpa using h₂, by simpa using h₃, by simpa using h₄⟩

/-- inside a construct its family comes first -/
theorem inside (h : s.Mirrors k) {o : Opening} (ho : o.Inside s s') : s'.Mirrors (o.family :: k) := by
  cases o with
  | loop names path e =>
    obtain ⟨p, rfl⟩ := ho
    constructor <;> simp [State.inLoop, State.withLoop, Opening.family, h.scope, h.loops, h.forms, h.captures]
    omega
  | capture name =>
    obtain ⟨o, rfl⟩ := ho
    constructor <;> simp [State.inCapture, Opening.family, h.scope, h.loops, h.forms, h.captures]
  | form e name attributes =>
    obtain ⟨f, rfl⟩ := ho
    constructor <;> simp [State.inForm, State.withForm, Opening.family, h.scope, h.loops, h.forms, h.captures]
    omega
  | phrase key params =>
    obtain rfl := ho
    constructor <;> simp [Opening.family, h.scope, h.loops, h.forms, h.captures]

/-- a form is open if a construct around is one -/
theorem forms_ne_nil (h : s.Mirrors k) (hk : k.contains .form = true) : s.forms ≠ [] := by
  intro hnil
  have hcount := h.forms
  rw [hnil] at hcount
  have := List.count_pos_iff.2 (List.contains_iff_mem.1 hk)
  simp at hcount
  omega

end State.Mirrors

theorem Opening.Inside.data {o : Opening} {s s' : State} (h : o.Inside s s') : s'.data = s.data := by
  cases o with
  | phrase key params => rw [show s' = s from h]
  | _ =>
    obtain ⟨_, rfl⟩ := h
    rfl

/-! ## Moments of a part -/

/-- a moment in the lines of a part: the part begins at its level, and only deeper blocks come to its end; data are what
they were; the next statement finds what it needs; at a spot of the part the stacks mirror the constructs around -/
structure Moment.In (data : Entries) (line last : Nat) (level : Int) (ss : List Spot) (m : Moment) : Prop where
  after : line ≤ m.line
  before : m.line ≤ last
  right : level ≤ m.level
  first : m.line = line → m.level = level
  last : m.line = last → level < m.level
  data : m.state.data = data
  safe : ∀ s ∈ m.next, s.Safe m.state
  mirrors : ∀ q ∈ ss, q.line = m.line → q.level = m.level → m.state.Mirrors q.around

section

variable {data : Entries} {line inner after last final : Nat} {level deep : Int} {k k' : List Family}
  {ss bs ns rs : List Spot} {m : Moment}

/-- a moment of a part, before another one -/
theorem Moment.In.fst (hr : Charted last final level k rs) (hs : ∀ q ∈ ss, q ∈ bs ∨ q ∈ rs)
    (hm : m.In data line last level bs) : m.In data line final level ss where
  after := hm.after
  before := Nat.le_trans hm.before hr.ordered
  right := hm.right
  first := hm.first
  last := fun h => by
    have := hm.before
    have := hr.ordered
    exact hm.last (by omega)
  data := hm.data
  safe := hm.safe
  mirrors := fun q hq h h' => by
    rcases hs q hq with hq | hq
    · exact hm.mirrors q hq h h'
    · have := hm.before
      have := hr.range q hq
      have hlast := hm.last (by omega)
      rw [hr.first q hq (by omega)] at h'
      simp only at h'
      omega

/-- a moment of a part, after another one -/
theorem Moment.In.snd (hb : Charted line last level k bs) (hstart : ⟨last, level, k⟩ ∈ rs)
    (hs : ∀ q ∈ ss, q ∈ bs ∨ q ∈ rs) (hm : m.In data last final level rs) : m.In data line final level ss where
  after := Nat.le_trans hb.ordered hm.after
  before := hm.before
  right := hm.right
  first := fun h => by
    have := hb.ordered
    have := hm.after
    exact hm.first (by omega)
  last := hm.last
  data := hm.data
  safe := hm.safe
  mirrors := fun q hq h h' => by
    rcases hs q hq with hq | hq
    · have := hm.after
      have := hb.range q hq
      have hfirst := hm.first (by omega)
      rw [hb.last q hq (by omega) (by omega)]
      exact hm.mirrors _ hstart (by simp only; omega) (by simp only; omega)
    · exact hm.mirrors q hq h h'

/-- a moment at the first line of a part -/
theorem Moment.In.head (hlast : line < last) (hs : ∀ q ∈ ss, q.line = line → q.level = level → q.around = k)
    (h₁ : m.line = line) (h₂ : m.level = level) (hdata : m.state.data = data) (hsafe : ∀ s ∈ m.next, s.Safe m.state)
    (hk : m.state.Mirrors k) : m.In data line last level ss where
  after := by omega
  before := by omega
  right := by omega
  first := fun _ => h₂
  last := fun h => by omega
  data := hdata
  safe := hsafe
  mirrors := fun q hq h h' => by
    rw [hs q hq (by omega) (by omega)]
    exact hk

/-- a moment at a line that no spot is at, or none as deep -/
theorem Moment.In.apart (hs : ∀ q ∈ ss, q.line = m.line → q.level ≠ m.level) (h₁ : line < m.line) (h₂ : m.line ≤ last)
    (h₃ : level ≤ m.level) (hlast : m.line = last → level < m.level) (hdata : m.state.data = data)
    (hsafe : ∀ s ∈ m.next, s.Safe m.state) : m.In data line last level ss where
  after := by omega
  before := h₂
  right := h₃
  first := fun h => by omega
  last := hlast
  data := hdata
  safe := hsafe
  mirrors := fun q hq h h' => absurd h' (hs q hq h)

/-- a moment of the body of a construct -/
theorem Moment.In.body (hline : line < inner) (hafter : after ≤ last) (hdeep : level ≤ deep)
    (hend : after = last → level < deep) (hm : m.In data inner after deep bs) :
    m.In data line last level (⟨line, level, k⟩ :: bs) where
  after := by have := hm.after; omega
  before := by have := hm.before; omega
  right := Int.le_trans hdeep hm.right
  first := fun h => by have := hm.after; omega
  last := fun h => by
    have := hm.before
    have := hm.right
    have := hend (by omega)
    omega
  data := hm.data
  safe := hm.safe
  mirrors := fun q hq h h' => by
    rcases List.mem_cons.1 hq with rfl | hq
    · have := hm.after
      simp only at h
      omega
    · exact hm.mirrors q hq h h'

/-- the end of the body of a construct -/
theorem Moment.In.bodyEnd (hb : Charted inner after deep k' bs) (hline : line < inner) (hafter : after ≤ last)
    (hdeep : level ≤ deep) (hend : after = last → level < deep) (h₁ : m.line = after) (h₂ : m.level = deep)
    (hdata : m.state.data = data) (hsafe : ∀ s ∈ m.next, s.Safe m.state) (hk : m.state.Mirrors k') :
    m.In data line last level (⟨line, level, k⟩ :: bs) where
  after := by have := hb.ordered; omega
  before := by omega
  right := by omega
  first := fun h => by have := hb.ordered; omega
  last := fun h => by have := hend (by omega); omega
  data := hdata
  safe := hsafe
  mirrors := fun q hq h h' => by
    rcases List.mem_cons.1 hq with rfl | hq
    · have := hb.ordered
      simp only at h
      omega
    · rw [hb.last q hq (by omega) (by omega)]
      exact hk

/-- a moment of the body of a branch -/
theorem Moment.In.branchBody {e : Int} {k₀ : List Family} (hn : Branching after last level k ns) (hline : line < inner)
    (hm : m.In data inner after (level + 1) bs) : m.In data line last level (⟨line, e, k₀⟩ :: (bs ++ ns)) where
  after := by have := hm.after; omega
  before := Nat.le_trans hm.before hn.ordered
  right := by have := hm.right; omega
  first := fun h => by have := hm.after; omega
  last := fun h => by have := hm.right; omega
  data := hm.data
  safe := hm.safe
  mirrors := fun q hq h h' => by
    have := hm.after
    have := hm.before
    simp only [List.mem_cons, List.mem_append] at hq
    rcases hq with rfl | hq | hq
    · simp only at h
      omega
    · exact hm.mirrors q hq h h'
    · have := hn.range q hq
      have := hm.last (by omega)
      have := (hn.first q hq (by omega)).1
      omega

/-- the end of the body of a branch -/
theorem Moment.In.branchEnd {e : Int} {k₀ : List Family} (hb : Charted inner after (level + 1) (.conditional :: k) bs)
    (hn : Branching after last level k ns) (hline : line < inner) (h₁ : m.line = after) (h₂ : m.level = level + 1)
    (hnext : m.next = none) (hdata : m.state.data = data) (hk : m.state.Mirrors k) :
    m.In data line last level (⟨line, e, k₀⟩ :: (bs ++ ns)) where
  after := by have := hb.ordered; omega
  before := by have := hn.ordered; omega
  right := by omega
  first := fun h => by have := hb.ordered; omega
  last := fun _ => by omega
  data := hdata
  safe := by simp [hnext]
  mirrors := fun q hq h h' => by
    have hk' := State.Mirrors.conditional.2 hk
    simp only [List.mem_cons, List.mem_append] at hq
    rcases hq with rfl | hq | hq
    · have := hb.ordered
      simp only at h
      omega
    · rw [hb.last q hq (by omega) (by omega)]
      exact hk'
    · rw [(hn.first q hq (by omega)).2 (by omega)]
      exact hk'

/-- a moment of the branches after a branch -/
theorem Moment.In.branchRest {e : Int} {k₀ : List Family} (hb : Charted inner after (level + 1) k' bs)
    (hline : line < inner) (hm : m.In data after last level ns) :
    m.In data line last level (⟨line, e, k₀⟩ :: (bs ++ ns)) where
  after := by have := hb.ordered; have := hm.after; omega
  before := hm.before
  right := hm.right
  first := fun h => by have := hb.ordered; have := hm.after; omega
  last := hm.last
  data := hm.data
  safe := hm.safe
  mirrors := fun q hq h h' => by
    have := hb.ordered
    have := hm.after
    simp only [List.mem_cons, List.mem_append] at hq
    rcases hq with rfl | hq | hq
    · simp only at h
      omega
    · have := hb.range q hq
      have := hm.first (by omega)
      omega
    · exact hm.mirrors q hq h h'

theorem Moment.In.sub (hs : ∀ q ∈ ss, q ∈ bs) (hm : m.In data line last level bs) : m.In data line last level ss :=
  { hm with mirrors := fun q hq => hm.mirrors q (hs q hq) }

end

/-! ## Constructs and branches -/

section

variable {s₀ : State} {line inner after last : Nat} {level deep : Int} {k : List Family} {bs ns : List Spot}

/-- a construct around a body whose spots are charted stands in moments of its own -/
theorem framed_opening {k' : List Family} (hk : s₀.Mirrors k) (hb : Charted inner after deep k' bs)
    (hline : line < inner)
    (hafter : after ≤ last) :
    Framed (Moment.In s₀.data line last level (⟨line, level, k⟩ :: bs)) s₀ line inner after last level := by
  have := hb.ordered
  refine ⟨fun next s hs hsafe => ?_, fun l e next s hl he hdata hsafe => ?_, fun hlt s hs => ?_⟩
  · refine .head (k := k) (by omega) (fun q hq h _ => ?_) rfl rfl hs.data hsafe (hk.kept hs)
    rcases List.mem_cons.1 hq with rfl | hq
    · rfl
    · have := hb.range q hq
      omega
  · refine .apart (fun q hq h => ?_) (by simp only; omega) (by simp only; omega) he
      (fun h => by simp only at h; omega) hdata
      hsafe
    simp only at h
    rcases List.mem_cons.1 hq with rfl | hq
    · simp only at h
      omega
    · have := hb.range q hq
      omega
  · refine .apart (fun q hq h => ?_) (by simp only; omega) (by simp only; omega) (by simp only; omega)
      (fun _ => by simp only; omega) hs.data (by simp)
    simp only at h
    rcases List.mem_cons.1 hq with rfl | hq
    · simp only at h
      omega
    · have := hb.range q hq
      omega

/-- **A construct** comes by moments that mirror the constructs around them, if its body does. -/
theorem passes_construct (line : Nat) (level : Int) (o : Opening) (body : Passage) (n : Nat) (hk : s₀.Mirrors k)
    (hb : ∀ (s₁ : State) (line : Nat) (level : Int), s₁.Mirrors (o.family :: k) → Passes
      (Moment.In s₁.data line (line + (body.block (n + o.temporaries)).size) level
        (spots line level (o.family :: k) (body.marks (n + o.temporaries) (o.family :: k))))
      s₁.Kept ((body.block (n + o.temporaries)).watch line level false) s₁.Kept) :
    Passes
      (Moment.In s₀.data line
        (line + (o.first n).lines.length + (body.block (n + o.temporaries)).size + o.last.lines.length) level
        (o.spots body n line level k))
      s₀.Kept ((o.block n (body.block (n + o.temporaries))).watch line level false) s₀.Kept := by
  obtain ⟨hlines, hshift⟩ := first_lines o n
  have hend : line + (o.first n).lines.length + (body.block (n + o.temporaries)).size =
      line + (o.first n).lines.length + (body.block (n + o.temporaries)).size + o.last.lines.length →
      level < level + (o.first n).shift := by
    intro h
    have := last_lines o n (by omega)
    omega
  have hchart := charted_passage body (n + o.temporaries) (line + (o.first n).lines.length) (level + (o.first n).shift)
    (o.family :: k)
  refine passes_opening o n (plain_passage body _)
    (framed_opening hk hchart (by omega) (by omega)) rfl rfl rfl
    (fun next s₁ s hs₁ hs hsafe => ?_) fun s₁ hs₁ => ?_
  · exact .bodyEnd hchart (by omega) (by omega) (by omega) hend rfl rfl (hs.data.trans hs₁.data) hsafe
      ((hk.inside hs₁).kept hs)
  · refine (hb s₁ _ _ (hk.inside hs₁)).mono fun m hm => ?_
    rw [hs₁.data] at hm
    exact hm.body (by omega) (by omega) (by omega) hend

/-- **The body of a branch** comes by moments that mirror the constructs around them. -/
theorem passes_branch (line : Nat) (e : Int) (k₀ : List Family) (body : Passage) (more : Choices) (n : Nat)
    (hk : s₀.Mirrors k)
    (hb : Passes
      (Moment.In s₀.data (line + 2) (line + 2 + (body.block n).size) (level + 1)
        (spots (line + 2) (level + 1) (.conditional :: k) (body.marks n (.conditional :: k))))
      s₀.Kept ((body.block n).watch (line + 2) (level + 1) false) s₀.Kept) :
    Passes
      (Moment.In s₀.data line (line + 2 + (body.block n).size + (more.block (n + body.temporaries)).size) level
        (branchSpots ⟨line, e, k₀⟩ body more n line level k))
      s₀.Kept
      (do
        (Block.step .pass (body.block n)).watch (line + 1) (level + 1) false
        Watch.note (line + 1 + (Block.step .pass (body.block n)).size) (level + 1) none)
      s₀.Kept := by
  have hchart := charted_passage body n (line + 2) (level + 1) (.conditional :: k)
  have hmore := branching_choices more (n + body.temporaries) (line + 2 + (body.block n).size) level k
  have hsize : line + 1 + (Block.step .pass (body.block n)).size = line + 2 + (body.block n).size := by
    simp only [Block.size]
    omega
  rw [hsize]
  refine passes_inner (passes_step (s := .pass) (fun s hs => ?_) (keeps_exec (s := .pass) trivial s₀)
    (hb.mono fun m hm => hm.branchBody hmore (by omega))) fun s hs => ?_
  · -- the line that a branch begins with is at no spot
    refine .apart (fun q hq h => ?_) (by simp only; omega) (by simp only; omega) (by simp only; omega)
      (fun h => by simp only; omega) hs.data (by simp [Stmt.Safe])
    simp only [branchSpots, List.mem_cons, List.mem_append] at hq
    simp only at h
    rcases hq with rfl | hq | hq
    · simp only at h
      omega
    · have := hchart.range q hq
      omega
    · have := hmore.range q hq
      omega
  · exact .branchEnd hchart hmore (by omega) rfl rfl rfl hs.data (hk.kept hs)

/-- the line that heads a branch -/
theorem branch_head {e : Int} {k₀ : List Family} (hlevel : e = level → k₀ = k) (body : Passage)
    (more : Choices) (n : Nat) (hk : s₀.Mirrors k) {s : State} (hs : s₀.Kept s) {st : Stmt} (hst : st.Safe s) :
    Moment.In s₀.data line (line + 2 + (body.block n).size + (more.block (n + body.temporaries)).size) level
      (branchSpots ⟨line, e, k₀⟩ body more n line level k) ⟨line, level, some st, s⟩ := by
  have hchart := charted_passage body n (line + 2) (level + 1) (.conditional :: k)
  have hmore := branching_choices more (n + body.temporaries) (line + 2 + (body.block n).size) level k
  refine .head (k := k) (by omega) (fun q hq h h' => ?_) rfl rfl hs.data (by simpa using hst) (hk.kept hs)
  simp only [branchSpots, List.mem_cons, List.mem_append] at hq
  rcases hq with rfl | hq | hq
  · exact hlevel h'
  · have := hchart.range q hq
    omega
  · have := hmore.range q hq
    omega

end

/-! ## Passages -/

mutual

/-- every part of a form in a passage stands in a form, given whether one is around -/
def Passage.PartsIn (inForm : Bool) : Passage → Prop
  | .done => True
  | .act a rest => (a.isPart = true → inForm = true) ∧ rest.PartsIn inForm
  | .construct o body rest => body.PartsIn (inForm || o.family == .form) ∧ rest.PartsIn inForm
  | .choice _ body more rest => body.PartsIn inForm ∧ more.PartsIn inForm ∧ rest.PartsIn inForm

/-- every part of a form in the branches stands in a form -/
def Choices.PartsIn (inForm : Bool) : Choices → Prop
  | .none => True
  | .elsewhen _ body more => body.PartsIn inForm ∧ more.PartsIn inForm
  | .otherwise body => body.PartsIn inForm

end

section

variable {m : Directive.Mode}

mutual

theorem partsIn_page : ∀ (n : Nested) {bound : List Text} {p : Passage} {inForm : Bool} (_ : n.page m bound = .ok p)
    (_ : n.PartsIn inForm), p.PartsIn inForm
  | .done, _, _, _, h, _ => by
    cases h
    trivial
  | .single t ht rest, _, _, _, h, hp => by
    obtain ⟨a, r, ha, hr, rfl⟩ := page_single_ok h
    obtain ⟨-, hpart⟩ := Instruction.fits_of_read ha
    exact ⟨fun h => hp.1 (hpart.trans h), partsIn_page rest hr hp.2⟩
  | .construct f hf start hs body stop he rest, _, _, _, h, hp => by
    obtain ⟨o, b, r, -, rfl, hb, hr, rfl⟩ := page_construct_ok h
    exact ⟨partsIn_page body hb hp.1, partsIn_page rest hr hp.2⟩
  | .conditional start hs body more rest, _, _, _, h, hp => by
    obtain ⟨c, b, ms, r, -, hb, hms, hr, rfl⟩ := page_conditional_ok h
    exact ⟨partsIn_page body hb hp.1, partsIn_page_branches more hms hp.2.1, partsIn_page rest hr hp.2.2⟩

theorem partsIn_page_branches : ∀ (b : Branches) {bound : List Text} {p : Choices} {inForm : Bool}
    (_ : b.page m bound = .ok p) (_ : b.PartsIn inForm), p.PartsIn inForm
  | .stop _ _, _, _, _, h, _ => by
    cases h
    trivial
  | .elsewhen t ht body more, _, _, _, h, hp => by
    obtain ⟨c, b, ms, -, hb, hms, rfl⟩ := page_elsewhen_ok h
    exact ⟨partsIn_page body hb hp.1, partsIn_page_branches more hms hp.2⟩
  | .otherwise t ht body stop he, _, _, _, h, hp => by
    obtain ⟨b, hb, rfl⟩ := page_otherwise_ok h
    exact partsIn_page body hb hp

end

end

/-- the statement of an act finds the form that it is a part of -/
theorem safe_act {a : Act} {s : State} (h : a.isPart = true → s.forms ≠ []) :
    ∀ st ∈ a.fragment.lines.map (·.stmt), st.Safe s := by
  intro st hst
  cases a with
  | remark => simp [Act.fragment, Fragment.empty] at hst
  | _ =>
    simp only [Act.fragment, Fragment.statements, List.map_cons, List.map_nil, List.mem_singleton] at hst
    rw [hst]
    first | exact h rfl | trivial

theorem still_act (a : Act) : ∀ st ∈ a.fragment.lines.map (·.stmt), st.Still := by
  intro st hst
  cases a with
  | remark => simp [Act.fragment, Fragment.empty] at hst
  | _ =>
    simp only [Act.fragment, Fragment.statements, List.map_cons, List.map_nil, List.mem_singleton] at hst
    rw [hst]
    trivial

theorem contains_family (o : Opening) (k : List Family) :
    (o.family :: k).contains .form = (k.contains .form || o.family == .form) := by
  rw [List.contains_cons, Bool.or_comm, BEq.comm]

theorem contains_conditional (k : List Family) : (Family.conditional :: k).contains .form = k.contains .form := rfl

mutual

/-- **A passage** that begins in a state which mirrors the constructs around it comes by moments only that mirror the
constructs around them, and where every statement finds what it needs. -/
theorem passes_passage : ∀ (p : Passage) (n line : Nat) (level : Int) (k : List Family) (s₀ : State), s₀.Mirrors k →
    p.PartsIn (k.contains .form) → Passes
      (Moment.In s₀.data line (line + (p.block n).size) level (spots line level k (p.marks n k)))
      s₀.Kept ((p.block n).watch line level false) s₀.Kept
  | .done, n, line, level, k, s₀, hk, hp => passes_pure fun _ h => h
  | .act a rest, n, line, level, k, s₀, hk, hp => by
    have hchart := charted_passage rest n (line + a.fragment.lines.length) level k
    have hsize : a.block.size = a.fragment.lines.length := by simp [Act.block]
    have hone : a.fragment.lines.length ≤ 1 := by cases a <;> simp [Act.fragment, Fragment.statements, Fragment.empty]
    have hs : ∀ q ∈ spots line level k ((Passage.act a rest).marks n k), q ∈ [⟨line, level, k⟩] ∨
        q ∈ spots (line + a.fragment.lines.length) level k (rest.marks n k) := by
      rw [spots_act]
      exact fun q hq => (List.mem_cons.1 hq).imp List.mem_singleton.2 id
    rw [Passage.block, Block.watch_append _ _ (plain_passage rest n), Block.size_append, hsize, ← Nat.add_assoc]
    refine passes_bind (Q := s₀.Kept) ?_ fun _ => (passes_passage rest n _ level k s₀ hk hp.2).mono fun m hm =>
      hm.snd (charted_single (Nat.le_add_right _ _) level k) (start_mem_spots _ _ _ _) hs
    refine (passes_steps (G := Moment.In s₀.data line (line + a.fragment.lines.length) level [⟨line, level, k⟩]) false
      (fun i hi st hst s hs => ?_) fun st hst => keeps_exec (still_act a st hst) s₀).mono fun m hm => hm.fst hchart hs
    rw [List.length_map] at hi
    have hforms : a.isPart = true → s.forms ≠ [] := fun h => (hk.kept hs).forms_ne_nil (hp.1 h)
    refine .head (k := k) (by omega) (fun q hq _ _ => ?_) (by simp only; omega) rfl hs.data
      (by simpa using safe_act hforms st hst) (hk.kept hs)
    rw [List.mem_singleton.1 hq]
  | .construct o body rest, n, line, level, k, s₀, hk, hp => by
    have hbody := fun s₁ line level hk₁ =>
      passes_passage body (n + o.temporaries) line level (o.family :: k) s₁ hk₁ (by rw [contains_family]; exact hp.1)
    have hopening := passes_construct line level o body n hk hbody
    have hchart := charted_opening o body n line level k fun n line level k => charted_passage body n line level k
    rw [Passage.block, Block.watch_append _ _ (plain_passage rest _), Block.size_append, size_opening, ← Nat.add_assoc,
      ← Nat.add_assoc, ← Nat.add_assoc]
    refine passes_bind (hopening.mono fun m hm => hm.fst (charted_passage rest _ _ level k) fun q hq =>
      mem_spots_construct hq) fun _ => (passes_passage rest _ _ level k s₀ hk hp.2).mono fun m hm =>
        hm.snd hchart (start_mem_spots _ _ _ _) fun q hq => mem_spots_construct hq
  | .choice c body more rest, n, line, level, k, s₀, hk, hp => by
    have hbody := charted_passage body n (line + 2) (level + 1) (.conditional :: k)
    have hrest := charted_passage rest (n + body.temporaries + more.temporaries)
      (line + 2 + (body.block n).size + (more.block (n + body.temporaries)).size) level k
    have hchoice : Charted line (line + 2 + (body.block n).size + (more.block (n + body.temporaries)).size) level k
        (branchSpots ⟨line, level, k⟩ body more n line level k) :=
      hbody.choice (branching_choices more _ _ level k) (by omega)
    have hsize : line + 1 + (Block.step .pass (body.block n)).size = line + 2 + (body.block n).size := by
      simp only [Block.size]
      omega
    let G := Moment.In s₀.data line (line + 2 + (body.block n).size + (more.block (n + body.temporaries)).size +
      (rest.block (n + body.temporaries + more.temporaries)).size) level
        (spots line level k ((Passage.choice c body more rest).marks n k))
    rw [size_choice, ← Nat.add_assoc, ← Nat.add_assoc, ← Nat.add_assoc]
    have hinner := (passes_branch line level k body more n hk
      (passes_passage body n _ _ _ s₀ (State.Mirrors.conditional.2 hk) (by rw [contains_conditional]; exact hp.1))).mono
        fun m hm => hm.fst hrest fun q hq => mem_spots_choice (c := c) hq
    have hafter : ∀ ran, Passes G s₀.Kept (((more.block (n + body.temporaries)).append
        (rest.block (n + body.temporaries + more.temporaries))).watch
          (line + 1 + (Block.step .pass (body.block n)).size) level ran) s₀.Kept := by
      intro ran
      rw [Block.watch_append _ _ (plain_passage rest _), hsize]
      exact passes_bind ((passes_choices more _ _ level k s₀ ran hk hp.2.1).mono fun m hm =>
          (hm.branchRest hbody (by omega)).fst hrest fun q hq => mem_spots_choice (c := c) hq)
        fun _ => (passes_passage rest _ _ level k s₀ hk hp.2.2).mono fun m hm =>
          hm.snd hchoice (start_mem_spots _ _ _ _) fun q hq => mem_spots_choice (c := c) hq
    refine passes_note (fun s hs => ?_) (passes_bind (passes_lift (keeps_holds c s₀)) fun b => ?_)
    · exact (branch_head (fun _ => rfl) body more n hk hs (show Stmt.Safe s (.when c) from trivial)).fst hrest
        fun q hq =>
        mem_spots_choice (c := c) hq
    · cases b with
      | false => exact hafter false
      | true => exact passes_bind hinner fun _ => hafter true

theorem passes_choices : ∀ (more : Choices) (n line : Nat) (level : Int) (k : List Family) (s₀ : State) (ran : Bool),
    s₀.Mirrors k → more.PartsIn (k.contains .form) → Passes
      (Moment.In s₀.data line (line + (more.block n).size) level
        (spots line (level + 1) (.conditional :: k) (more.marks n k)))
      s₀.Kept ((more.block n).watch line level ran) s₀.Kept
  | .none, n, line, level, k, s₀, ran, hk, hp => passes_pure fun _ h => h
  | .elsewhen c body more, n, line, level, k, s₀, ran, hk, hp => by
    have hbody := charted_passage body n (line + 2) (level + 1) (.conditional :: k)
    have hsize : line + 1 + (Block.step .pass (body.block n)).size = line + 2 + (body.block n).size := by
      simp only [Block.size]
      omega
    have hend : line + ((Choices.elsewhen c body more).block n).size =
        line + 2 + (body.block n).size + (more.block (n + body.temporaries)).size := by
      simp only [Choices.block, Block.size]
      omega
    let G := Moment.In s₀.data line (line + 2 + (body.block n).size + (more.block (n + body.temporaries)).size) level
      (spots line (level + 1) (.conditional :: k) ((Choices.elsewhen c body more).marks n k))
    have hinner := (passes_branch line (level + 1) (.conditional :: k) body more n hk
      (passes_passage body n _ _ _ s₀ (State.Mirrors.conditional.2 hk) (by rw [contains_conditional]; exact hp.1))).mono
        fun m hm => hm.sub fun q hq => mem_spots_elsewhen (c := c) hq
    have hafter : ∀ ran, Passes G s₀.Kept ((more.block (n + body.temporaries)).watch
        (line + 1 + (Block.step .pass (body.block n)).size) level ran) s₀.Kept := by
      intro ran
      rw [hsize]
      exact (passes_choices more _ _ level k s₀ ran hk hp.2).mono fun m hm =>
        (hm.branchRest hbody (by omega)).sub fun q hq =>
          mem_spots_elsewhen (c := c) hq
    rw [hend]
    cases ran with
    | true => exact hafter true
    | false =>
      refine passes_note (fun s hs => ?_) (passes_bind (passes_lift (keeps_holds c s₀)) fun b => ?_)
      · exact (branch_head (fun h => by omega) body more n hk hs (show Stmt.Safe s (.elsewhen c) from trivial)).sub
          fun q hq => mem_spots_elsewhen hq
      · cases b with
        | false => exact hafter false
        | true => exact passes_bind hinner fun _ => hafter true
  | .otherwise body, n, line, level, k, s₀, ran, hk, hp => by
    have hend : line + ((Choices.otherwise body).block n).size =
        line + 2 + (body.block n).size + (Choices.none.block (n + body.temporaries)).size := by
      simp only [Choices.block, Block.size]
      omega
    have hinner := (passes_branch line (level + 1) (.conditional :: k) body .none n hk
      (passes_passage body n _ _ _ s₀ (State.Mirrors.conditional.2 hk) (by rw [contains_conditional]; exact hp))).mono
        fun m hm => hm.sub fun q hq => mem_spots_otherwise hq
    rw [hend]
    cases ran with
    | true => exact passes_pure fun _ h => h
    | false => exact passes_bind hinner fun _ => passes_pure fun _ h => h

end

/-! ## The constructs around a token -/

/-- reading tokens opens and closes the constructs that they say -/
theorem families_run {s s' : Nesting} {ts : List Token} (h : s.run ts = some s') :
    s'.stack.map Frame.family = ts.foldl Token.enclosing (s.stack.map Frame.family) := by
  induction ts generalizing s with
  | nil =>
    cases h
    rfl
  | cons t ts ih =>
    rw [Nesting.run, Option.bind_eq_some_iff] at h
    obtain ⟨s₁, hstep, h⟩ := h
    rw [List.foldl_cons, ih h]
    congr 1
    rcases Nesting.step_cases hstep with ⟨hs, -, rfl⟩ | ⟨f, hf, ho⟩ | ⟨he, hb⟩ | ⟨he, hb⟩ | ⟨f, hf, hc⟩
    · rw [enclosing_of_isSingle hs]
    · obtain ⟨-, rfl⟩ := Nesting.opened_some ho
      rw [enclosing_of_opener hf, List.map_cons]
    · obtain ⟨u, rest, hstack, rfl⟩ := Nesting.branched_some hb
      rw [enclosing_of_branch (.inl he), hstack, List.map_cons]
    · obtain ⟨u, rest, hstack, rfl⟩ := Nesting.branched_some hb
      rw [enclosing_of_branch (.inr he), hstack, List.map_cons, List.map_cons]
    · obtain ⟨o, rest, hstack, -, rfl⟩ := Nesting.closedBy_some hc
      rw [enclosing_of_closes? hf, hstack, List.map_cons, List.tail_cons]

/-- the families of the open constructs, the innermost first -/
def Context.families (c : Context) : List Family := c.stack.filterMap OpenConstruct.family

theorem families_nesting {c : Context} (h : c.Sound) : c.nesting.stack.map Frame.family = c.families := by
  have hall : ∀ os : List OpenConstruct, (∀ o ∈ os, ∃ f, o.family = some f) →
      (os.map OpenConstruct.frame).map Frame.family = os.filterMap OpenConstruct.family := by
    intro os
    induction os with
    | nil => exact fun _ => rfl
    | cons o os ih =>
      intro hos
      obtain ⟨f, hf⟩ := hos o List.mem_cons_self
      rw [List.map_cons, List.map_cons, List.filterMap_cons_some hf, ih fun u hu => hos u (List.mem_cons_of_mem o hu)]
      simp [OpenConstruct.frame, hf]
  exact hall c.stack fun o ho => (h o ho).1

theorem lastAround_of_enclosings {k : List Family} {ms : List Mark} {ts : List Token}
    (h : ms.map Prod.snd = enclosings k ts) : lastAround k ms = ts.foldl Token.enclosing k := by
  induction ms generalizing k ts with
  | nil =>
    cases ts with
    | nil => rfl
    | cons t ts => cases h
  | cons f ms ih =>
    cases ts with
    | nil => cases h
    | cons t ts =>
      obtain ⟨f, k'⟩ := f
      simp only [List.map_cons, enclosings, List.cons.injEq] at h
      obtain ⟨rfl, hms⟩ := h
      rw [lastAround, ih hms, List.foldl_cons]

namespace Compiler

/-- **Where the program stands after the first tokens** is a spot of the passage, inside of the constructs that
compiling them leaves open. -/
theorem spot_of_tokens {comment : Text} {m : Directive.Mode} {n : Nested} {p : Passage} {pre post : List Token}
    {fs : List Fragment} {c : Context} (hclass : ∀ t ∈ n.tokens, t.Classified (.standard comment))
    (hp : n.page m [] = .ok p) (hsplit : n.tokens = pre ++ post) {more : List Fragment}
    (hfs : p.fragments 0 = fs ++ more)
    (hpre : tokens (.standard comment) m .start pre = .ok (fs, c)) :
    ⟨(programLines fs).length, depthAfter bodyDepth fs, c.families⟩ ∈ spots 0 bodyDepth [] (p.marks 0 []) := by
  have hlength := length_tokens hpre
  have hfst : (p.marks 0 []).map Prod.fst = fs ++ more := (fst_marks p 0 []).trans hfs
  have hsnd : (p.marks 0 []).map Prod.snd = enclosings [] pre ++ enclosings (pre.foldl Token.enclosing []) post := by
    rw [marks_page n hp, hsplit, enclosings_append]
  -- the marks of the first tokens
  obtain ⟨a, b, hmarks, ha, -⟩ := List.map_eq_append_iff.1 hfst
  have hasnd : a.map Prod.snd = enclosings [] pre := by
    rw [hmarks, List.map_append] at hsnd
    refine (List.append_inj hsnd ?_).1
    rw [List.length_map, length_enclosings, ← hlength, ← ha, List.length_map]
  have hfamilies : c.families = lastAround [] a := by
    obtain ⟨hsound, hrun⟩ := run_of_tokens (fun t ht => hclass t (hsplit ▸ List.mem_append_left post ht))
      Context.sound_start hpre
    rw [lastAround_of_enclosings hasnd, ← families_nesting hsound, families_run hrun]
    rfl
  have hmem := mem_spots_prefix 0 bodyDepth [] a b
  rw [ha, Nat.zero_add] at hmem
  rw [hmarks, hfamilies, programLines, length_placeLines]
  exact hmem

/-- a complete derivation among the tokens of a template compiles to a part of the program that comes back to the
constructs around it -/
theorem part_of_tokens {comment : Text} {m : Directive.Mode} {n : Nested} {pre post : List Token} {all : List Fragment}
    {c' : Context} (hclass : ∀ t ∈ pre ++ (n.tokens ++ post), t.Classified (.standard comment))
    (h : tokens (.standard comment) m .start (pre ++ (n.tokens ++ post)) = .ok (all, c')) :
    ∃ fs c part c₁, tokens (.standard comment) m .start pre = .ok (fs, c) ∧
      tokens (.standard comment) m c n.tokens = .ok (part, c₁) ∧ c₁.stack = c.stack ∧
      Keeps ((readBlocks (placeLines (depthAfter bodyDepth fs) part)).run false) := by
  obtain ⟨fs, c, more, hpre, hmore, -⟩ := tokens_append_ok h
  obtain ⟨part, c₁, rest, hpart, -, -⟩ := tokens_append_ok hmore
  have hn : ∀ t ∈ n.tokens, t.Classified (.standard comment) := fun t ht =>
    hclass t (List.mem_append_right pre (List.mem_append_left post ht))
  obtain ⟨p, -, hfs, hstack, -⟩ := page_of_tokens n hn hpart
  refine ⟨fs, c, part, c₁, hpre, hpart, hstack, ?_⟩
  have hreads := (laidOut_passage p c.counter (depthAfter bodyDepth fs)).reads [] (outside_nil _)
  rw [List.append_nil, readBlocks, Block.append_done, ← hfs] at hreads
  rw [hreads]
  exact keeps_passage p c.counter

end Compiler

/-! ## Templates -/

namespace Compiler

/-- **The stacks mirror the constructs.** Of every render of a compiled template:

- at every moment the data are as they were given, and the next statement finds the loop, form, section or layer it
  needs;
- wherever a moment stands between two fragments, after some first tokens, the stacks have the lengths that the
  constructs left open by compiling those tokens ask for;
- a complete part of the template leaves all stacks as they were, from whatever state it is run;
- a render that comes to its end leaves nothing open. -/
theorem stacks_mirror {s : Settings} {strict : Option Bool} {names : List Text} {source : Text} {t : Template}
    (h : (standard s strict names).compile source = .ok t) :
    let compiled := tokens (standard s strict names).registry (standard s strict names).mode
    (∀ data catalog mappings asked, ∀ m ∈ t.moments (State.start data catalog mappings t.escaping asked),
      m.state.data = data ∧ (∀ next ∈ m.next, next.Safe m.state) ∧
      ∀ pre post fs c, t.tokens = pre ++ post → compiled .start pre = .ok (fs, c) →
        m.line = (programLines fs).length → m.level = depthAfter bodyDepth fs → m.state.Mirrors c.families) ∧
    (∀ pre (n : Nested) post, t.tokens = pre ++ (n.tokens ++ post) → ∃ fs c part c', compiled .start pre = .ok (fs, c) ∧
      compiled c n.tokens = .ok (part, c') ∧ c'.stack = c.stack ∧ ∀ before after,
        ((readBlocks (placeLines (depthAfter bodyDepth fs) part)).run false).run.run before = (.ok (), after) →
          before.Kept after) ∧
    (∀ data catalog mappings asked last,
      (t.program.run false).run.run (State.start data catalog mappings t.escaping asked) = (.ok (), last) →
        last.data = data ∧ last.scope = [] ∧ last.loops = [] ∧ last.forms = [] ∧ last.captures = []) := by
  intro compiled
  obtain ⟨n, hn, hparts, -⟩ := wellNested_of_compile h
  obtain ⟨p, hp, hfragments, hprogram⟩ := program_of_compile h hn
  obtain ⟨ts, all, c, hscan, htoks, -, ht, -⟩ := compile_ok h
  have htokens : t.tokens = ts := by rw [ht]; rfl
  have hall : t.fragments = all := by rw [ht]; rfl
  have hclass : ∀ u ∈ ts, u.Classified (.standard s.comment) := classified_of_scan hscan
  refine ⟨fun data catalog mappings asked m hm => ?_, fun pre n post hsplit => ?_,
    fun data catalog mappings asked last hlast => ?_⟩
  · let start := State.start data catalog mappings t.escaping asked
    have hmirrors : start.Mirrors [] := ⟨rfl, rfl, rfl, rfl⟩
    have hchart := charted_passage p 0 0 bodyDepth []
    have hsize : (programLines t.fragments).length = 0 + (p.block 0).size := by
      rw [hfragments, programLines, length_placeLines, (laidOut_passage p 0 0).size, Nat.zero_add]
    -- what holds of the moments of the program holds of the last one too
    have hpasses : Passes (fun m => m.state.data = data ∧ (∀ next ∈ m.next, next.Safe m.state) ∧
        ∀ q ∈ spots 0 bodyDepth [] (p.marks 0 []), q.line = m.line → q.level = m.level → m.state.Mirrors q.around)
        start.Kept
        (do
          t.program.watch 0 bodyDepth false
          Watch.note (programLines t.fragments).length bodyDepth none)
        start.Kept := by
      rw [hprogram]
      refine passes_inner
        ((passes_passage p 0 0 bodyDepth [] start hmirrors (partsIn_page n hp hparts)).mono fun m hm =>
        ⟨hm.data, hm.safe, hm.mirrors⟩) fun s hs => ⟨hs.data, by simp, fun q hq hline hlevel => ?_⟩
      rw [hchart.last q hq (hline.trans hsize) hlevel]
      exact hmirrors.kept hs
    obtain ⟨hdata, hsafe, hspots⟩ := ((hpasses ⟨start, []⟩ (.refl _)).1 m hm).resolve_left (by simp)
    refine ⟨hdata, hsafe, fun pre post fs c hsplit hpre hline hlevel => ?_⟩
    have hts : ts = pre ++ post := htokens.symm.trans hsplit
    obtain ⟨fs', c', more, hpre', -, hmore⟩ := tokens_append_ok (hts ▸ htoks)
    obtain ⟨rfl, rfl⟩ := Prod.mk.inj (Except.ok.inj (hpre.symm.trans hpre'))
    have hspot := spot_of_tokens (fun u hu => hclass u (htokens ▸ hn ▸ hu)) hp (hn.trans hsplit)
      (hfragments.symm.trans (hall.trans hmore)) hpre
    exact hspots _ hspot hline.symm hlevel.symm
  · have hts : ts = pre ++ (n.tokens ++ post) := htokens.symm.trans hsplit
    obtain ⟨fs, c, part, c', hpre, hpart, hstack, hkeeps⟩ := part_of_tokens (hts ▸ hclass) (hts ▸ htoks)
    exact ⟨fs, c, part, c', hpre, hpart, hstack, fun before after hrun => hkeeps before before (.refl _) () after hrun⟩
  · let start := State.start data catalog mappings t.escaping asked
    have hkept : start.Kept last := by
      rw [hprogram] at hlast
      exact keeps_passage p 0 start start (.refl _) () last hlast
    exact ⟨hkept.data, hkept.scope, hkept.loops, hkept.forms, hkept.captures⟩

/-- inside a section inside a loop, one layer, one loop and one capture are open -/
theorem stacks_in_loop_section :
    let source : Text :=
      "\x7b\x7b for a in b \x7d\x7d\x7b\x7b section c \x7d\x7dx\x7b\x7b endsection \x7d\x7d\x7b\x7b endfor \x7d\x7d"
    ∃ t, (standard .standard none []).compile source = .ok t ∧ ∀ data catalog mappings asked,
      ∀ m ∈ t.moments (State.start data catalog mappings t.escaping asked), m.line = 8 → m.level = 3 →
        m.state.Mirrors [.capture, .loop] := by
  intro source
  let pre : List Token := [⟨.loop, "for a in b", 0, 1⟩, ⟨.capture, "section c", 16, 1⟩]
  let post : List Token :=
    [⟨.literal, "x", 31, 1⟩, ⟨.closing, "endsection", 32, 1⟩, ⟨.closing, "endfor", 48, 1⟩]
  have hcompile : ((standard .standard none []).compile source).toOption.map (·.tokens) = some (pre ++ post) := by
    decide +kernel
  have hpre : (tokens (standard .standard none []).registry (standard .standard none []).mode .start pre).toOption.map
      (fun p => ((programLines p.1).length, depthAfter bodyDepth p.1, p.2.families)) =
        some (8, 3, [.capture, .loop]) := by
    decide +kernel
  obtain ⟨t, ht, htokens⟩ := Option.map_eq_some_iff.1 hcompile
  obtain ⟨⟨fs, c⟩, hfs, hplace⟩ := Option.map_eq_some_iff.1 hpre
  simp only [Prod.mk.injEq] at hplace
  obtain ⟨hline, hlevel, hfamilies⟩ := hplace
  have hok := eq_ok_of_toOption ht
  refine ⟨t, hok, fun data catalog mappings asked m hm h h' => ?_⟩
  have hmirrors := ((stacks_mirror hok).1 data catalog mappings asked m hm).2.2 pre post fs c htokens
    (eq_ok_of_toOption hfs) (h.trans hline.symm) (h'.trans hlevel.symm)
  rwa [hfamilies] at hmirrors

end Compiler

end Stencil
