/-
SECTIONS ARE TRANSPARENT. A render keeps what the body of a section writes apart until the section ends, then keeps it
under the section's name and writes it where the section stands. This comes to the same as writing the body straight to
the output: the sections can be left out of a template without changing what it writes or how it fails.

What is kept is told by an account of the render. There all writing goes to the one output, and whenever a section is
completed, its name and what its body has added to the output are put on the account.
- `parallel_passage`: two ways to do sections that agree on one section agree on a passage.
- `agreeing_record`, `agreeing_bare`: keeping a section agrees with putting it on the account, and with leaving it out.
- `names_kept`, `getAt?_kept`: what is kept of the sections that were completed, one after the other.
- `sections_transparent`: both for every template that compiles.
-/
import Stencil.Proofs.Simulation
import Stencil.Proofs.Unsectioned

namespace Stencil

/-! ## Ways to do sections -/

/-- what becomes of a section, by its name and what its body does -/
abbrev SectionWay := Text → Direct Unit → Direct Unit

namespace Direct

/-- a body done where it stands, and its name put on the account with what it has added to the output -/
def record : SectionWay := fun name body => do
  let before ← get
  body
  modify fun p => { p with sections := p.sections ++ [(name, p.output.drop before.output.length)] }

/-- a body done as if there were no section -/
def bare : SectionWay := fun _ body => body

/-- work rendered: what it writes on an empty page -/
def render (x : Env → Direct Unit) (escaping : Bool) (data : Value) (values : List (Text × Value)) (phrases : Phrases)
    (mappings : Value) : Rendered :=
  match Template.scopeOf data values with
  | .error e => ⟨.error e, []⟩
  | .ok es =>
    match phrases.toCatalog.run.run [] with
    | (.error e, _) => ⟨.error e, []⟩
    | (.ok c, asked) =>
      match (x ⟨es, c, mappings.orEmpty, escaping, [], [], []⟩).run.run ⟨[], [], [], asked⟩ with
      | (.ok (), page) => ⟨.ok ⟨page.output, page.sections⟩, page.messages⟩
      | (.error e, page) => ⟨.error e, page.messages⟩

end Direct

/-- a construct interpreted, its sections done in some way -/
def Opening.interpret (way : SectionWay) (env : Env) (body : Env → Direct Unit) : Opening → Direct Unit
  | capture name => way name (body env)
  | o => o.direct env body

mutual

/-- a passage interpreted, its sections done in some way -/
def Passage.interpret (way : SectionWay) (env : Env) : Passage → Direct Unit
  | .done => pure ()
  | .act a rest => do
    a.direct env
    rest.interpret way env
  | .construct o body rest => do
    o.interpret way env fun env' => body.interpret way env'
    rest.interpret way env
  | .choice c body more rest => do
    if ← Direct.holds env c then body.interpret way env else more.interpret way env
    rest.interpret way env

/-- the first of the branches whose condition holds interpreted, its sections done in some way -/
def Choices.interpret (way : SectionWay) (env : Env) : Choices → Direct Unit
  | .none => pure ()
  | .elsewhen c body more => do
    if ← Direct.holds env c then body.interpret way env else more.interpret way env
  | .otherwise body => body.interpret way env

end

/-- **The account of a render**: all writing goes to one output, and the sections are those that were completed, one
after the other, each with what its body added to the output. -/
def Passage.account (p : Passage) : Bool → Value → List (Text × Value) → Phrases → Value → Rendered :=
  Direct.render fun env => p.interpret Direct.record env

mutual

/-- sections kept as a render keeps them -/
theorem interpret_capture : ∀ (p : Passage) (env : Env), p.interpret Direct.capture env = p.direct env
  | .done, env => by rw [Passage.interpret, Passage.direct]
  | .act a rest, env => by rw [Passage.interpret, Passage.direct, interpret_capture rest]
  | .construct o body rest, env => by
    have hbody : (fun env' => body.interpret Direct.capture env') = fun env' => body.direct env' :=
      funext fun env' => interpret_capture body env'
    rw [Passage.interpret, Passage.direct, interpret_capture rest, hbody]
    cases o <;> rfl
  | .choice c body more rest, env => by
    rw [Passage.interpret, Passage.direct, interpret_capture rest, interpret_capture body,
      interpret_capture_choices more]

/-- sections of branches kept as a render keeps them -/
theorem interpret_capture_choices : ∀ (more : Choices) (env : Env),
    more.interpret Direct.capture env = more.direct env
  | .none, env => by rw [Choices.interpret, Choices.direct]
  | .elsewhen c body more, env => by
    rw [Choices.interpret, Choices.direct, interpret_capture body, interpret_capture_choices more]
  | .otherwise body, env => by rw [Choices.interpret, Choices.direct, interpret_capture body]

end

/-- passages one after the other are interpreted one after the other -/
theorem direct_append : ∀ (a b : Passage) (env : Env), (a.append b).direct env = do a.direct env; b.direct env
  | .done, b, env => by rw [Passage.append, Passage.direct, pure_bind]
  | .act x rest, b, env => by simp only [Passage.append, Passage.direct, direct_append rest b env, bind_assoc]
  | .construct o body rest, b, env => by
    simp only [Passage.append, Passage.direct, direct_append rest b env, bind_assoc]
  | .choice c body more rest, b, env => by
    simp only [Passage.append, Passage.direct, direct_append rest b env, bind_assoc]
    refine bind_congr fun holds => ?_
    cases holds <;> simp only [Bool.false_eq_true, if_true, if_false, bind_assoc]

mutual

/-- **A passage with its sections left out** does what it does without its sections. -/
theorem interpret_bare : ∀ (p : Passage) (env : Env), p.interpret Direct.bare env = p.unsectioned.direct env
  | .done, env => by rw [Passage.interpret, Passage.unsectioned, Passage.direct]
  | .act a rest, env => by rw [Passage.interpret, Passage.unsectioned, Passage.direct, interpret_bare rest]
  | .construct o body rest, env => by
    have hbody : (fun env' => body.interpret Direct.bare env') = fun env' => body.unsectioned.direct env' :=
      funext fun env' => interpret_bare body env'
    rw [Passage.interpret, interpret_bare rest, hbody, Passage.unsectioned]
    cases o with
    | capture name =>
      simp only [Opening.family, if_true]
      rw [direct_append]
      rfl
    | _ => rfl
  | .choice c body more rest, env => by
    rw [Passage.interpret, Passage.unsectioned, Passage.direct, interpret_bare rest, interpret_bare body,
      interpret_bare_choices more]

/-- branches with their sections left out do what they do without their sections -/
theorem interpret_bare_choices : ∀ (more : Choices) (env : Env),
    more.interpret Direct.bare env = more.unsectioned.direct env
  | .none, env => by rw [Choices.interpret, Choices.unsectioned, Choices.direct]
  | .elsewhen c body more, env => by
    rw [Choices.interpret, Choices.unsectioned, Choices.direct, interpret_bare body, interpret_bare_choices more]
  | .otherwise body, env => by rw [Choices.interpret, Choices.unsectioned, Choices.direct, interpret_bare body]

end

/-! ## Work on two pages -/

namespace Direct

/-- outcomes that are the same: equal values and related pages, or equal failures and messages -/
inductive Alike {α : Type} (R : Page → Page → Prop) : Except Failure α × Page → Except Failure α × Page → Prop where
  | ok {a : α} {p q : Page} (h : R p q) : Alike R (.ok a, p) (.ok a, q)
  | error {e : Failure} {p q : Page} (h : q.messages = p.messages) : Alike R (.error e, p) (.error e, q)

/-- from related pages the outcomes of the work are the same -/
def Parallel {α : Type} (R : Page → Page → Prop) (x y : Direct α) : Prop :=
  ∀ p q, R p q → Alike R (x.run.run p) (y.run.run q)

section

variable {α β : Type} {R : Page → Page → Prop}

theorem parallel_pure (a : α) : Parallel R (pure a) (pure a) := fun _ _ h => .ok h

theorem parallel_bind {x y : Direct α} {f g : α → Direct β} (hx : Parallel R x y) (hf : ∀ a, Parallel R (f a) (g a)) :
    Parallel R (x >>= f) (y >>= g) := by
  intro p q h
  have hone := hx p q h
  rw [run_bind, run_bind]
  generalize x.run.run p = u at hone ⊢
  generalize y.run.run q = v at hone ⊢
  cases hone with
  | ok h => exact hf _ _ _ h
  | error h => exact .error h

theorem parallel_mapM {f : α → Direct β} (hf : ∀ a, Parallel R (f a) (f a)) (as : List α) :
    Parallel R (as.mapM f) (as.mapM f) := by
  induction as with
  | nil => exact parallel_pure []
  | cons a as ih =>
    rw [List.mapM_cons]
    exact parallel_bind (hf a) fun _ => parallel_bind ih fun _ => parallel_pure _

theorem parallel_forM {f g : α → Direct PUnit} (hf : ∀ a, Parallel R (f a) (g a)) (as : List α) :
    Parallel R (as.forM f) (as.forM g) := by
  induction as with
  | nil => exact parallel_pure PUnit.unit
  | cons a as ih => exact parallel_bind (hf a) fun _ => ih

end

/-- a page beside one on which more was written before, their sections related in view of the output -/
structure Beside (S : List (Text × Text) → List (Text × Text) → Text → Prop) (before : Text) (p q : Page) : Prop where
  output : q.output = before ++ p.output
  sections : S p.sections q.sections q.output
  messages : q.messages = p.messages
  asked : q.asked = p.asked

/-- sections that are related stay so whatever is written -/
def Lasts (S : List (Text × Text) → List (Text × Text) → Text → Prop) : Prop :=
  ∀ a b u v, S a b u → S a b (u ++ v)

section

variable {S : List (Text × Text) → List (Text × Text) → Text → Prop} {before : Text} {α : Type} {env : Env}

/-- work that depends on nothing but what was asked, and leaves the page -/
theorem parallel_known {x : Direct α} (r : Asked → Except Failure α)
    (hx : ∀ p : Page, x.run.run p = (r p.asked, p)) : Parallel (Beside S before) x x := by
  intro p q h
  rw [hx, hx, h.asked]
  cases r p.asked with
  | ok a => exact .ok h
  | error e => exact .error h.messages

theorem parallel_lift (x : Except Failure α) : Parallel (Beside S before) (liftM x : Direct α) (liftM x) :=
  parallel_known (fun _ => x) fun _ => rfl

theorem parallel_eval (e : Expr) : Parallel (Beside S before) (eval env e) (eval env e) :=
  parallel_known (fun asked => e.eval (env.reach asked)) fun _ => rfl

theorem parallel_holds (c : Condition) : Parallel (Beside S before) (holds env c) (holds env c) :=
  parallel_known (fun asked => c.eval (env.reach asked)) fun _ => rfl

theorem parallel_reached (path : List Segment) : Parallel (Beside S before) (reached env path) (reached env path) :=
  parallel_known (fun asked => reaches (env.reach asked) path) fun _ => rfl

theorem parallel_work (w : Work α) : Parallel (Beside S before) (work w) (work w) := by
  intro p q h
  have hrun : ∀ p : Page, (work w).run.run p = ((w.run.run p.asked).1, { p with asked := (w.run.run p.asked).2 }) :=
    fun _ => rfl
  rw [hrun, hrun, h.asked]
  cases (w.run.run p.asked).1 with
  | ok a => exact .ok ⟨h.output, h.sections, h.messages, rfl⟩
  | error e => exact .error h.messages

theorem parallel_write (hS : Lasts S) (t : Text) : Parallel (Beside S before) (write t) (write t) := by
  intro p q h
  refine .ok ⟨?_, hS _ _ _ t h.sections, h.messages, h.asked⟩
  show q.output ++ t = before ++ (p.output ++ t)
  rw [h.output, List.append_assoc]

theorem parallel_emit (hS : Lasts S) (v : Value) : Parallel (Beside S before) (emit env v) (emit env v) :=
  parallel_bind (parallel_lift _) fun t => parallel_write hS t

theorem parallel_makeForm (entity : Value) (name : Text) (attributes : Value) :
    Parallel (Beside S before) (makeForm env entity name attributes) (makeForm env entity name attributes) :=
  parallel_bind (parallel_lift _) fun _ => parallel_work _

theorem parallel_inForm (hS : Lasts S) (w : Form → Work Text) :
    Parallel (Beside S before) (inForm env w) (inForm env w) := by
  unfold inForm
  split
  · exact parallel_bind (parallel_work _) fun t => parallel_write hS t
  · exact fun _ _ h => .error h.messages

theorem parallel_phrase? (key : Text) (params : List (Text × Expr)) :
    Parallel (Beside S before) (phrase? env key params) (phrase? env key params) := by
  refine parallel_bind (parallel_mapM (fun p => parallel_bind (parallel_eval _) fun _ => parallel_pure _) _)
    fun values => parallel_bind (parallel_mapM (fun e => parallel_bind (parallel_lift _) fun _ => parallel_pure _) _)
    fun given => parallel_bind (parallel_work _) fun filled => parallel_bind ?_ fun _ => parallel_pure _
  exact fun p q h => .ok ⟨h.output, h.sections, by simp [h.messages], h.asked⟩

/-- a directive without a body -/
theorem parallel_act (hS : Lasts S) (a : Act) : Parallel (Beside S before) (a.direct env) (a.direct env) := by
  cases a with
  | write t => exact parallel_write hS t
  | emit e => exact parallel_bind (parallel_eval e) fun v => parallel_emit hS v
  | field name attributes labelled => exact parallel_inForm hS _
  | submit attributes => exact parallel_inForm hS _
  | button attributes => exact parallel_inForm hS _
  | generate e name attributes submitting =>
    exact parallel_bind (parallel_eval e) fun v => parallel_bind (parallel_makeForm v name _) fun f =>
      parallel_bind (parallel_work _) fun t => parallel_write hS t
  | remark => exact parallel_pure ()

/-- two ways to do sections agree: they keep bodies parallel, whatever was written before -/
def Agreeing (S : List (Text × Text) → List (Text × Text) → Text → Prop) (way way' : SectionWay) : Prop :=
  ∀ (name : Text) (x y : Direct Unit), (∀ before, Parallel (Beside S before) x y) →
    ∀ before, Parallel (Beside S before) (way name x) (way' name y)

variable {way way' : SectionWay}

/-- a construct, if its body is parallel in every environment -/
theorem parallel_opening (hS : Lasts S) (h : Agreeing S way way') (o : Opening) {body body' : Env → Direct Unit}
    (hb : ∀ env before, Parallel (Beside S before) (body env) (body' env)) :
    Parallel (Beside S before) (o.interpret way env body) (o.interpret way' env body') := by
  cases o with
  | loop names path e =>
    refine parallel_bind (parallel_reached path) fun r => ?_
    cases r with
    | false => exact parallel_pure ()
    | true =>
      exact parallel_bind (parallel_eval e) fun v => parallel_bind (parallel_work _) fun es =>
        parallel_forM (fun p => hb _ _) _
  | capture name => exact h name _ _ (hb env) before
  | form e name attributes =>
    exact parallel_bind (parallel_eval e) fun v => parallel_bind (parallel_makeForm v name _) fun f =>
      parallel_bind (parallel_lift _) fun t => parallel_bind (parallel_write hS t) fun _ =>
      parallel_bind (hb _ _) fun _ => parallel_write hS _
  | phrase key params =>
    refine parallel_bind (parallel_phrase? key params) fun found => ?_
    cases found with
    | some t => exact parallel_write hS t
    | none => exact hb env before

mutual

/-- **A passage**: ways to do sections that agree on one section agree on all of them. -/
theorem parallel_passage (hS : Lasts S) (h : Agreeing S way way') : ∀ (p : Passage) (env : Env) (before : Text),
    Parallel (Beside S before) (p.interpret way env) (p.interpret way' env)
  | .done, env, before => by
    rw [Passage.interpret, Passage.interpret]
    exact parallel_pure ()
  | .act a rest, env, before => by
    rw [Passage.interpret, Passage.interpret]
    exact parallel_bind (parallel_act hS a) fun _ => parallel_passage hS h rest env before
  | .construct o body rest, env, before => by
    rw [Passage.interpret, Passage.interpret]
    exact parallel_bind (parallel_opening hS h o fun env' before' => parallel_passage hS h body env' before')
      fun _ => parallel_passage hS h rest env before
  | .choice c body more rest, env, before => by
    rw [Passage.interpret, Passage.interpret]
    refine parallel_bind (parallel_holds c) fun b => ?_
    cases b with
    | true =>
      exact parallel_bind (parallel_passage hS h body env before) fun _ => parallel_passage hS h rest env before
    | false =>
      exact parallel_bind (parallel_choices hS h more env before) fun _ => parallel_passage hS h rest env before

/-- branches -/
theorem parallel_choices (hS : Lasts S) (h : Agreeing S way way') : ∀ (more : Choices) (env : Env) (before : Text),
    Parallel (Beside S before) (more.interpret way env) (more.interpret way' env)
  | .none, env, before => by
    rw [Choices.interpret, Choices.interpret]
    exact parallel_pure ()
  | .elsewhen c body more, env, before => by
    rw [Choices.interpret, Choices.interpret]
    refine parallel_bind (parallel_holds c) fun b => ?_
    cases b with
    | true => exact parallel_passage hS h body env before
    | false => exact parallel_choices hS h more env before
  | .otherwise body, env, before => by
    rw [Choices.interpret, Choices.interpret]
    exact parallel_passage hS h body env before

end

end

/-! ## Sections kept, on the account, and left out -/

/-- what a render keeps of the sections on an account: what was completed last under each name -/
def keptOf (account : List (Text × Text)) : List (Text × Text) := account.foldl (fun es c => putAt c.1 c.2 es) []

/-- the sections are what is kept of the account, all of which stands in the output -/
structure Accounts (sections account : List (Text × Text)) (output : Text) : Prop where
  kept : sections = keptOf account
  stands : ∀ c ∈ account, c.2 <:+: output

theorem lasts_accounts : Lasts Accounts := fun _ _ _ _ h =>
  ⟨h.kept, fun c hc => (h.stands c hc).trans (List.prefix_append _ _).isInfix⟩

section

variable {S : List (Text × Text) → List (Text × Text) → Text → Prop} {before : Text} {p q : Page}

theorem run_then_modify (x : Direct Unit) (f : Page → Page) (p : Page) :
    (do x; modify f : Direct PUnit).run.run p =
      match x.run.run p with
      | (.ok _, p') => (.ok PUnit.unit, f p')
      | (.error e, p') => (.error e, p') := by
  rw [run_bind]
  rcases x.run.run p with ⟨r, p'⟩
  cases r <;> rfl

/-- as a section begins, what was written around it is what was written before -/
theorem Beside.begin (h : Beside S before p q) : Beside S (before ++ p.output) { p with output := [] } q where
  output := by rw [h.output, List.append_nil]
  sections := h.sections
  messages := h.messages
  asked := h.asked

/-- **A section left out** writes what a section writes that is kept. -/
theorem agreeing_bare : Agreeing (fun _ _ _ => True) capture bare := by
  intro name x y hxy before p q h
  have hbody := hxy _ _ _ h.begin
  rw [capture, run_bind, run_get, bare]
  simp only
  rw [run_bind, run_set]
  simp only
  rw [run_then_modify]
  generalize x.run.run _ = u at hbody ⊢
  generalize y.run.run q = v at hbody ⊢
  cases hbody with
  | ok h' => exact .ok ⟨by rw [h'.output, List.append_assoc], trivial, h'.messages, h'.asked⟩
  | error hm => exact .error hm

/-- **A section on the account** is kept with what its body has added to the output. -/
theorem agreeing_record : Agreeing Accounts capture record := by
  intro name x y hxy before p q h
  have hbody := hxy _ _ _ h.begin
  rw [capture, record, run_bind, run_get, run_bind, run_get]
  simp only
  rw [run_bind, run_set]
  simp only
  rw [run_then_modify, run_then_modify]
  generalize x.run.run _ = u at hbody ⊢
  generalize y.run.run q = v at hbody ⊢
  cases hbody with
  | error hm => exact .error hm
  | @ok _ p' q' h' =>
    -- what one page has more than before the section is what the other one was empty for
    have hadded : q'.output.drop q.output.length = p'.output := by
      rw [h'.output, ← h.output, List.drop_left]
    have hstands : p'.output <:+: q'.output := by
      rw [← hadded]
      exact (List.drop_suffix _ _).isInfix
    have hkept : putAt name p'.output p'.sections = keptOf (q'.sections ++ [(name, p'.output)]) := by
      rw [keptOf, List.foldl_append, h'.sections.kept]
      rfl
    refine .ok ⟨by rw [h'.output, List.append_assoc], ?_, h'.messages, h'.asked⟩
    rw [hadded]
    exact ⟨hkept, List.forall_mem_append.2 ⟨h'.sections.stands, List.forall_mem_singleton.2 hstands⟩⟩

end

end Direct

/-- renders that write the same or fail alike, with the same messages, and whose sections are related in view of the
output -/
inductive Rendered.Like (S : List (Text × Text) → List (Text × Text) → Text → Prop) : Rendered → Rendered → Prop where
  | ok {output : Text} {sections sections' : List (Text × Text)} {messages : List Message}
      (h : S sections sections' output) : Like S ⟨.ok ⟨output, sections⟩, messages⟩ ⟨.ok ⟨output, sections'⟩, messages⟩
  | error {e : Failure} {messages : List Message} : Like S ⟨.error e, messages⟩ ⟨.error e, messages⟩

namespace Direct

/-- parallel work renders alike -/
theorem render_parallel {S : List (Text × Text) → List (Text × Text) → Text → Prop} {x y : Env → Direct Unit}
    (hS : S [] [] []) (h : ∀ env, Parallel (Beside S []) (x env) (y env)) (escaping : Bool) (data : Value)
    (values : List (Text × Value)) (phrases : Phrases) (mappings : Value) :
    (render x escaping data values phrases mappings).Like S (render y escaping data values phrases mappings) := by
  unfold render
  cases Template.scopeOf data values with
  | error e => exact .error
  | ok es =>
    rcases phrases.toCatalog.run.run [] with ⟨r, asked⟩
    cases r with
    | error e => exact .error
    | ok c =>
      have hrun := h ⟨es, c, mappings.orEmpty, escaping, [], [], []⟩ ⟨[], [], [], asked⟩ ⟨[], [], [], asked⟩
        ⟨rfl, hS, rfl, rfl⟩
      simp only
      generalize (x _).run.run _ = u at hrun ⊢
      generalize (y _).run.run _ = v at hrun ⊢
      cases hrun with
      | @ok _ p q h' =>
        have houtput : q.output = p.output := h'.output
        have hsections := h'.sections
        rw [houtput] at hsections
        simp only [houtput, h'.messages]
        exact .ok hsections
      | error hm =>
        simp only [hm]
        exact .error

end Direct

namespace Passage

variable (p : Passage) (escaping : Bool) (data : Value) (values : List (Text × Value)) (phrases : Phrases)
  (mappings : Value)

theorem render_eq_interpret : p.render escaping data values phrases mappings =
    Direct.render (fun env => p.interpret Direct.capture env) escaping data values phrases mappings := by
  simp only [interpret_capture]
  rfl

/-- a passage renders like its account -/
theorem render_like_account : (p.render escaping data values phrases mappings).Like Direct.Accounts
    (p.account escaping data values phrases mappings) := by
  rw [render_eq_interpret]
  exact Direct.render_parallel ⟨rfl, fun _ hc => absurd hc List.not_mem_nil⟩
    (fun env => Direct.parallel_passage Direct.lasts_accounts Direct.agreeing_record p env []) escaping data values
    phrases mappings

/-- a passage renders like itself without its sections -/
theorem render_like_unsectioned : (p.render escaping data values phrases mappings).Like (fun _ _ _ => True)
    (p.unsectioned.render escaping data values phrases mappings) := by
  have hbare : p.unsectioned.render escaping data values phrases mappings =
      Direct.render (fun env => p.interpret Direct.bare env) escaping data values phrases mappings := by
    simp only [interpret_bare]
    rfl
  rw [render_eq_interpret, hbare]
  exact Direct.render_parallel trivial
    (fun env => Direct.parallel_passage (fun _ _ _ _ h => h) Direct.agreeing_bare p env []) escaping data values
    phrases mappings

end Passage

/-! ## What is kept of an account -/

namespace Direct

theorem keptOf_snoc (account : List (Text × Text)) (c : Text × Text) :
    keptOf (account ++ [c]) = putAt c.1 c.2 (keptOf account) := by
  rw [keptOf, List.foldl_append]
  rfl

/-- the names that are kept are those on the account, in the order in which they first stand there -/
theorem names_keptOf (account : List (Text × Text)) :
    (keptOf account).map (·.1) = (account.map (·.1)).eraseDups := by
  induction account using List.reverseRecOn with
  | nil => rfl
  | append_singleton account c ih =>
    rw [keptOf_snoc, keys_putAt, ih, List.map_append, List.eraseDups_append]
    by_cases h : c.1 ∈ account.map (·.1) <;> simp [h, List.removeAll, List.eraseDups_cons]

/-- under each name is kept what stands on the account last -/
theorem getAt?_keptOf (account : List (Text × Text)) (name : Text) :
    getAt? name (keptOf account) = getAt? name account.reverse := by
  induction account using List.reverseRecOn with
  | nil => rfl
  | append_singleton account c ih =>
    rw [keptOf_snoc, getAt?_putAt, ih, List.reverse_append]
    cases h : c.1 == name <;> simp [getAt?, h]

example : keptOf [(['b'], ['!']), (['a'], ['1', '!']), (['b'], ['?']), (['a'], ['2', '?'])] =
    [(['b'], ['?']), (['a'], ['2', '?'])] := rfl

end Direct

/-- sections as they were completed: each name in the place where it was completed first, with what was completed last
under it, and all that was completed stands in the output -/
structure Completed (sections account : List (Text × Text)) (output : Text) : Prop where
  names : sections.map (·.1) = (account.map (·.1)).eraseDups
  last : ∀ name, getAt? name sections = getAt? name account.reverse
  stands : ∀ c ∈ account, c.2 <:+: output

theorem Direct.Accounts.completed {sections account : List (Text × Text)} {output : Text}
    (h : Accounts sections account output) : Completed sections account output where
  names := h.kept ▸ names_keptOf account
  last := h.kept ▸ getAt?_keptOf account
  stands := h.stands

/-! ## Templates -/

theorem Rendered.Like.mono {S S' : List (Text × Text) → List (Text × Text) → Text → Prop} {r r' : Rendered}
    (h : r.Like S r') (hS : ∀ {a b u}, S a b u → S' a b u) : r.Like S' r' := by
  cases h with
  | ok h => exact .ok (hS h)
  | error => exact .error

namespace Compiler

/-- **Sections are transparent and kept as they were completed.** A template that compiles does so without the
directives that begin and end its sections, and with all data, phrases and mappings it writes the same without them, or
fails alike. What its render keeps are the sections of its account, which is that of the passage that any derivation of
its tokens asks for. -/
theorem sections_transparent {s : Settings} {strict : Option Bool} {names : List Text} {source : Text} {t : Template}
    (h : (standard s strict names).compile source = .ok t) :
    (∃ fs, (standard s strict names).fragments (unsectioned t.tokens) = .ok fs ∧
      checkCode ((standard s strict names).template (unsectioned t.tokens) fs) = .ok () ∧
      ∀ data values phrases mappings, (t.render data values phrases mappings).Like (fun _ _ _ => True)
        (((standard s strict names).template (unsectioned t.tokens) fs).render data values phrases mappings)) ∧
    (∃ n : Nested, n.tokens = t.tokens) ∧
    ∀ n : Nested, n.tokens = t.tokens → ∃ p, n.page (standard s strict names).mode [] = .ok p ∧
      ∀ data values phrases mappings, (t.render data values phrases mappings).Like Completed
        (p.account s.escaping data values phrases mappings) := by
  obtain ⟨n, hn, -, -⟩ := wellNested_of_compile h
  have hescaping : t.escaping = s.escaping := by
    obtain ⟨ts, fs, c, -, -, -, rfl, -⟩ := compile_ok h
    rfl
  refine ⟨?_, ⟨n, hn⟩, fun n hn => ?_⟩
  · obtain ⟨p, hp, -, hprogram⟩ := program_of_compile h hn
    obtain ⟨hfragments, hcheck⟩ := compile_unsectioned h hn hp
    refine ⟨_, hfragments, hcheck, fun data values phrases mappings => ?_⟩
    have hprogram' : ((standard s strict names).template (unsectioned t.tokens) (p.unsectioned.fragments 0)).program =
        p.unsectioned.block 0 := readBlocks_passage _
    rw [render_of_program hprogram, render_of_program hprogram', hescaping]
    exact p.render_like_unsectioned s.escaping data values phrases mappings
  · obtain ⟨p, hp, -, hprogram⟩ := program_of_compile h hn
    refine ⟨p, hp, fun data values phrases mappings => ?_⟩
    rw [render_of_program hprogram, hescaping]
    exact (p.render_like_account s.escaping data values phrases mappings).mono fun h => h.completed

/-- a section in a section in a loop, of which the loop and what it writes are left -/
theorem sections_in_loop :
    let source : Text := Text.cat ["\x7b\x7bfor x in xs\x7d\x7d\x7b\x7bsection a\x7d\x7d\x7b\x7bx\x7d\x7d",
      "\x7b\x7bsection b\x7d\x7d!\x7b\x7bendsection\x7d\x7d\x7b\x7bendsection\x7d\x7d\x7b\x7bendfor\x7d\x7d"]
    let k := standard .standard none []
    ∃ t, k.compile source = .ok t ∧
      (unsectioned t.tokens).map (·.raw) = ["for x in xs".toList, ['x'], ['!'], "endfor".toList] ∧
      (∃ fs, k.fragments (unsectioned t.tokens) = .ok fs ∧ checkCode (k.template (unsectioned t.tokens) fs) = .ok () ∧
        ∀ data values phrases mappings, (t.render data values phrases mappings).Like (fun _ _ _ => True)
          ((k.template (unsectioned t.tokens) fs).render data values phrases mappings)) ∧
      ∀ n : Nested, n.tokens = t.tokens → ∃ p, n.page k.mode [] = .ok p ∧
        ∀ data values phrases mappings, (t.render data values phrases mappings).Like Completed
          (p.account true data values phrases mappings) := by
  intro source k
  have hok : (k.compile source).toOption.map (fun t => (unsectioned t.tokens).map (·.raw)) =
      some ["for x in xs".toList, ['x'], ['!'], "endfor".toList] := by decide +kernel
  obtain ⟨t, ht, hraw⟩ := Option.map_eq_some_iff.1 hok
  have hcompile := eq_ok_of_toOption ht
  obtain ⟨hleft, -, hkept⟩ := sections_transparent hcompile
  exact ⟨t, hcompile, hraw, hleft, hkept⟩

end Compiler

end Stencil
