/-
CLOSING DIRECTIVES. The end of a construct is a slash or the word end, then blanks, then the name of its family. However
it is spelled, it closes what the shortest spelling closes; but the word end before a blank is no closing directive for
the registry, and no reference either.

- `closing?_eq_some_iff`: the texts that the grammar takes for the end of a construct.
- `Registry.classify_of_closing?`, `Reference.parse_of_endsApart`: what the registry takes them for.
- `Token.Alike`: tokens written the same, or closing the same family; `token_of_alike`, `compile_of_alike`: they compile
  to the same.
- `Chunk.Alike`, `scan_of_alike`: pieces of a source that have tokens alike.
- `Compiler.closing_closes`: every spelling of the end of a construct against the shortest one.
- `Compiler.end_apart`: a loop that the word end before a blank does not close.
-/
import Stencil.Proofs.Lexemes
import Stencil.Proofs.Reserved
import Stencil.Proofs.Respelled

namespace Stencil

open Directive

/-! ## The texts of closing directives -/

namespace Text

/-- a name of word characters has no blanks around it -/
theorem solid_word {n : Text} (h : isRun isNameStart isWord n = true) : Solid n := by
  have hne : n ≠ [] := by
    rintro rfl
    cases h
  refine solid_of_forall hne fun c hc => ?_
  have hword := forall_of_isRun h (fun _ => isWord_of_isNameStart) c hc
  cases hblank : isBlank c with
  | false => rfl
  | true =>
    rw [isWord_of_isBlank hblank] at hword
    cases hword

end Text

namespace Directive

/-- a slash, or the word end -/
def closingMarks : List Text := [['/'], "end"]

/-- the word end stands before a blank -/
def endsApart (raw : Text) : Bool := (Text.after? "end" raw).any (Text.begins Text.isBlank)

/-- **A closing directive** is one of the marks, blanks and a name. -/
theorem closing?_eq_some_iff {raw name : Text} : closing? raw = some name ↔ ∃ mark ∈ closingMarks, ∃ blanks : Text,
    (∀ c ∈ blanks, Text.isBlank c = true) ∧ raw = mark ++ (blanks ++ name) ∧
      Text.isRun Text.isNameStart Text.isWord name = true := by
  have hmark {rest : Text} : (Text.after? ['/'] raw <|> Text.after? "end" raw) = some rest ↔
      ∃ mark ∈ closingMarks, raw = mark ++ rest := by
    rw [Option.orElse_eq_orElse, Option.orElse_eq_or, Option.or_eq_some_iff, Text.after?_eq_some_iff,
      Text.after?_eq_some_iff]
    constructor
    · rintro (hslash | ⟨-, hend⟩)
      · exact ⟨_, List.mem_cons_self, hslash⟩
      · exact ⟨_, List.mem_cons_of_mem _ List.mem_cons_self, hend⟩
    · rintro ⟨mark, hm, rfl⟩
      rcases List.mem_cons.1 hm with rfl | hm
      · exact .inl rfl
      · obtain rfl := List.mem_singleton.1 hm
        exact .inr ⟨rfl, rfl⟩
  rw [closing?, Option.bind_eq_some_iff]
  simp only [hmark]
  constructor
  · rintro ⟨rest, ⟨mark, hm, rfl⟩, h⟩
    refine ⟨mark, hm, rest.takeWhile Text.isBlank, fun c hc => List.mem_takeWhile_imp hc, ?_⟩
    split at h
    · rename_i c cs hdrop
      split at h
      · rename_i hrun
        cases h
        rw [← hdrop, List.takeWhile_append_dropWhile]
        exact ⟨rfl, hdrop ▸ hrun⟩
      · cases h
    · cases h
  · rintro ⟨mark, hm, blanks, hblank, rfl, hrun⟩
    refine ⟨blanks ++ name, ⟨mark, hm, rfl⟩, ?_⟩
    rw [List.dropWhile_append_of_pos hblank, Text.dropWhile_of_begins (Text.solid_word hrun).front]
    cases name with
    | nil => cases hrun
    | cons c cs => exact if_pos hrun

/-- the closing directive without blanks between the mark and the name -/
theorem closing?_end {name : Text} (h : Text.isRun Text.isNameStart Text.isWord name = true) :
    closing? ("end".toList ++ name) = some name :=
  closing?_eq_some_iff.2 ⟨"end", by simp [closingMarks], [], List.forall_mem_nil _, rfl, h⟩

end Directive

namespace Family

theorem ofName?_name (f : Family) : ofName? f.name = some f := by
  cases f <;> decide

theorem isRun_name (f : Family) : Text.isRun Text.isNameStart Text.isWord f.name = true := by
  cases f <;> decide

/-- the word end and a name stand together -/
theorem endsApart_name (f : Family) : endsApart ("end".toList ++ f.name) = false := by
  cases f <;> decide

end Family

namespace Registry

/-- no keyword begins with a slash or the word end -/
theorem keyword_ne_closing : ∀ word ∈ keywords, ∀ mark ∈ closingMarks, Text.after? mark word = none := by
  decide

/-- **The kind of a closing directive**: the word end before a blank is taken for an interpolation. -/
theorem classify_of_closing? {comment raw name : Text} (h : closing? raw = some name)
    (hmark : Text.startsWith raw comment = false) :
    (standard comment).classify raw = if endsApart raw then .interpolation else .closing := by
  obtain ⟨mark, hm, blanks, hblank, rfl, hname⟩ := closing?_eq_some_iff.1 h
  have hnone : (standard comment).match? (mark ++ (blanks ++ name)) = none := by
    have hsolid : ∀ mark ∈ closingMarks, mark.all (!Text.isBlank ·) = true := by
      simp only [closingMarks, String.reduceToList]
      decide
    rw [match?_eq_none_iff, Spec.leading, List.takeWhile_append_of_pos (List.all_eq_true.1 (hsolid mark hm))]
    intro hmem
    have hbegins := keyword_ne_closing _ hmem mark hm
    rw [Text.after?_eq_some_iff.2 rfl] at hbegins
    cases hbegins
  have hbegins : beginsClosing (mark ++ (blanks ++ name)) = !endsApart (mark ++ (blanks ++ name)) := by
    rcases List.mem_cons.1 hm with rfl | hm
    · rfl
    · obtain rfl := List.mem_singleton.1 hm
      cases blanks with
      | nil =>
        cases name with
        | nil => cases hname
        | cons c cs =>
          have hc : Text.isNameStart c = true := (Bool.and_eq_true _ _ ▸ hname).1
          show Text.isNameStart c = !Text.isBlank c
          rw [hc, Text.isBlank_of_isNameStart hc]
          rfl
      | cons c blanks =>
        have hc : Text.isBlank c = true := hblank c List.mem_cons_self
        show Text.isNameStart c = !Text.isBlank c
        rw [hc, Text.isNameStart_of_isBlank hc]
        rfl
  have hcomment : (standard comment).comment = comment := rfl
  rw [classify, hcomment, hmark, hnone, hbegins]
  cases endsApart (mark ++ (blanks ++ name)) <;> rfl

end Registry

namespace Reference

theorem fallback?_word {blanks name : Text} (hblank : ∀ c ∈ blanks, Text.isBlank c = true)
    (hname : Text.isRun Text.isNameStart Text.isWord name = true) : fallback? (blanks ++ name) = none := by
  have hquestion : Text.after? ['?', '?'] name = none := by
    refine Text.after?_of_begins (p := Text.isNameStart) ?_ (by decide)
    rw [← List.append_nil name]
    exact Text.begins_of_isRun hname
  rw [fallback?, List.dropWhile_append_of_pos hblank, Text.dropWhile_of_begins (Text.solid_word hname).front, hquestion]
  rfl

/-- **The word end before a blank** begins no reference if it begins a closing directive. -/
theorem parse_of_endsApart {raw name : Text} (h : closing? raw = some name) (hapart : endsApart raw = true) :
    parse raw = .error (.fault (.of (.invalidReference raw) raw)) := by
  obtain ⟨mark, hm, blanks, hblank, rfl, hname⟩ := closing?_eq_some_iff.1 h
  obtain rfl : mark = "end".toList := by
    rcases List.mem_cons.1 hm with rfl | hm
    · cases hapart
    · exact List.mem_singleton.1 hm
  have hsolid := Text.solid_word hname
  have hbegins : Text.begins Text.isBlank (blanks ++ name) = true := hapart
  have hpath : path? ("end".toList ++ (blanks ++ name)) = some ("end".toList, [], blanks ++ name) :=
    path?_eq_some_iff.2 ⟨by decide, by simp [PathText.text, PathText.tail],
      endsAt_of_begins _ (Text.begins_apart (fun c => continues_of_isBlank) hbegins)⟩
  have hgrammar : grammar? ("end".toList ++ (blanks ++ name)) = none := by
    have hempty : (blanks ++ name).isEmpty = false := List.isEmpty_eq_false_iff.2 (by simp [hsolid.ne])
    rw [grammar?, hpath]
    simp only [Option.bind_some, hempty, Bool.false_eq_true, if_false, fallback?_word hblank hname, Option.bind_none]
  have hstrip : Text.strip ("end".toList ++ (blanks ++ name)) = "end".toList ++ (blanks ++ name) := by
    have hend : Text.Solid "end".toList := ⟨by decide, by decide, by decide⟩
    have hraw := (hend.between blanks hsolid).strip (u := []) (v := []) (by simp) (by simp)
    simpa using hraw
  unfold parse
  simp only [hstrip, hgrammar]

end Reference

/-! ## Tokens that close the same -/

/-- **Tokens alike**: written the same, or two that close a construct of one family. -/
def Token.Alike (t u : Token) : Prop := u.written = t.written ∨ ∃ f, t.closes? = some f ∧ u.closes? = some f

theorem Token.Alike.symm {t u : Token} (h : t.Alike u) : u.Alike t :=
  h.imp Eq.symm fun ⟨f, ht, hu⟩ => ⟨f, hu, ht⟩

theorem Token.Alike.kind {t u : Token} (h : t.Alike u) : u.kind = t.kind := by
  rcases h with h | ⟨f, ht, hu⟩
  · exact kind_congr h
  · rw [kind_of_closes? ht, kind_of_closes? hu]

/-- the open construct as if its directive stood at the beginning of a template -/
def OpenConstruct.unplaced (o : OpenConstruct) : OpenConstruct := { o with token := ⟨o.token.kind, o.token.raw, 0, 1⟩ }

namespace OpenConstruct

@[simp] theorem unplaced_family (o : OpenConstruct) : o.unplaced.family = o.family := rfl

@[simp] theorem unplaced_closedBranches (o : OpenConstruct) : o.unplaced.closedBranches = o.closedBranches := rfl

@[simp] theorem unplaced_raw (o : OpenConstruct) : o.unplaced.token.raw = o.token.raw := rfl

/-- an open construct is told by what it binds and how its directive is written -/
theorem unplaced_congr {o p : OpenConstruct} (hfamily : p.family = o.family) (ht : p.token.written = o.token.written)
    (hnames : p.names = o.names) (hclosed : p.closedBranches = o.closedBranches) : p.unplaced = o.unplaced := by
  rw [unplaced, unplaced, hfamily, Token.kind_congr ht, Token.raw_congr ht, hnames, hclosed]

end OpenConstruct

namespace Context

/-- the context as if the directives of its open constructs stood at the beginning of a template -/
def unplaced (c : Context) : Context := { c with stack := c.stack.map OpenConstruct.unplaced }

@[simp] theorem unplaced_stack (c : Context) : c.unplaced.stack = c.stack.map OpenConstruct.unplaced := rfl

@[simp] theorem unplaced_sections (c : Context) : c.unplaced.sections = c.sections := rfl

@[simp] theorem unplaced_counter (c : Context) : c.unplaced.counter = c.counter := rfl

variable {c d : Context}

theorem bound_of_unplaced (h : d.unplaced = c.unplaced) : d.bound = c.bound := by
  have hnames (c : Context) : c.bound = c.unplaced.bound := by
    rw [bound, bound, unplaced, ← List.map_reverse, List.flatMap_map]
    rfl
  rw [hnames, hnames c, h]

theorem find?_of_unplaced (h : d.unplaced = c.unplaced) (f : Family) :
    (d.find? f).map OpenConstruct.unplaced = (c.find? f).map OpenConstruct.unplaced := by
  have hfind (c : Context) : (c.find? f).map OpenConstruct.unplaced = c.unplaced.find? f := by
    rw [find?, find?, unplaced, List.find?_map]
    rfl
  rw [hfind, hfind, h]

end Context

/-- the fragment of a token, and what it leaves of a context wherever directives stand -/
def seen (x : Except Refusal (Fragment × Context)) : Option (Fragment × Context) :=
  x.toOption.map fun p => (p.1, p.2.unplaced)

section

variable {t u : Token} {c d : Context}

/-- the last fragment of a construct does not depend on where directives stand -/
theorem last_of_unplaced (h : d.unplaced = c.unplaced) (f : Family) :
    (f.closer.last u d).toOption = (f.closer.last t c).toOption := by
  have hfind := Context.find?_of_unplaced h .capture
  cases f
  case capture =>
    simp only [Family.closer, Reader.last, endCapture]
    cases hc : c.find? .capture with
    | none =>
      rw [hc, Option.map_none, Option.map_eq_none_iff] at hfind
      rw [hfind]
      rfl
    | some o =>
      rw [hc, Option.map_some, Option.map_eq_some_iff] at hfind
      obtain ⟨p, hp, hpo⟩ := hfind
      have hraw : p.token.raw = o.token.raw := congrArg (fun o => o.token.raw) hpo
      rw [hp]
      simp only [hraw]
      cases capture? o.token.raw <;> rfl
  all_goals rfl

/-- the innermost constructs of contexts that differ in where directives stand -/
theorem exists_of_unplaced {o : OpenConstruct} {rest : List OpenConstruct} (h : d.unplaced = c.unplaced)
    (hs : c.stack = o :: rest) : ∃ p rest', d.stack = p :: rest' ∧ p.unplaced = o.unplaced ∧
      rest'.map OpenConstruct.unplaced = rest.map OpenConstruct.unplaced := by
  have hstack := congrArg Context.stack h
  rw [Context.unplaced_stack, Context.unplaced_stack, hs, List.map_cons, List.map_eq_cons_iff] at hstack
  obtain ⟨p, rest', hd, hp, hrest⟩ := hstack
  exact ⟨p, rest', hd, hp, hrest⟩

theorem nil_of_unplaced (h : d.unplaced = c.unplaced) (hs : c.stack = []) : d.stack = [] := by
  have hstack := congrArg Context.stack h
  rwa [Context.unplaced_stack, Context.unplaced_stack, hs, List.map_nil, List.map_eq_nil_iff] at hstack

/-- contexts with other open constructs -/
theorem unplaced_with (h : d.unplaced = c.unplaced) {stack stack' : List OpenConstruct}
    (hs : stack'.map OpenConstruct.unplaced = stack.map OpenConstruct.unplaced) :
    { d with stack := stack' }.unplaced = { c with stack := stack }.unplaced := by
  simp only [Context.unplaced, Context.mk.injEq] at h ⊢
  exact ⟨hs, h.2⟩

/-- a branch does not depend on where directives stand -/
theorem branch_of_unplaced (h : d.unplaced = c.unplaced) (hk : u.kind = t.kind) :
    (Compiler.branch u d).toOption.map Context.unplaced = (Compiler.branch t c).toOption.map Context.unplaced := by
  unfold Compiler.branch
  cases hs : c.stack with
  | nil =>
    rw [nil_of_unplaced h hs]
    rfl
  | cons o rest =>
    obtain ⟨p, rest', hd, hp, hrest⟩ := exists_of_unplaced h hs
    have hfamily : p.family = o.family := by simpa using congrArg OpenConstruct.family hp
    have hclosed : p.closedBranches = o.closedBranches := by simpa using congrArg OpenConstruct.closedBranches hp
    rw [hd]
    simp only [hfamily, hclosed, hk]
    split
    · split
      · rfl
      · split
        · refine congrArg some (unplaced_with h ?_)
          have hone : (⟨o.family, p.token, p.names, true⟩ : OpenConstruct).unplaced =
              (⟨o.family, o.token, o.names, true⟩ : OpenConstruct).unplaced := by
            simp only [OpenConstruct.unplaced, OpenConstruct.mk.injEq] at hp ⊢
            exact ⟨trivial, hp.2.1, hp.2.2.1, trivial⟩
          rw [List.map_cons, List.map_cons, hone, hrest]
        · exact congrArg some h
    · rfl

/-- a fragment of a branch, and what it leaves -/
theorem seen_branch {x y : Except Refusal Context}
    (h : x.toOption.map Context.unplaced = y.toOption.map Context.unplaced) (f : Fragment) :
    seen (x.map fun c => (f, c)) = seen (y.map fun c => (f, c)) := by
  have hseen (x : Except Refusal Context) :
      seen (x.map fun c => (f, c)) = (x.toOption.map Context.unplaced).map fun c => (f, c) := by
    cases x <;> rfl
  rw [hseen, hseen, h]

/-- **What an instruction compiles to** does not depend on where directives stand. -/
theorem compile_of_unplaced (h : d.unplaced = c.unplaced) {i : Instruction}
    (htu : u.written = t.written ∨ ∃ f, i = .closing f) : seen (i.compile u d) = seen (i.compile t c) := by
  have hsections : d.sections = c.sections := by simpa using congrArg Context.sections h
  have hcounter : d.counter = c.counter := by simpa using congrArg Context.counter h
  have hstack := congrArg Context.stack h
  rw [Context.unplaced_stack, Context.unplaced_stack] at hstack
  have hopened (hwritten : u.written = t.written) (family : Option Family) (names : List Text) :
      (⟨family, u, names, false⟩ : OpenConstruct).unplaced = (⟨family, t, names, false⟩ : OpenConstruct).unplaced :=
    OpenConstruct.unplaced_congr rfl hwritten rfl rfl
  cases i with
  | act a =>
    have hform : (d.find? .form).isNone = (c.find? .form).isNone := by
      simpa using congrArg Option.isNone (Context.find?_of_unplaced h .form)
    rw [Instruction.compile, Instruction.compile, hform]
    split
    · rfl
    · exact congrArg (fun c => some (a.fragment, c)) h
  | opening o =>
    have hwritten := htu.resolve_right (by rintro ⟨f, hf⟩; cases hf)
    rw [Instruction.compile, Instruction.compile, hsections, hcounter]
    cases o.section?.filter fun name => c.sections.contains name with
    | some name => rfl
    | none =>
      have hinside : (Instruction.inside u d o).unplaced = (Instruction.inside t c o).unplaced := by
        rw [Instruction.inside, Instruction.inside, hsections, hcounter, Context.unplaced, Context.unplaced,
          List.map_cons, List.map_cons, hstack, hopened hwritten]
      exact congrArg (fun c' => some (o.first c.counter, c')) hinside
  | when cond =>
    have hwritten := htu.resolve_right (by rintro ⟨f, hf⟩; cases hf)
    have hpush : (d.push ⟨some .conditional, u, [], false⟩).unplaced =
        (c.push ⟨some .conditional, t, [], false⟩).unplaced :=
      unplaced_with h (by rw [List.map_cons, List.map_cons, hstack, hopened hwritten])
    exact congrArg (fun c' => some (_, c')) hpush
  | elsewhen cond =>
    have hkind := Token.kind_congr (htu.resolve_right (by rintro ⟨f, hf⟩; cases hf))
    exact seen_branch (branch_of_unplaced h hkind) _
  | otherwise =>
    have hkind := Token.kind_congr (htu.resolve_right (by rintro ⟨f, hf⟩; cases hf))
    exact seen_branch (branch_of_unplaced h hkind) _
  | closing f =>
    rw [Instruction.compile, Instruction.compile]
    cases hs : c.stack with
    | nil =>
      rw [nil_of_unplaced h hs]
      rfl
    | cons o rest =>
      obtain ⟨p, rest', hd, hp, hrest⟩ := exists_of_unplaced h hs
      have hfamily : p.family = o.family := by simpa using congrArg OpenConstruct.family hp
      have hlast := last_of_unplaced (t := t) (u := u) h f
      rw [hd]
      simp only [hfamily]
      split
      · have hrest' := unplaced_with h hrest
        rw [seen, seen, toOption_map, toOption_map, hlast, Option.map_map, Option.map_map]
        exact congrArg (fun c' => (f.closer.last t c).toOption.map fun fragment => (fragment, c')) hrest'
      · rfl

end

/-! ## Templates that close the same -/

namespace Compiler

variable {comment : Text} {m : Directive.Mode} {t u : Token} {ts us : List Token} {c d : Context}

theorem seen_token (ht : t.Classified (.standard comment)) (c : Context) :
    seen (token (.standard comment) m t c) =
      (Instruction.read m c.bound t).toOption.bind fun i => seen (i.compile t c) := by
  cases hread : Instruction.read m c.bound t with
  | ok i =>
    rw [Instruction.token_of_read ht hread]
    rfl
  | error e =>
    cases htoken : token (.standard comment) m t c with
    | error e' => rfl
    | ok p =>
      obtain ⟨i, hi⟩ := Instruction.read_of_token ht htoken
      rw [hread] at hi
      cases hi

/-- **Tokens alike** compile to the same, wherever directives stand. -/
theorem token_of_alike (ht : t.Classified (.standard comment)) (hu : u.Classified (.standard comment))
    (h : d.unplaced = c.unplaced) (htu : t.Alike u) :
    seen (token (.standard comment) m u d) = seen (token (.standard comment) m t c) := by
  rw [seen_token hu, seen_token ht, Context.bound_of_unplaced h]
  rcases htu with hwritten | ⟨f, htf, huf⟩
  · rw [Instruction.read_congr hwritten]
    cases Instruction.read m c.bound t with
    | error e => rfl
    | ok i => exact compile_of_unplaced h (.inl hwritten)
  · rw [Instruction.read_of_closes? htf, Instruction.read_of_closes? huf]
    exact compile_of_unplaced h (.inr ⟨f, rfl⟩)

/-- tokens that are alike one by one compile to the same fragments -/
theorem tokens_of_alike (hts : ∀ t ∈ ts, t.Classified (.standard comment))
    (hus : ∀ u ∈ us, u.Classified (.standard comment)) (htu : List.Forall₂ Token.Alike ts us)
    (h : d.unplaced = c.unplaced) :
    (tokens (.standard comment) m d us).toOption.map (fun p => (p.1, p.2.unplaced)) =
      (tokens (.standard comment) m c ts).toOption.map fun p => (p.1, p.2.unplaced) := by
  -- the contexts behind the tokens differ as those before them do
  induction htu generalizing c d with
  | nil => exact congrArg (fun c => some ([], c)) h
  | @cons t u ts us htu _ ih =>
    obtain ⟨ht, hts⟩ := List.forall_mem_cons.1 hts
    obtain ⟨hu, hus⟩ := List.forall_mem_cons.1 hus
    have hone := token_of_alike (m := m) ht hu h htu
    rw [tokens, tokens]
    cases hx : token (.standard comment) m t c with
    | error e =>
      rw [hx] at hone
      cases hy : token (.standard comment) m u d with
      | error e' => rfl
      | ok q =>
        rw [hy] at hone
        cases hone
    | ok p =>
      rw [hx] at hone
      cases hy : token (.standard comment) m u d with
      | error e' =>
        rw [hy] at hone
        cases hone
      | ok q =>
        rw [hy] at hone
        obtain ⟨hfragment, hcontext⟩ := Prod.mk.inj (Option.some.inj hone)
        have hrest := ih hts hus (c := p.2) (d := q.2) hcontext
        have hmap (f : Fragment) (x : Except Refusal (List Fragment × Context)) :
            (x.map fun p => (f :: p.1, p.2)).toOption.map (fun p => (p.1, p.2.unplaced)) =
              (x.toOption.map fun p => (p.1, p.2.unplaced)).map fun p => (f :: p.1, p.2) := by
          cases x <;> rfl
        simp only [hmap, hrest, hfragment]

/-- tokens that are alike have the same fragments, or none -/
theorem fragments_of_alike {k : Compiler} (hk : k.registry = .standard comment)
    (hts : ∀ t ∈ ts, t.Classified (.standard comment)) (hus : ∀ u ∈ us, u.Classified (.standard comment))
    (htu : List.Forall₂ Token.Alike ts us) : (k.fragments us).toOption = (k.fragments ts).toOption := by
  have hclosed (x : Except Refusal (List Fragment × Context)) :
      (x.bind fun p => (checkClosed p.2).bind fun _ => .ok p.1).toOption =
        (x.toOption.map fun p => (p.1, p.2.unplaced)).bind fun p => if p.2.stack = [] then some p.1 else none := by
    cases x with
    | error e => rfl
    | ok p =>
      obtain ⟨fs, stack, sections, counter⟩ := p
      cases stack <;> rfl
  have hfragments (ts : List Token) : (k.fragments ts).toOption =
      ((tokens (.standard comment) k.mode .start ts).toOption.map fun p => (p.1, p.2.unplaced)).bind
        fun p => if p.2.stack = [] then some p.1 else none := by
    rw [← hclosed, ← hk]
    rfl
  rw [hfragments, hfragments, tokens_of_alike hts hus htu rfl]

end Compiler

/-- no null character stands in a directive that closes a construct -/
theorem null_of_closes? {t : Token} {f : Family} (h : t.closes? = some f) : '\x00' ∉ t.raw := by
  rw [Token.closes?, if_pos (Token.kind_of_closes? h), Option.bind_eq_some_iff] at h
  obtain ⟨name, hraw, -⟩ := h
  obtain ⟨mark, hm, blanks, hblank, hraw, hname⟩ := closing?_eq_some_iff.1 hraw
  have hmark : ∀ mark ∈ closingMarks, '\x00' ∉ mark := by decide
  rw [hraw, List.mem_append, List.mem_append, not_or, not_or]
  refine ⟨hmark mark hm, fun hmem => ?_, fun hmem => ?_⟩
  · exact absurd (hblank _ hmem) (by decide)
  · exact absurd (Text.forall_of_isRun hname (fun _ => Text.isWord_of_isNameStart) _ hmem) (by decide)

theorem null_of_alike {t u : Token} (h : t.Alike u) (ht : t.kind ≠ .literal → '\x00' ∉ t.raw) :
    u.kind ≠ .literal → '\x00' ∉ u.raw := by
  rcases h with hwritten | ⟨f, -, hu⟩
  · rwa [Token.kind_congr hwritten, Token.raw_congr hwritten]
  · exact fun _ => null_of_closes? hu

theorem tells_of_alike {s : Settings} {ts us : List Token} (h : List.Forall₂ Token.Alike ts us) :
    s.Tells us ↔ s.Tells ts := by
  have hone {ts us : List Token} (h : List.Forall₂ Token.Alike ts us)
      (hts : ∀ t ∈ ts, t.kind ≠ .literal → '\x00' ∉ t.raw) : ∀ u ∈ us, u.kind ≠ .literal → '\x00' ∉ u.raw := by
    induction h with
    | nil => exact List.forall_mem_nil _
    | cons htu _ ih =>
      obtain ⟨ht, hts⟩ := List.forall_mem_cons.1 hts
      exact List.forall_mem_cons.2 ⟨null_of_alike htu ht, ih hts⟩
  exact ⟨fun hus hannotate => hone (h.flip.imp fun _ _ => Token.Alike.symm) (hus hannotate),
    fun hts hannotate => hone h (hts hannotate)⟩

namespace Compiler

variable {k : Compiler} {comment source source' : Text} {ts us : List Token}

/-- what a compiled template does, however its directives are written -/
def effect (t : Template) : List Fragment × Block × Bool := (t.fragments, t.program, t.escaping)

/-- **Templates with tokens alike** compile to the same, or both are refused. -/
theorem compile_of_alike (hk : k.registry = .standard comment) (hts : k.scan source = .ok ts)
    (hus : k.scan source' = .ok us) (h : List.Forall₂ Token.Alike ts us) :
    (k.compile source').toOption.map effect = (k.compile source).toOption.map effect := by
  have hfragments := fragments_of_alike hk (hk ▸ classified_of_scan hts) (hk ▸ classified_of_scan hus) h
  cases hx : k.fragments ts with
  | error e =>
    rw [hx] at hfragments
    cases hy : k.fragments us with
    | error e' =>
      have hrefused {source : Text} {ts : List Token} {e : Refusal} (hts : k.scan source = .ok ts)
          (hx : k.fragments ts = .error e) : k.compile source = .error e := by
        unfold compile
        rw [hts, ok_bind, hx]
        rfl
      rw [hrefused hts hx, hrefused hus hy]
      rfl
    | ok fs =>
      rw [hy] at hfragments
      cases hfragments
  | ok fs =>
    rw [hx] at hfragments
    have hy := eq_ok_of_toOption hfragments
    have hnull : (k.template us fs).code.contains '\x00' = (k.template ts fs).code.contains '\x00' := by
      rw [Bool.eq_iff_iff, List.contains_iff_mem, List.contains_iff_mem, ← not_iff_not]
      exact (null_code_iff (length_fragments hy)).trans
        ((tells_of_alike h).trans (null_code_iff (length_fragments hx)).symm)
    have hprogram : (k.template us fs).program = (k.template ts fs).program := rfl
    rw [compile_of_fragments hk hts hx, compile_of_fragments hk hus hy, hnull, hprogram]
    split
    · rfl
    · split
      · rfl
      · split <;> rfl

end Compiler

/-! ## Sources that close the same -/

namespace Delimiter.Chunk

variable (s : Settings) (classify : Text → TokenKind)

/-- the piece is a closing directive of a family -/
def Closes (f : Family) : Chunk → Prop
  | directive body =>
    ¬s.opening <:+: body ∧ classify (Text.strip body) = .closing ∧
      (closing? (Text.strip body)).bind Family.ofName? = some f
  | _ => False

/-- **Pieces alike**: the same, or two closing directives of one family. -/
def Alike (c c' : Chunk) : Prop := c' = c ∨ ∃ f, c.Closes s classify f ∧ c'.Closes s classify f

theorem Alike.symm {s : Settings} {classify : Text → TokenKind} {c c' : Chunk} (h : c.Alike s classify c') :
    c'.Alike s classify c :=
  h.imp Eq.symm fun ⟨f, hc, hc'⟩ => ⟨f, hc', hc⟩

end Delimiter.Chunk

open Delimiter (Chunk)

namespace Scan

variable {s : Settings} {source source' : Text} {classify : Text → TokenKind} {st st' st₁ : Scan}
  {position position' : Nat}

/-- what is added to tokens that are alike leaves them alike -/
theorem add_of_alike (h : List.Forall₂ Token.Alike st.tokens st'.tokens) {kind : TokenKind} {raw : Text} :
    List.Forall₂ Token.Alike (st.add source kind raw position).tokens (st'.add source' kind raw position').tokens := by
  have hnew {line line' : Nat} : Token.Alike ⟨kind, raw, position, line⟩ ⟨kind, raw, position', line'⟩ := .inl rfl
  by_cases hk : kind = .literal
  · subst hk
    unfold add
    split
    · exact h
    · obtain ⟨tokens, counter⟩ := st
      obtain ⟨tokens', counter'⟩ := st'
      cases h with
      | nil => exact .cons hnew .nil
      | @cons t u ts us htu htsus =>
        -- the text joins the last token in both scans or in neither, since that has one kind
        simp only [htu.kind]
        split
        · rename_i hliteral
          have hwritten := htu.resolve_right (by
            rintro ⟨f, hf, -⟩
            rw [Token.kind_of_closes? hf] at hliteral
            cases hliteral)
          refine .cons (.inl ?_) htsus
          rw [Token.written, Token.written, Token.raw_congr hwritten]
        · exact .cons hnew (.cons htu htsus)
  · rw [add_of_ne_literal hk, add_of_ne_literal hk]
    exact .cons hnew h

theorem literal_of_alike (h : List.Forall₂ Token.Alike st.tokens st'.tokens) {text : Text}
    (hrun : st.literal s source text position = .ok st₁) :
    ∃ st₁', st'.literal s source' text position' = .ok st₁' ∧ List.Forall₂ Token.Alike st₁.tokens st₁'.tokens := by
  unfold literal at hrun ⊢
  split at hrun
  · cases hrun
    exact ⟨_, rfl, add_of_alike h⟩
  · cases hrun

/-- a closing directive is a token of its own -/
theorem chunk_of_closes {c : Chunk} {f : Family} (h : c.Closes s classify f) (source : Text) (position : Nat)
    (st : Scan) : ∃ t, t.closes? = some f ∧ ∃ counter,
      st.chunk s classify source position c = .ok ⟨t :: st.tokens, counter⟩ := by
  cases c with
  | directive body =>
    obtain ⟨hopen, hkind, hfamily⟩ := h
    have hstrip : Text.strip body ≠ [] := by
      intro hnil
      rw [hnil] at hfamily
      cases hfamily
    refine ⟨⟨.closing, Text.strip body, position, (st.counter.moveTo source position).line⟩, ?_,
      st.counter.moveTo source position, ?_⟩
    · rw [Token.closes?, if_pos rfl, hfamily]
    · rw [chunk, directive_eq_push hopen hstrip (by rw [hkind]; decide) (by rw [hkind]; decide), hkind]
      rfl
  | _ => exact h.elim

/-- **Pieces alike** are scanned to tokens that are alike, or are both refused. -/
theorem chunk_of_alike (h : List.Forall₂ Token.Alike st.tokens st'.tokens) {c c' : Chunk}
    (hc : c.Alike s classify c') (hrun : st.chunk s classify source position c = .ok st₁) :
    ∃ st₁', st'.chunk s classify source' position' c' = .ok st₁' ∧
      List.Forall₂ Token.Alike st₁.tokens st₁'.tokens := by
  rcases hc with rfl | ⟨f, hf, hf'⟩
  · cases c' with
    | plain text => exact literal_of_alike h hrun
    | tail text => exact literal_of_alike h hrun
    | escaped body =>
      cases hrun
      exact ⟨_, rfl, add_of_alike h⟩
    | directive body =>
      simp only [chunk, directive] at hrun ⊢
      split at hrun
      · cases hrun
      · split at hrun
        · cases hrun
        · rename_i hholds hempty
          rw [if_neg hholds, if_neg hempty]
          split at hrun <;> cases hrun <;> exact ⟨_, rfl, add_of_alike h⟩
  · obtain ⟨t, ht, counter, hone⟩ := chunk_of_closes hf source position st
    obtain ⟨u, hu, counter', hone'⟩ := chunk_of_closes hf' source' position' st'
    rw [hone] at hrun
    cases hrun
    exact ⟨_, hone', .cons (.inr ⟨f, ht, hu⟩) h⟩

theorem run_of_alike {cs cs' : List Chunk} (hcs : List.Forall₂ (Chunk.Alike s classify) cs cs')
    (h : List.Forall₂ Token.Alike st.tokens st'.tokens) (hrun : run s classify source position st cs = .ok st₁) :
    ∃ st₁', run s classify source' position' st' cs' = .ok st₁' ∧ List.Forall₂ Token.Alike st₁.tokens st₁'.tokens := by
  induction hcs generalizing position position' st st' with
  | nil =>
    cases hrun
    exact ⟨_, rfl, h⟩
  | @cons c c' cs cs' hc _ ih =>
    rw [run] at hrun
    split at hrun
    · rename_i st₂ hone
      obtain ⟨st₂', hone', h₂⟩ := chunk_of_alike h hc hone
      obtain ⟨st₁', hrun', h₁⟩ := ih h₂ hrun
      exact ⟨st₁', by rw [run, hone']; exact hrun', h₁⟩
    · cases hrun

end Scan

theorem scan_of_alike {s : Settings} {classify : Text → TokenKind} {source source' : Text} {ts : List Token}
    (h : List.Forall₂ (Chunk.Alike s classify) (Delimiter.chunks s.opening s.closing s.opening_ne source)
      (Delimiter.chunks s.opening s.closing s.opening_ne source')) (hts : scan s classify source = .ok ts) :
    ∃ us, scan s classify source' = .ok us ∧ List.Forall₂ Token.Alike ts us := by
  unfold scan scanAll at hts ⊢
  rw [map_eq_ok] at hts
  obtain ⟨st, hrun, rfl⟩ := hts
  obtain ⟨st', hrun', htokens⟩ : ∃ st', Scan.run s classify source' 0 .start _ = .ok st' ∧ _ :=
    Scan.run_of_alike h .nil hrun
  exact ⟨_, by rw [hrun']; rfl, List.forall₂_reverse_iff.2 htokens⟩

namespace Compiler

variable {comment : Text}

/-- **Closing directives** of a family end its innermost construct with one and the same fragment. -/
theorem token_closes {m : Directive.Mode} {c : Context} {o : OpenConstruct} {rest : List OpenConstruct} {f : Family}
    (h : c.Sound) (hs : c.stack = o :: rest) (hf : o.family = some f) : ∃ fragment, ∀ t : Token, t.closes? = some f →
      token (.standard comment) m t c = .ok (fragment, { c with stack := rest }) := by
  -- no fragment is made of the closing token, so that of any one is that of all
  obtain ⟨fragment, hfragment⟩ := last_eq_ok h hs hf ⟨.closing, [], 0, 1⟩
  refine ⟨fragment, fun t ht => ?_⟩
  have hlast : f.closer.last t c = .ok fragment := by
    apply eq_ok_of_toOption
    rw [last_of_unplaced (t := ⟨.closing, [], 0, 1⟩) rfl f, hfragment]
    rfl
  have hfamily : closedFamily (.standard comment) t = .ok (f, f.closer) := by
    have hk := Token.kind_of_closes? ht
    rw [Token.closes?, if_pos hk, Option.bind_eq_some_iff] at ht
    obtain ⟨name, hname, hfamily⟩ := ht
    simp only [closedFamily, hname, hfamily, Option.bind_some, Registry.closer?_standard, Option.map_some]
  rw [token, Token.kind_of_closes? ht]
  simp only [close, hfamily, ok_bind, hs, hf, BEq.rfl, if_true, hlast]
  rfl

/-- **Sources alike** compile to the same, or are both refused. -/
theorem compile_of_sources {s : Settings} (strict : Option Bool) (names : List Text) {source source' : Text}
    (h : List.Forall₂ (Chunk.Alike s (Registry.standard s.comment).classify)
      (Delimiter.chunks s.opening s.closing s.opening_ne source)
      (Delimiter.chunks s.opening s.closing s.opening_ne source')) :
    ((standard s strict names).compile source').toOption.map effect =
      ((standard s strict names).compile source).toOption.map effect := by
  have hscan (source : Text) : (standard s strict names).scan source =
      (Stencil.scan s (Registry.standard s.comment).classify source).mapError Refusal.fault := rfl
  have hok {source : Text} {ts : List Token}
      (hts : Stencil.scan s (Registry.standard s.comment).classify source = .ok ts) :
      (standard s strict names).scan source = .ok ts := by
    rw [hscan, hts]
    rfl
  have hrefused {source : Text} {e : Fault}
      (he : Stencil.scan s (Registry.standard s.comment).classify source = .error e) :
      ((standard s strict names).compile source).toOption = none := by
    unfold compile
    rw [hscan, he]
    rfl
  cases hts : Stencil.scan s (Registry.standard s.comment).classify source with
  | ok ts =>
    obtain ⟨us, hus, htu⟩ := scan_of_alike h hts
    exact compile_of_alike rfl (hok hts) (hok hus) htu
  | error e =>
    cases hus : Stencil.scan s (Registry.standard s.comment).classify source' with
    | ok us =>
      obtain ⟨ts, hts', -⟩ := scan_of_alike (h.flip.imp fun _ _ => Chunk.Alike.symm) hus
      rw [hts] at hts'
      cases hts'
    | error e' => rw [hrefused hts, hrefused hus]

end Compiler

namespace Compiler

theorem compiles_of_effect {x y : Except Refusal Template} (h : y.toOption.map effect = x.toOption.map effect) :
    (∃ t, x = .ok t) ↔ ∃ t, y = .ok t := by
  have hsome (x : Except Refusal Template) : (∃ t, x = .ok t) ↔ (x.toOption.map effect).isSome = true := by
    cases x with
    | error e => exact ⟨nofun, nofun⟩
    | ok t => exact ⟨fun _ => rfl, fun _ => ⟨t, rfl⟩⟩
  rw [hsome, hsome, h]

/-- a render does not depend on how directives are written -/
theorem render_of_effect {t t' : Template} (h : effect t' = effect t) {data : Value} {values : List (Text × Value)}
    {phrases : Phrases} {mappings : Value} :
    t'.render data values phrases mappings = t.render data values phrases mappings := by
  have hprogram : t'.program = t.program := congrArg (fun p => p.2.1) h
  have hescaping : t'.escaping = t.escaping := congrArg (fun p => p.2.2) h
  unfold Template.render Template.run
  rw [hprogram, hescaping]

end Compiler

/-- the piece, or a directive in the place of one that reads differently -/
def Delimiter.Chunk.Respelled (opening raw raw' : Text) (c c' : Chunk) : Prop :=
  c' = c ∨ ∃ body body', c = .directive body ∧ c' = .directive body' ∧ Text.strip body = raw ∧
    Text.strip body' = raw' ∧ ¬opening <:+: body ∧ ¬opening <:+: body'

namespace Compiler

/-- **Every spelling closes.** A text that the grammar of closing directives takes for the end of a construct of some
family, and that is no comment, is a closing directive, unless the word end stands in it before a blank; then it is
taken for an interpolation, and refused. A closing directive ends the innermost construct of its family with the
fragment that the word end and the name of the family give, and a template in which the one stands for the other, in
any places, compiles to the same and renders the same. -/
theorem closing_closes {comment raw : Text} {f : Family} (h : closing? raw = some f.name)
    (hmark : Text.startsWith raw comment = false) :
    (Registry.standard comment).classify raw = (if endsApart raw then .interpolation else .closing) ∧
    (endsApart raw = true → Reference.parse raw = .error (.fault (.of (.invalidReference raw) raw))) ∧
    (∀ (m : Directive.Mode) (c : Context) (o : OpenConstruct) (rest : List OpenConstruct), c.Sound →
      c.stack = o :: rest → o.family = some f → ∃ fragment, ∀ (spelled : Text) (position line : Nat),
        spelled = raw ∨ spelled = "end".toList ++ f.name →
        token (.standard comment) m ⟨.closing, spelled, position, line⟩ c =
          .ok (fragment, { c with stack := rest })) ∧
    (endsApart raw = false → Text.startsWith ("end".toList ++ f.name) comment = false →
      ∀ (s : Settings) (strict : Option Bool) (names : List Text) (source source' : Text), s.comment = comment →
        List.Forall₂ (Chunk.Respelled s.opening raw ("end".toList ++ f.name))
          (Delimiter.chunks s.opening s.closing s.opening_ne source)
          (Delimiter.chunks s.opening s.closing s.opening_ne source') →
        ((∃ t, (standard s strict names).compile source = .ok t) ↔
          ∃ t, (standard s strict names).compile source' = .ok t) ∧
        ∀ t t', (standard s strict names).compile source = .ok t → (standard s strict names).compile source' = .ok t' →
          t'.fragments = t.fragments ∧ ∀ (data : Value) (values : List (Text × Value)) (phrases : Phrases)
            (mappings : Value), t'.render data values phrases mappings = t.render data values phrases mappings) := by
  have hshort : closing? ("end".toList ++ f.name) = some f.name := closing?_end f.isRun_name
  have hcloses {spelled : Text} (hspelled : closing? spelled = some f.name) (position line : Nat) :
      (⟨.closing, spelled, position, line⟩ : Token).closes? = some f := by
    rw [Token.closes?, if_pos rfl, hspelled, Option.bind_some, f.ofName?_name]
  refine ⟨Registry.classify_of_closing? h hmark, Reference.parse_of_endsApart h, ?_, ?_⟩
  · intro m c o rest hsound hs hf
    obtain ⟨fragment, hfragment⟩ := @token_closes comment m c o rest f hsound hs hf
    refine ⟨fragment, fun spelled position line hspelled => hfragment _ ?_⟩
    rcases hspelled with rfl | rfl
    · exact hcloses h position line
    · exact hcloses hshort position line
  · intro hapart hmark' s strict names source source' hs hpieces
    subst hs
    have hkind : (Registry.standard s.comment).classify raw = .closing := by
      rw [Registry.classify_of_closing? h hmark, hapart]
      rfl
    have hkind' : (Registry.standard s.comment).classify ("end".toList ++ f.name) = .closing := by
      rw [Registry.classify_of_closing? hshort hmark', f.endsApart_name]
      rfl
    have halike : ∀ c c' : Chunk, c.Respelled s.opening raw ("end".toList ++ f.name) c' →
        c.Alike s (Registry.standard s.comment).classify c' := by
      rintro c c' (hsame | ⟨body, body', rfl, rfl, hbody, hbody', hopen, hopen'⟩)
      · exact .inl hsame
      · refine .inr ⟨f, ⟨hopen, ?_, ?_⟩, ⟨hopen', ?_, ?_⟩⟩
        · rw [hbody, hkind]
        · rw [hbody, h, Option.bind_some, f.ofName?_name]
        · rw [hbody', hkind']
        · rw [hbody', hshort, Option.bind_some, f.ofName?_name]
    have heffect := compile_of_sources strict names (hpieces.imp halike)
    refine ⟨compiles_of_effect heffect, fun t t' ht ht' => ?_⟩
    rw [ht, ht'] at heffect
    have hsame : effect t' = effect t := Option.some.inj heffect
    exact ⟨congrArg Prod.fst hsame, fun data values phrases mappings => render_of_effect hsame⟩

/-- the end of a loop with blanks behind the slash -/
theorem closing_closes_loop :
    let source : Text := "\x7b\x7bfor v in a\x7d\x7d\x7b\x7bv\x7d\x7d\x7b\x7b /\t for \x7d\x7d"
    let source' : Text := "\x7b\x7bfor v in a\x7d\x7d\x7b\x7bv\x7d\x7d\x7b\x7bendfor\x7d\x7d"
    (Registry.standard "#").classify "/\t for" = .closing ∧
      (∃ t t', (standard .standard none []).compile source = .ok t ∧
        (standard .standard none []).compile source' = .ok t' ∧
        ∀ (data : Value) (values : List (Text × Value)) (phrases : Phrases) (mappings : Value),
          t'.render data values phrases mappings = t.render data values phrases mappings) := by
  intro source source'
  have hcloses := @closing_closes "#" "/\t for" .loop (by decide) (by decide)
  have hpieces :
      Delimiter.chunks Settings.standard.opening Settings.standard.closing Settings.standard.opening_ne source =
        [.directive "for v in a", .directive "v", .directive " /\t for "] := by decide +kernel
  have hpieces' :
      Delimiter.chunks Settings.standard.opening Settings.standard.closing Settings.standard.opening_ne source' =
        [.directive "for v in a", .directive "v", .directive "endfor"] := by decide +kernel
  have hlast : Chunk.Respelled Settings.standard.opening "/\t for" ("end".toList ++ Family.loop.name)
      (.directive " /\t for ") (.directive "endfor") :=
    .inr ⟨_, _, rfl, rfl, by decide, by decide, by decide, by decide⟩
  obtain ⟨hcompiles, hsame⟩ := hcloses.2.2.2 (by decide) (by decide) .standard none [] source source' rfl
    (by rw [hpieces, hpieces']; exact .cons (.inl rfl) (.cons (.inl rfl) (.cons hlast .nil)))
  have hsome : ((standard .standard none []).compile source).toOption.isSome = true := by decide +kernel
  obtain ⟨t, ht⟩ := Option.isSome_iff_exists.1 hsome
  obtain ⟨t', ht'⟩ := hcompiles.1 ⟨t, eq_ok_of_toOption ht⟩
  exact ⟨hcloses.1, t, t', eq_ok_of_toOption ht, ht', (hsame t t' (eq_ok_of_toOption ht) ht').2⟩

/-- the word end in front of a blank is no closing directive -/
theorem end_apart :
    closing? "end for" = some Family.loop.name ∧ Text.startsWith "end for" "#" = false ∧
      (Registry.standard "#").classify "end for" ≠ .closing ∧
      ∀ t, (standard .standard none []).compile "\x7b\x7bfor v in a\x7d\x7d\x7b\x7bend for\x7d\x7d" ≠ .ok t := by
  refine ⟨by decide, by decide, by decide, fun t ht => ?_⟩
  have hrefused : ((standard .standard none []).compile
      "\x7b\x7bfor v in a\x7d\x7d\x7b\x7bend for\x7d\x7d").toOption.isSome = false := by decide +kernel
  rw [ht] at hrefused
  cases hrefused

end Compiler

end Stencil
