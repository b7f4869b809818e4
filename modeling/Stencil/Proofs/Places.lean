/-
FAULTS POINT AT THEIR DIRECTIVES. Whatever is wrong with a template, its fault has a place: a scan fails where the
opening mark stands, a directive that cannot be compiled is located at its token, and a construct that stays open at
the token that opened it.

- `literalFrom_error`: literal text fails at an opening mark.
- `Scan.lands_run`, `marked_scan`: what a scan finds stands at opening marks, and so do its faults.
- `Compiler.stack_of_token`, `Compiler.tokens_at`: compiling tokens fails at one of them, and leaves those open that
  opened a construct.
- `Diagnostic.lineAround_isLine`, `Diagnostic.context_pointsAt`: a report shows the whole line of its place.
- `Compiler.compile_fault_at`: every fault of a template stands at an opening mark, on the line that is told, and its
  report shows that line with a caret under the mark.
-/
import Stencil.Proofs.Digits
import Stencil.Proofs.Tokens
import Stencil.Report

namespace Stencil

/-! ## Places at marks -/

/-- an opening mark stands at the place, and its line is the one in which it stands -/
structure Place.AtMark (s : Settings) (source : Text) (p : Place) : Prop where
  mark : s.opening <+: source.drop p.position
  line : p.line = 1 + Text.lineFeeds (source.take p.position)

/-- the fault is located at an opening mark -/
def Fault.AtMark (s : Settings) (source : Text) (f : Fault) : Prop := ∃ p, f.place = some p ∧ p.AtMark s source

/-- a fault is located at an opening mark -/
def Refusal.AtMark (s : Settings) (source : Text) : Refusal → Prop
  | .fault f => f.AtMark s source
  | _ => True

/-! ## Scanning -/

/-- literal text that cannot be written out has an opening mark where it fails -/
theorem literalFrom_error {opening : Text} {ne : opening ≠ []} {offset : Nat} {lead s : Text} {e : Nat × Text}
    (h : literalFrom opening ne offset lead s = .error e) :
    ∃ before after, s = before ++ opening ++ after ∧ e.1 = offset + before.length := by
  fun_induction literalFrom opening ne offset lead s generalizing e with
  | case1 offset lead s hcut => cases h
  | case2 offset lead s before rest hcut hescaped ih =>
    have hmore : literalFrom opening ne (offset + before.length + opening.length) opening rest = .error e := by
      cases hmore : literalFrom opening ne (offset + before.length + opening.length) opening rest with
      | error e' =>
        rw [hmore] at h
        exact congrArg Except.error (Except.error.inj h)
      | ok more =>
        rw [hmore] at h
        cases h
    obtain ⟨before', after, hrest, he⟩ := ih hmore
    refine ⟨before ++ opening ++ before', after, ?_, ?_⟩
    · rw [Text.eq_of_cut? hcut, hrest]
      simp
    · simp [he]
      omega
  | case3 offset lead s before rest hcut hescaped =>
    obtain rfl := (Except.error.inj h).symm
    exact ⟨before, rest, Text.eq_of_cut? hcut, rfl⟩

namespace Scan

variable {s : Settings} {classify : Text → TokenKind} {source : Text} {st : Scan} {position : Nat}

/-- what a scan has found: the lines are counted, and directives stand at opening marks -/
structure Marked (s : Settings) (source : Text) (st : Scan) : Prop where
  counter : st.counter.Counts source
  tokens : ∀ t ∈ st.tokens, t.kind ≠ .literal → t.place.AtMark s source

theorem marked_start : Marked s source .start := ⟨LineCounter.counts_start source, by simp [start]⟩

/-- a scan that goes on has found what stands at marks, and one that fails does so at a mark -/
def Lands (s : Settings) (source : Text) : Except Fault Scan → Prop
  | .ok st => st.Marked s source
  | .error f => f.AtMark s source

theorem lands_fail {cause : Cause} {raw : Text} (h : st.Marked s source) (hmark : s.opening <+: source.drop position) :
    Lands s source (st.fail source cause raw position) :=
  ⟨_, rfl, hmark, (LineCounter.counts_moveTo h.counter position).2⟩

theorem marked_push {kind : TokenKind} {raw : Text} (h : st.Marked s source)
    (hmark : kind ≠ .literal → s.opening <+: source.drop position) :
    (st.push source kind raw position).Marked s source := by
  obtain ⟨hcounter, hline⟩ := LineCounter.counts_moveTo h.counter position
  refine ⟨hcounter, ?_⟩
  intro t ht hk
  rcases List.mem_cons.1 ht with rfl | ht
  · exact ⟨hmark hk, hline⟩
  · exact h.tokens t ht hk

theorem marked_add {kind : TokenKind} {raw : Text} (h : st.Marked s source)
    (hmark : kind ≠ .literal → s.opening <+: source.drop position) :
    (st.add source kind raw position).Marked s source := by
  by_cases hk : kind = .literal
  · subst hk
    have hcounter := (LineCounter.counts_moveTo h.counter position).1
    by_cases hraw : raw = []
    · have hadd : st.add source .literal raw position = { st with counter := st.counter.moveTo source position } := by
        simp [add, hraw]
      rw [hadd]
      exact ⟨hcounter, h.tokens⟩
    · by_cases hlast : ∀ t ∈ st.tokens.head?, t.kind ≠ .literal
      · rw [add_literal hraw position hlast]
        exact marked_push h hmark
      · obtain ⟨last, before, htokens, hk⟩ : ∃ last before, st.tokens = last :: before ∧ last.kind = .literal := by
          cases htokens : st.tokens with
          | nil => simp [htokens] at hlast
          | cons last before => exact ⟨last, before, rfl, by simpa [htokens] using hlast⟩
        rw [add_joined hraw position htokens hk]
        refine ⟨hcounter, ?_⟩
        intro t ht hne
        rcases List.mem_cons.1 ht with rfl | ht
        · exact absurd hk hne
        · exact h.tokens t (by simp [htokens, ht]) hne
  · rw [add_of_ne_literal hk]
    exact marked_push h hmark

theorem lands_literal {text : Text} (h : st.Marked s source) (htext : text <+: source.drop position) :
    Lands s source (st.literal s source text position) := by
  unfold literal
  split
  · exact marked_add h fun hne => absurd rfl hne
  · rename_i offset rest herror
    refine lands_fail h ?_
    obtain ⟨before, after, rfl, hoffset⟩ := literalFrom_error herror
    obtain ⟨more, hmore⟩ := htext
    obtain rfl : offset = before.length := by simpa using hoffset
    refine ⟨after ++ more, ?_⟩
    rw [← List.drop_drop, ← hmore]
    simp

theorem lands_directive {body : Text} (h : st.Marked s source) (hmark : s.opening <+: source.drop position) :
    Lands s source (st.directive s classify source body position) := by
  unfold directive
  split
  · exact lands_fail h hmark
  · simp only
    split
    · exact lands_fail h hmark
    · split
      · exact marked_add h fun _ => hmark
      · exact marked_add h fun _ => hmark

/-- **One piece more** is found at its marks, if it stands where the scan is. -/
theorem lands_chunk {c : Delimiter.Chunk} (h : st.Marked s source)
    (hc : c.source s.opening s.closing <+: source.drop position) :
    Lands s source (st.chunk s classify source position c) := by
  cases c with
  | plain text => exact lands_literal h hc
  | tail text => exact lands_literal h hc
  | escaped body => exact marked_add h fun hne => absurd rfl hne
  | directive body =>
    refine lands_directive h (List.IsPrefix.trans ?_ hc)
    rw [Delimiter.Chunk.source, List.append_assoc]
    exact List.prefix_append _ _

/-- **All pieces** are found at their marks. -/
theorem lands_run {cs : List Delimiter.Chunk} (h : st.Marked s source)
    (hcs : cs.flatMap (Delimiter.Chunk.source s.opening s.closing) = source.drop position) :
    Lands s source (run s classify source position st cs) := by
  induction cs generalizing st position with
  | nil => exact h
  | cons c cs ih =>
    rw [List.flatMap_cons] at hcs
    have hchunk : Lands s source (st.chunk s classify source position c) :=
      lands_chunk h (hcs ▸ List.prefix_append _ _)
    rw [run]
    cases hstep : st.chunk s classify source position c with
    | error f =>
      rw [hstep] at hchunk
      exact hchunk
    | ok st' =>
      rw [hstep] at hchunk
      refine ih hchunk ?_
      rw [← List.drop_drop, ← hcs, List.drop_left]

end Scan

/-- **A scan** finds directives at opening marks, and fails at one. -/
theorem marked_scan (s : Settings) (classify : Text → TokenKind) (source : Text) :
    match scan s classify source with
    | .ok ts => ∀ t ∈ ts, t.kind ≠ .literal → t.place.AtMark s source
    | .error f => f.AtMark s source := by
  have hlands : Scan.Lands s source (scanAll s classify source) :=
    Scan.lands_run Scan.marked_start (Delimiter.source_chunks _ _ s.opening_ne source)
  rw [scan]
  cases hscan : scanAll s classify source with
  | error f =>
    rw [hscan] at hlands
    exact hlands
  | ok st =>
    rw [hscan] at hlands
    intro t ht
    exact hlands.tokens t (List.mem_reverse.1 ht)

/-! ## Compiling -/

namespace Compiler

variable {comment source : Text} {m : Directive.Mode} {s : Settings}

/-- a branch leaves the same constructs open -/
theorem stack_of_branch {t : Token} {c c' : Context} (h : branch t c = .ok c') :
    c'.stack.map (·.token) = c.stack.map (·.token) := by
  unfold branch at h
  split at h
  · rename_i o rest hs
    split at h
    · split at h
      · cases h
      · split at h
        · cases h
          simp [hs]
        · cases h
          rfl
    · cases h
  · cases h

/-- the constructs that are open after a token are some of those before it, and the one that it opens -/
theorem stack_of_token {t : Token} {c : Context} {p : Fragment × Context} (ht : t.Classified (.standard comment))
    (h : token (.standard comment) m t c = .ok p) :
    ∀ u ∈ p.2.stack.map (·.token), (u = t ∧ t.kind ≠ .literal) ∨ u ∈ c.stack.map (·.token) := by
  obtain ⟨i, hi⟩ := Instruction.read_of_token ht h
  rw [Instruction.token_of_read ht hi] at h
  have hfits := Instruction.fits_of_read hi
  intro u hu
  cases i with
  | act a =>
    rw [Instruction.compile] at h
    split at h
    · cases h
    · cases h
      exact .inr hu
  | opening o =>
    rw [Instruction.compile] at h
    split at h
    · cases h
    · cases h
      rcases List.mem_cons.1 hu with rfl | hu
      · exact .inl ⟨rfl, by rw [hfits.1]; cases o.family <;> decide⟩
      · exact .inr hu
  | when cond =>
    have hk : t.kind = .when := hfits
    cases h
    rcases List.mem_cons.1 hu with rfl | hu
    · exact .inl ⟨rfl, by rw [hk]; decide⟩
    · exact .inr hu
  | elsewhen cond =>
    obtain ⟨c', hbranch, rfl⟩ := map_eq_ok.1 h
    exact .inr (stack_of_branch hbranch ▸ hu)
  | otherwise =>
    obtain ⟨c', hbranch, rfl⟩ := map_eq_ok.1 h
    exact .inr (stack_of_branch hbranch ▸ hu)
  | closing f =>
    rw [Instruction.compile] at h
    split at h
    · cases h
    · rename_i o rest hs
      split at h
      · obtain ⟨fragment, -, rfl⟩ := map_eq_ok.1 h
        rw [hs]
        exact .inr (List.mem_cons_of_mem _ hu)
      · cases h

/-- **Compiling tokens** that stand at their marks fails at one of them, and leaves constructs open that began at
one. -/
theorem tokens_at {ts : List Token} {c : Context} (hclass : ∀ t ∈ ts, t.Classified (.standard comment))
    (hts : ∀ t ∈ ts, t.kind ≠ .literal → t.place.AtMark s source)
    (hc : ∀ u ∈ c.stack.map (·.token), u.place.AtMark s source) :
    match tokens (.standard comment) m c ts with
    | .ok p => ∀ u ∈ p.2.stack.map (·.token), u.place.AtMark s source
    | .error e => e.AtMark s source := by
  induction ts generalizing c with
  | nil => exact hc
  | cons t ts ih =>
    obtain ⟨ht, hclass⟩ := List.forall_mem_cons.1 hclass
    obtain ⟨hat, hts⟩ := List.forall_mem_cons.1 hts
    rw [tokens]
    cases htoken : token (.standard comment) m t c with
    | error e =>
      have hunplaced := fails_token ht e htoken
      cases e with
      | fault f =>
        have hk : t.kind ≠ .literal := by
          intro hk
          rw [token, hk] at htoken
          cases htoken
        have hplace : f.place = none := hunplaced
        exact ⟨t.place, by simp [Fault.locate, hplace], hat hk⟩
      | _ => trivial
    | ok p =>
      obtain ⟨f, c'⟩ := p
      have hc' : ∀ u ∈ c'.stack.map (·.token), u.place.AtMark s source := by
        intro u hu
        rcases stack_of_token ht htoken u hu with ⟨rfl, hk⟩ | hu
        · exact hat hk
        · exact hc u hu
      have hrest := ih hclass hts hc'
      simp only
      cases htokens : tokens (.standard comment) m c' ts with
      | error e =>
        rw [htokens] at hrest
        exact hrest
      | ok q =>
        rw [htokens] at hrest
        exact hrest

/-- a construct that is never closed is a fault at its beginning -/
theorem fails_fragments_at {k : Compiler} (hk : k.registry = .standard comment) {ts : List Token}
    (hclass : ∀ t ∈ ts, t.Classified (.standard comment))
    (hts : ∀ t ∈ ts, t.kind ≠ .literal → t.place.AtMark s source) :
    Fails (Refusal.AtMark s source) (k.fragments ts) := by
  have htokens := tokens_at (m := k.mode) (c := .start) hclass hts (by simp [Context.start])
  rw [fragments, hk]
  cases h : tokens (.standard comment) k.mode .start ts with
  | error e =>
    rw [h] at htokens
    exact fails_error htokens
  | ok p =>
    obtain ⟨fs, c⟩ := p
    rw [h] at htokens
    rw [ok_bind]
    refine fails_bind ?_ fun _ => fails_ok _
    rw [checkClosed]
    split
    · exact fails_ok _
    · rename_i o rest hs
      exact fails_error ⟨o.token.place, rfl, htokens o.token (by simp [hs])⟩

/-- **A template** fails at an opening mark, if it has a fault. -/
theorem fails_compile_at (s : Settings) (strict : Option Bool) (names : List Text) (source : Text) :
    Fails (Refusal.AtMark s source) ((standard s strict names).compile source) := by
  have hlands := marked_scan s (Registry.standard s.comment).classify source
  have hscanner : (standard s strict names).scan source =
      (Stencil.scan s (Registry.standard s.comment).classify source).mapError .fault := rfl
  cases hscan : Stencil.scan s (Registry.standard s.comment).classify source with
  | error f =>
    rw [hscan] at hlands hscanner
    rw [compile, hscanner]
    exact fails_error hlands
  | ok ts =>
    rw [hscan] at hlands hscanner
    have hclass : ∀ t ∈ ts, t.Classified (.standard s.comment) := classified_of_scan hscanner
    have hregistry : (standard s strict names).registry = .standard s.comment := rfl
    have hfragments := fails_fragments_at hregistry hclass hlands
    rw [compile, hscanner, Except.mapError, ok_bind]
    refine fails_bind hfragments fun fs => ?_
    refine fails_bind ?_ fun _ => fails_ok _
    intro e hcode
    cases e with
    | fault f => exact absurd rfl (not_fault_of_checkCode hcode f)
    | _ => trivial

end Compiler

/-! ## Reports -/

namespace Text

/-- a line stands behind `before` in a text: from the end of the line before it up to its own -/
structure IsLine (source before line : Text) : Prop where
  begins : before = [] ∨ before.getLast? = some '\n'
  ends : before ++ line = source ∨ before ++ line ++ ['\n'] <+: source
  single : '\n' ∉ line

theorem dropWhile_ne (c : Char) (s : Text) : s.dropWhile (· != c) = [] ∨ ∃ r, s.dropWhile (· != c) = c :: r := by
  have hhead := List.head?_dropWhile_not (· != c) s
  cases h : s.dropWhile (· != c) with
  | nil => exact .inl rfl
  | cons d r =>
    rw [h] at hhead
    obtain rfl : d = c := by simpa using hhead
    exact .inr ⟨r, rfl⟩

theorem notMem_takeWhile_ne (c : Char) (s : Text) : c ∉ s.takeWhile (· != c) := by
  intro hmem
  simpa using List.mem_takeWhile_imp hmem

end Text

namespace Diagnostic

/-- **The line around an offset** is a whole line of the text, and the offset lies in it or at its end. -/
theorem lineAround_isLine (source : Text) {n : Nat} (hn : n ≤ source.length) :
    ∃ before, Text.IsLine source before (lineAround source n).1 ∧ (lineAround source n).2 = before.length ∧
      before.length ≤ n ∧ (lineAround source n).1.drop (n - before.length) = (source.drop n).takeWhile (· != '\n') := by
  have htake := List.takeWhile_append_dropWhile (p := (· != '\n')) (l := (source.take n).reverse)
  have hdrop := List.takeWhile_append_dropWhile (p := (· != '\n')) (l := source.drop n)
  rw [lineAround]
  -- the line is what precedes the offset, read backwards up to a line feed, and what follows it
  generalize hback : (source.take n).reverse.takeWhile (· != '\n') = back at htake ⊢
  generalize hrest : (source.take n).reverse.dropWhile (· != '\n') = rest at htake
  generalize hfront : (source.drop n).takeWhile (· != '\n') = front at hdrop ⊢
  generalize hafter : (source.drop n).dropWhile (· != '\n') = after at hdrop
  have htaken : source.take n = rest.reverse ++ back.reverse := by
    rw [← List.reverse_append, htake, List.reverse_reverse]
  have hsource : source = rest.reverse ++ (back.reverse ++ front) ++ after := by
    rw [← List.take_append_drop n source, htaken, ← hdrop]
    simp
  have hlength : n = rest.length + back.length := by
    have := congrArg List.length htaken
    simpa [hn] using this
  refine ⟨rest.reverse, ⟨?_, ?_, ?_⟩, ?_, ?_, ?_⟩
  · rcases Text.dropWhile_ne '\n' (source.take n).reverse with h | ⟨r, h⟩ <;> rw [hrest] at h <;> subst h
    · exact .inl rfl
    · exact .inr (by simp)
  · rcases Text.dropWhile_ne '\n' (source.drop n) with h | ⟨r, h⟩ <;> rw [hafter] at h <;> subst h
    · exact .inl (by simpa using hsource.symm)
    · refine .inr ⟨r, ?_⟩
      rw [hsource]
      simp
  · rw [← hback, ← hfront, List.mem_append, List.mem_reverse, not_or]
    exact ⟨Text.notMem_takeWhile_ne '\n' _, Text.notMem_takeWhile_ne '\n' _⟩
  · simp
    omega
  · simp
    omega
  · simp [hlength]

/-- behind its head, a report shows the whole line in which an offset lies, and a caret under its character -/
def PointsAt (source head report : Text) (n : Nat) : Prop :=
  ∃ before row : Text, Text.IsLine source before row ∧ before.length ≤ n ∧ n < before.length + row.length ∧
    row[n - before.length]? = source[n]? ∧
    report = Text.cat [head, "\nContext: ", row, "\n",
      List.replicate ("Context: ".toList.length + (n - before.length)) ' ', "^"]

/-- **A report** of a place that is not at the end of a line points at it. -/
theorem context_pointsAt {source : Text} {d : Diagnostic} {n line : Nat} {c : Char}
    (hposition : d.position = some (n : Int)) (hline : d.line = some (line : Int)) (hc : source[n]? = some c)
    (hbreak : c ≠ '\n') :
    PointsAt source (Text.cat [d.head, "\nLine ", Text.ofNat line, ", position ", Text.ofNat n]) (d.context source)
      n := by
  obtain ⟨hn, hget⟩ := List.getElem?_eq_some_iff.1 hc
  obtain ⟨before, hisLine, hstart, hle, hrest⟩ := lineAround_isLine source (Nat.le_of_lt hn)
  have hfront : (source.drop n).takeWhile (· != '\n') = c :: (source.drop (n + 1)).takeWhile (· != '\n') := by
    rw [List.drop_eq_getElem_cons hn, hget, List.takeWhile_cons, if_pos (by simpa using hbreak)]
  rw [hfront] at hrest
  have hat : (lineAround source n).1[n - before.length]? = some c := by
    rw [← List.head?_drop, hrest]
    rfl
  have hlt : n - before.length < (lineAround source n).1.length := (List.getElem?_eq_some_iff.1 hat).1
  refine ⟨before, (lineAround source n).1, hisLine, hle, by omega, hat.trans hc.symm, ?_⟩
  have hoffset : offset source.length (n : Int) = n := by
    have hnonneg : ¬ (n : Int) < 0 := by omega
    rw [offset, if_neg hnonneg, Int.toNat_natCast, Nat.min_eq_left (Nat.le_of_lt hn)]
  have hcolumn : ((n : Int) - (before.length : Int)).toNat = n - before.length := by omega
  have hcaret : "\n         ".toList ++ List.replicate (n - before.length) ' ' =
      "\n".toList ++ List.replicate ("Context: ".toList.length + (n - before.length)) ' ' := by
    rw [List.replicate_add, ← List.append_assoc]
    congr 1
  have hcontext : d.context source = Text.cat [d.head, "\nLine ", Text.ofNat line, ", position ", Text.ofNat n,
      "\nContext: ", (lineAround source n).1, "\n         ", List.replicate (n - before.length) ' ', "^"] := by
    rw [context, contextWith, hposition, hline]
    simp only [hoffset, hstart, hcolumn, id]
    rfl
  rw [hcontext]
  simp only [Text.cat, List.flatten_cons, List.flatten_nil, List.append_assoc, List.append_nil]
  rw [← List.append_assoc "\n         ".toList, hcaret, List.append_assoc]

end Diagnostic

namespace Compiler

/-- **Every fault points at its directive.** The fault of a template has a place where the opening mark stands, and
tells the line in which it stands. If the opening mark does not begin with a line feed, then the report of the fault
shows the whole line of the place, with a caret under the first character of the mark. -/
theorem compile_fault_at (s : Settings) (strict : Option Bool) (names : List Text) (source : Text) (f : Fault)
    (h : (standard s strict names).compile source = .error (.fault f)) :
    ∃ p : Place, f.place = some p ∧ s.opening <+: source.drop p.position ∧
      p.line = 1 + Text.lineFeeds (source.take p.position) ∧
      (s.opening.head? ≠ some '\n' → Diagnostic.PointsAt source
        (Text.cat [f.diagnostic.head, "\nLine ", Text.ofNat p.line, ", position ", Text.ofNat p.position])
        (f.diagnostic.context source) p.position) := by
  obtain ⟨p, hp, hmark, hline⟩ : f.AtMark s source := fails_compile_at s strict names source _ h
  refine ⟨p, hp, hmark, hline, fun hbreak => ?_⟩
  obtain ⟨c, opening, hopening⟩ := List.exists_cons_of_ne_nil s.opening_ne
  have hc : source[p.position]? = some c := by
    rw [hopening] at hmark
    obtain ⟨rest, hrest⟩ := hmark
    rw [← List.head?_drop, ← hrest]
    rfl
  refine Diagnostic.context_pointsAt ?_ ?_ hc fun heq => hbreak (by rw [hopening, heq]; rfl)
  · simp [Fault.diagnostic, hp]
  · simp [Fault.diagnostic, hp]

/-- a closing directive on the third line that does not close the loop of the second one -/
theorem compile_wrong_closing :
    let source : Text := "a\nb \x7b\x7b for x in y \x7d\x7d\nc\x7b\x7b endif \x7d\x7d d"
    let f : Fault := ⟨.wrongClosing "endif" "for x in y" 2, "endif", some ⟨22, 3⟩⟩
    (standard .standard none []).compile source = .error (.fault f) ∧
      f.diagnostic.context source = Text.cat ["UnmatchedDirective: 'endif' cannot close 'for x in y' opened at line 2",
        "\nLine 3, position 22\nContext: c\x7b\x7b endif \x7d\x7d d\n          ^"] ∧
      ∃ p : Place, f.place = some p ∧ ['\x7b', '\x7b'] <+: source.drop p.position ∧
        p.line = 1 + Text.lineFeeds (source.take p.position) ∧
        Diagnostic.PointsAt source
          (Text.cat [f.diagnostic.head, "\nLine ", Text.ofNat p.line, ", position ", Text.ofNat p.position])
          (f.diagnostic.context source) p.position := by
  intro source f
  have hfault : (match (standard .standard none []).compile source with
      | .error e => some e
      | .ok _ => none) = some (.fault f) := by decide +kernel
  have hcompile : (standard .standard none []).compile source = .error (.fault f) := by
    cases h : (standard .standard none []).compile source with
    | error e =>
      rw [h] at hfault
      exact congrArg Except.error (Option.some.inj hfault)
    | ok t =>
      rw [h] at hfault
      cases hfault
  obtain ⟨p, hp, hmark, hline, hpoints⟩ := compile_fault_at .standard none [] source f hcompile
  exact ⟨hcompile, by decide +kernel, p, hp, hmark, hline, hpoints (by decide)⟩

end Compiler

end Stencil
