/-
CODE BY ITS INDENTATION. The code of a template is a head and the lines of its fragments, each as far in as its depth
says, and comments among them. Read back by the spaces in front of its lines it is the same list of lines, whatever
the width of a level is and whether directives are told; and that list is in blocks.

- `readCode_programCode`: the code read back is the head and the lines of the fragments at their depths.
- `bodies_rows`: in the lines of a block each head is followed by its body, and nothing else goes deeper.
- `branches_rows`: in the lines of a block each branch goes on with a conditional of its depth.
- `code_in_blocks`: the code of tokens that compile.
-/
import Stencil.Proofs.Levels
import Stencil.Proofs.Visible

namespace Stencil

/-! ## Reading code back -/

/-- the line is a comment -/
def isComment (line : Text) : Bool := (line.dropWhile (· == ' ')).head? == some '#'

/-- the depth and the text of a line whose spaces make up whole levels -/
def readLine? (width : Nat) (line : Text) : Option (Int × Text) :=
  let spaces := (line.takeWhile (· == ' ')).length
  if spaces % width == 0 then some ((spaces / width : Nat), line.dropWhile (· == ' ')) else none

/-- the lines of code with their depths, comments left out; the last line ends in a line feed too -/
def readCode? (width : Nat) (code : Text) : Option (List (Int × Text)) :=
  ((Text.parts '\n' code).dropLast.filter fun line => !isComment line).mapM (readLine? width)

namespace Text

theorem parts_ne_nil (mark : Char) (s : Text) : parts mark s ≠ [] := by
  cases s with
  | nil => exact nofun
  | cons c cs =>
    rw [parts]
    split
    · exact nofun
    · split <;> exact nofun

theorem parts_append {mark : Char} {s : Text} (hs : mark ∉ s) (t : Text) :
    parts mark (s ++ mark :: t) = s :: parts mark t := by
  induction s with
  | nil =>
    rw [List.nil_append, parts]
    split
    · rename_i hnil
      exact absurd hnil (parts_ne_nil mark t)
    · rename_i hparts
      simp [hparts]
  | cons c s ih =>
    rw [List.mem_cons, not_or] at hs
    obtain ⟨hc, hs⟩ := hs
    have hne : (c == mark) = false := beq_false_of_ne (Ne.symm hc)
    rw [List.cons_append, parts, ih hs]
    simp [hne]

/-- **Lines that are ended by a mark** are the parts between the marks. -/
theorem parts_sep {mark : Char} {lines : List Text} (hlines : ∀ line ∈ lines, mark ∉ line) (hne : lines ≠ []) :
    parts mark (sep [mark] lines ++ [mark]) = lines ++ [[]] := by
  induction lines using sep.induct with
  | case1 => exact absurd rfl hne
  | case2 line => exact parts_append (hlines line (by simp)) []
  | case3 line next rest ih =>
    obtain ⟨hline, hrest⟩ := List.forall_mem_cons.1 hlines
    rw [sep, List.append_assoc, List.append_assoc, List.singleton_append, parts_append hline,
      ih hrest (List.cons_ne_nil next rest)]
    rfl

end Text

/-! ## Rows -/

/-- a line at its indentation -/
def Settings.row (s : Settings) (r : Int × Text) : Text := s.indentation r.1 ++ r.2

/-- a line of a program as code -/
def Line.row (l : Line) : Int × Text := (l.depth, l.stmt.code)

/-- what a token adds to the code at a depth -/
def tokenRows (s : Settings) (d : Int) (p : Token × Fragment) : List (Int × Text) :=
  (if s.annotate && p.1.kind != .literal then [(d, remark p.1)] else []) ++
    (placeLines d [p.2]).map Line.row

/-- what tokens add to the code from a depth on -/
def rows (s : Settings) (d : Int) : List (Token × Fragment) → List (Int × Text)
  | [] => []
  | p :: ps => tokenRows s d p ++ rows s (d + p.2.shift) ps

section

variable (s : Settings)

theorem addFragment_eq (lines : List (Int × Text)) (shift : Int) (l : Layout) :
    l.addFragment s lines shift =
      ⟨l.depth + shift, (lines.map fun r => s.row (l.depth + r.1, r.2)).reverse ++ l.lines⟩ := by
  have hfold : ∀ acc : Layout, acc.depth = l.depth →
      lines.foldl (fun acc line => acc.addAt s (l.depth + line.1) line.2) acc =
        ⟨l.depth, (lines.map fun r => s.row (l.depth + r.1, r.2)).reverse ++ acc.lines⟩ := by
    induction lines with
    | nil =>
      intro acc hacc
      rw [← hacc]
      rfl
    | cons r lines ih =>
      intro acc hacc
      rw [List.foldl_cons, ih (acc.addAt s (l.depth + r.1) r.2) hacc]
      simp [Layout.addAt, Settings.row]
  unfold Layout.addFragment
  rw [hfold l rfl]

theorem addToken_eq (l : Layout) (p : Token × Fragment) :
    addToken s l p = ⟨l.depth + p.2.shift, ((tokenRows s l.depth p).map s.row).reverse ++ l.lines⟩ := by
  have hlines (d : Int) : (p.2.codeLines.map fun r => s.row (d + r.1, r.2)) =
      ((placeLines d [p.2]).map Line.row).map s.row := by
    simp [Fragment.codeLines, placeLines, Line.row, Function.comp_def]
  unfold addToken
  simp only [addFragment_eq, hlines, tokenRows]
  split
  · simp [Layout.add, Layout.addAt, Settings.row]
  · simp

/-- the layout of a program by its rows -/
theorem programLayout_eq (ps : List (Token × Fragment)) :
    programLayout s ps =
      ⟨depthAfter bodyDepth (ps.map Prod.snd), ((headLines ++ rows s bodyDepth ps).map s.row).reverse⟩ := by
  have hfold : ∀ l : Layout, ps.foldl (addToken s) l =
      ⟨depthAfter l.depth (ps.map Prod.snd), ((rows s l.depth ps).map s.row).reverse ++ l.lines⟩ := by
    induction ps with
    | nil =>
      intro l
      simp [rows, depthAfter]
    | cons p ps ih =>
      intro l
      rw [List.foldl_cons, ih, addToken_eq]
      simp [rows, depthAfter, Int.add_assoc]
  rw [programLayout, hfold, addFragment_eq]
  simp [Layout.start, Settings.row]

theorem programCode_eq (ps : List (Token × Fragment)) :
    programCode s ps = Text.sep ['\n'] ((headLines ++ rows s bodyDepth ps).map s.row) ++ ['\n'] := by
  rw [programCode, programLayout_eq, Layout.source, List.reverse_reverse]

end

/-! ## What rows hold -/

/-- a line of code begins neither with a space nor as a comment -/
theorem code_begins (s : Stmt) : ∃ c rest, s.code = c :: rest ∧ c ≠ ' ' ∧ c ≠ '#' := by
  cases s <;> exact ⟨_, _, rfl, by decide, by decide⟩

theorem feed_remark (t : Token) : '\n' ∉ remark t := by
  intro h
  obtain ⟨w, hw, hmem⟩ := word_of_mem_remark (by decide) h
  exact absurd (mem_words hw hmem).2 (by decide)

/-- a row in a line of its own, that begins with no space -/
def Clear (r : Int × Text) : Prop := '\n' ∉ r.2 ∧ ∃ c rest, r.2 = c :: rest ∧ c ≠ ' '

theorem clear_row (l : Line) : Clear l.row := by
  obtain ⟨c, rest, hcode, hc, -⟩ := code_begins l.stmt
  exact ⟨not_mem_code (by decide) l.stmt, c, rest, hcode, hc⟩

theorem clear_rows (s : Settings) (d : Int) (ps : List (Token × Fragment)) : ∀ r ∈ rows s d ps, Clear r := by
  induction ps generalizing d with
  | nil => simp [rows]
  | cons p ps ih =>
    refine List.forall_mem_append.2 ⟨List.forall_mem_append.2 ⟨?_, ?_⟩, ih _⟩
    · split
      · exact List.forall_mem_singleton.2 ⟨feed_remark p.1, _, _, rfl, by decide⟩
      · simp
    · exact List.forall_mem_map.2 fun l _ => clear_row l

theorem clear_head : ∀ r ∈ headLines, Clear r := by
  simp [headLines, Clear]

section

variable {s : Settings} {r : Int × Text}

/-- the text of a row stands behind its spaces -/
theorem dropWhile_row (hr : Clear r) : (s.row r).dropWhile (· == ' ') = r.2 := by
  obtain ⟨-, c, rest, htext, hc⟩ := hr
  have hspaces : ∀ d ∈ s.indentation r.1, (d == ' ') = true := fun d hd => by
    rw [List.eq_of_mem_replicate hd]
    rfl
  rw [Settings.row, List.dropWhile_append_of_pos hspaces, htext, List.dropWhile_cons, if_neg (by simpa using hc)]

theorem takeWhile_row (hr : Clear r) : (s.row r).takeWhile (· == ' ') = s.indentation r.1 := by
  obtain ⟨-, c, rest, htext, hc⟩ := hr
  have hspaces : ∀ d ∈ s.indentation r.1, (d == ' ') = true := fun d hd => by
    rw [List.eq_of_mem_replicate hd]
    rfl
  rw [Settings.row, List.takeWhile_append_of_pos hspaces, htext, List.takeWhile_cons, if_neg (by simpa using hc),
    List.append_nil]

theorem isComment_row (hr : Clear r) : isComment (s.row r) = (r.2.head? == some '#') := by
  rw [isComment, dropWhile_row hr]

/-- **A row read back**, wherever it stands. -/
theorem readLine?_row (hr : Clear r) (hd : 0 ≤ r.1) : readLine? s.indent (s.row r) = some r := by
  have hdepth : ((r.1.toNat : Nat) : Int) = r.1 := Int.toNat_of_nonneg hd
  rw [readLine?, takeWhile_row hr, dropWhile_row hr]
  simp [Settings.indentation, Nat.mul_div_cancel_left _ s.indent_pos, hdepth]

theorem feed_row (hr : Clear r) : '\n' ∉ s.row r := by
  rw [Settings.row, List.mem_append, not_or]
  refine ⟨fun h => ?_, hr.1⟩
  exact absurd (List.eq_of_mem_replicate h) (by decide)

end

/-- without the comments, rows are the lines of the fragments -/
theorem filter_rows (s : Settings) (d : Int) (ps : List (Token × Fragment)) :
    (rows s d ps).filter (fun r => !(r.2.head? == some '#')) = (placeLines d (ps.map Prod.snd)).map Line.row := by
  have hcode (ls : List Line) : (ls.map Line.row).filter (fun r => !(r.2.head? == some '#')) = ls.map Line.row := by
    rw [List.filter_eq_self]
    refine List.forall_mem_map.2 fun l _ => ?_
    obtain ⟨c, rest, hcode, -, hc⟩ := code_begins l.stmt
    simpa [Line.row, hcode] using hc
  induction ps generalizing d with
  | nil => rfl
  | cons p ps ih =>
    have hremark : (if s.annotate && p.1.kind != .literal then [(d, remark p.1)] else []).filter
        (fun r => !(r.2.head? == some '#')) = [] := by
      split
      · rfl
      · rfl
    rw [rows, tokenRows, List.filter_append, List.filter_append, hremark, hcode, ih, List.map_cons]
    simp [placeLines]

theorem mapM_some {α β : Type} {g : β → Option α} {f : α → β} {as : List α} (h : ∀ a ∈ as, g (f a) = some a) :
    (as.map f).mapM g = some as := by
  induction as with
  | nil => rfl
  | cons a as ih =>
    obtain ⟨ha, has⟩ := List.forall_mem_cons.1 h
    rw [List.map_cons, List.mapM_cons, ha, ih has]
    rfl

/-- **The code read back** is the head and the lines of the fragments at their depths. -/
theorem readCode?_programCode (s : Settings) {ps : List (Token × Fragment)}
    (hdepth : Inside 0 (programLines (ps.map Prod.snd))) :
    readCode? s.indent (programCode s ps) = some (headLines ++ (programLines (ps.map Prod.snd)).map Line.row) := by
  have hclear : ∀ r ∈ headLines ++ rows s bodyDepth ps, Clear r :=
    List.forall_mem_append.2 ⟨clear_head, clear_rows s bodyDepth ps⟩
  have hfeed : ∀ line ∈ (headLines ++ rows s bodyDepth ps).map s.row, '\n' ∉ line :=
    List.forall_mem_map.2 fun r hr => feed_row (hclear r hr)
  have hcomments : (headLines ++ rows s bodyDepth ps).filter ((fun line => !isComment line) ∘ s.row) =
      headLines ++ (programLines (ps.map Prod.snd)).map Line.row := by
    have hcongr : ∀ r ∈ headLines ++ rows s bodyDepth ps,
        ((fun line => !isComment line) ∘ s.row) r = !(r.2.head? == some '#') := fun r hr => by
      rw [Function.comp_apply, isComment_row (hclear r hr)]
    have hhead : headLines.filter (fun r => !(r.2.head? == some '#')) = headLines := by decide
    rw [List.filter_congr hcongr, List.filter_append, hhead, filter_rows]
    rfl
  rw [readCode?, programCode_eq, Text.parts_sep hfeed nofun, List.dropLast_concat, List.filter_map, hcomments]
  refine mapM_some (List.forall_mem_append.2 ⟨fun r hr => ?_, List.forall_mem_map.2 fun l hl => ?_⟩)
  · have hnonneg : ∀ r ∈ headLines, 0 ≤ r.1 := by decide
    exact readLine?_row (clear_head r hr) (hnonneg r hr)
  · exact readLine?_row (clear_row l) (hdepth l hl)

/-! ## Lines in blocks -/

/-- a line that heads a block ends in a colon -/
def endsInColon (text : Text) : Bool := text.getLast? == some ':'

/-- a branch of a conditional after its first -/
def isBranchText (text : Text) : Bool := text.startsWith "elif " || text.startsWith "else:"

/-- a line that ends in a colon is followed by one that is one deeper, and every other line by none that is deeper -/
def BodiesFollow : List (Int × Text) → Prop
  | [] => True
  | r :: rs =>
    (if endsInColon r.2 then ∃ next ∈ rs.head?, next.1 = r.1 + 1 else ∀ next ∈ rs.head?, next.1 ≤ r.1) ∧ BodiesFollow rs

/-- a conditional of the depth can go on after the lines: its first branch stands among them, and behind that only
deeper lines and branches of it that are not the last one -/
def GoesOn (before : List (Int × Text)) (d : Int) : Prop :=
  ∃ outside first between, before = outside ++ first :: between ∧ first.1 = d ∧ first.2.startsWith "if " = true ∧
    ∀ r ∈ between, d < r.1 ∨ r.1 = d ∧ r.2.startsWith "elif " = true

/-- every branch goes on with a conditional of its depth, given the lines before -/
def BranchesMatch (before : List (Int × Text)) : List (Int × Text) → Prop
  | [] => True
  | r :: rs => (isBranchText r.2 = true → GoesOn before r.1) ∧ BranchesMatch (before ++ [r]) rs

/-- a text ends as the last of its parts does -/
theorem endsInColon_cat (parts : List Text) (hparts : parts ≠ []) (hlast : parts.getLast hparts ≠ []) :
    endsInColon (Text.cat parts) = endsInColon (parts.getLast hparts) := by
  have hsplit : Text.cat (parts.dropLast ++ [parts.getLast hparts]) =
      Text.cat parts.dropLast ++ parts.getLast hparts := by
    simp [Text.cat]
  rw [List.dropLast_append_getLast] at hsplit
  rw [endsInColon, endsInColon, hsplit, List.getLast?_append_of_ne_nil _ hlast]

theorem colon_half (h : Half) : ':' ∉ h.code := by
  have hnumber (n : Nat) : ':' ∉ Text.ofNat n := by
    intro h
    obtain ⟨d, hd, hc⟩ := Text.mem_toDigits (by decide) h
    have hdigit : ∀ d < 10, ':' ≠ Nat.digitChar d := by decide
    exact hdigit d hd hc
  cases h <;> simp [Half.code, temporary, hnumber]

/-- the lines that head a block end in a colon -/
theorem endsInColon_code (s : Stmt) : endsInColon s.code = s.heads := by
  cases s with
  | bind name half =>
    have hne : half.code ≠ [] := by cases half <;> exact nofun
    have hhalf : endsInColon half.code = false :=
      beq_eq_false_iff_ne.2 fun h => colon_half half (List.mem_of_getLast? h)
    exact (endsInColon_cat _ (by exact nofun) (by exact hne)).trans hhalf
  | _ => first | exact endsInColon_cat _ (by exact nofun) (by exact nofun) | rfl

theorem isBranchText_code (s : Stmt) : isBranchText s.code = s.isBranch := by
  cases s <;> rfl

/-- the first branches of conditionals that can go on -/
theorem first_of_goesOn {s : Stmt} (h : s.goesOn = true) : s.isBranch = false ∧ s.code.startsWith "if " = true ∨
    s.isBranch = true ∧ s.code.startsWith "elif " = true := by
  cases s with
  | when c => exact .inl ⟨rfl, rfl⟩
  | whenText n => exact .inl ⟨rfl, rfl⟩
  | elsewhen c => exact .inr ⟨rfl, rfl⟩
  | _ => cases h

namespace Block

/-- the lines of a block as code -/
def rows (d : Int) (b : Block) : List (Int × Text) := (b.lines d).map Line.row

theorem rows_nest (d : Int) (s : Stmt) (body rest : Block) :
    (nest s body rest).rows d = (d, s.code) :: (body.rows (d + 1) ++ rest.rows d) := by
  simp [rows, lines, Line.row]

theorem rows_step (d : Int) (s : Stmt) (rest : Block) : (step s rest).rows d = (d, s.code) :: rest.rows d := rfl

/-- the first of the lines of a block and of others is at the depth if the block is not empty -/
theorem head_rows {b : Block} {d : Int} {more : List (Int × Text)} (hb : b ≠ done) :
    ∃ next ∈ (b.rows d ++ more).head?, next.1 = d := by
  cases b with
  | done => exact absurd rfl hb
  | step s rest => exact ⟨_, rfl, rfl⟩
  | nest s body rest => exact ⟨_, rfl, rfl⟩

theorem head_rows_le {b : Block} {d : Int} {more : List (Int × Text)} (hmore : ∀ next ∈ more.head?, next.1 ≤ d) :
    ∀ next ∈ (b.rows d ++ more).head?, next.1 ≤ d := by
  by_cases hb : b = done
  · rw [hb]
    exact hmore
  · obtain ⟨next, hnext, hd⟩ : ∃ next ∈ (b.rows d ++ more).head?, next.1 = d := head_rows hb
    intro next' hnext'
    rw [Option.mem_unique hnext' hnext, hd]

/-- **In the lines of a block** each head is followed by its body, and nothing else goes deeper. -/
theorem bodies_rows {b : Block} {goesOn : Bool} (hb : b.Joined goesOn) {d : Int} {more : List (Int × Text)}
    (hhead : ∀ next ∈ more.head?, next.1 ≤ d) (hmore : BodiesFollow more) : BodiesFollow (b.rows d ++ more) := by
  induction b generalizing goesOn d more with
  | done => exact hmore
  | step s rest ih =>
    rw [rows_step, List.cons_append, BodiesFollow, endsInColon_code, hb.1]
    exact ⟨head_rows_le hhead, ih hb.2 hhead hmore⟩
  | nest s body rest ihb ihr =>
    obtain ⟨hheads, -, hne, hbody, hrest⟩ := hb
    have hnext : ∀ next ∈ (rest.rows d ++ more).head?, next.1 ≤ d + 1 := fun next h =>
      Int.le_trans (head_rows_le hhead next h) (Int.le_add_one (Int.le_refl d))
    rw [rows_nest, List.cons_append, List.append_assoc, BodiesFollow, endsInColon_code, hheads]
    exact ⟨head_rows hne, ihb hbody hnext (ihr hrest hhead hmore)⟩

theorem rows_inside {b : Block} {d : Int} : ∀ r ∈ b.rows d, d ≤ r.1 := by
  induction b generalizing d with
  | done => exact nofun
  | step s rest ih => exact List.forall_mem_cons.2 ⟨Int.le_refl d, ih⟩
  | nest s body rest ihb ihr =>
    rw [rows_nest]
    refine List.forall_mem_cons.2 ⟨Int.le_refl d, List.forall_mem_append.2 ⟨fun r hr => ?_, ihr⟩⟩
    exact Int.le_trans (Int.le_add_one (Int.le_refl d)) (ihb r hr)

end Block

/-- behind the head, lines that begin at its depth at most -/
theorem bodies_head {lines : List (Int × Text)} (hfirst : ∀ next ∈ lines.head?, next.1 ≤ 1) (h : BodiesFollow lines) :
    BodiesFollow (headLines ++ lines) := by
  refine ⟨?_, ?_, ?_, ?_, ?_, h⟩
  · exact ⟨_, rfl, rfl⟩
  · exact fun next hnext => Option.mem_some.1 hnext ▸ Int.le_refl 1
  · exact fun next hnext => Option.mem_some.1 hnext ▸ Int.le_refl 1
  · exact fun next hnext => Option.mem_some.1 hnext ▸ Int.le_refl 1
  · exact hfirst

theorem branchesMatch_append {before as bs : List (Int × Text)} :
    BranchesMatch before (as ++ bs) ↔ BranchesMatch before as ∧ BranchesMatch (before ++ as) bs := by
  induction as generalizing before with
  | nil => simp [BranchesMatch]
  | cons r as ih => simp [BranchesMatch, ih, and_assoc]

theorem branchesMatch_of_none {before lines : List (Int × Text)} (h : ∀ r ∈ lines, isBranchText r.2 = false) :
    BranchesMatch before lines := by
  induction lines generalizing before with
  | nil => trivial
  | cons r lines ih =>
    obtain ⟨hr, hlines⟩ := List.forall_mem_cons.1 h
    exact ⟨fun hbranch => Bool.noConfusion (hr.symm.trans hbranch), ih hlines⟩

/-- **In the lines of a block** each branch goes on with a conditional of its depth. -/
theorem Block.branches_rows {b : Block} {goesOn : Bool} (hb : b.Joined goesOn) {d : Int} {before : List (Int × Text)}
    (hbefore : goesOn = true → GoesOn before d) : BranchesMatch before (b.rows d) := by
  induction b generalizing goesOn d before with
  | done => trivial
  | step s rest ih =>
    have hbranch : s.isBranch = false := by
      have hheads := hb.1
      cases s <;> first | rfl | cases hheads
    rw [rows_step, BranchesMatch, isBranchText_code, hbranch]
    exact ⟨nofun, ih hb.2 nofun⟩
  | nest s body rest ihb ihr =>
    obtain ⟨hheads, hbranch, -, hbody, hrest⟩ := hb
    rw [rows_nest, BranchesMatch, branchesMatch_append, isBranchText_code]
    refine ⟨fun h => hbefore (hbranch h), ihb hbody nofun, ihr hrest fun hgoesOn => ?_⟩
    have hdeeper : ∀ r ∈ body.rows (d + 1), d < r.1 ∨ r.1 = d ∧ r.2.startsWith "elif " = true := fun r hr =>
      .inl (Int.lt_of_add_one_le (rows_inside r hr))
    rcases first_of_goesOn hgoesOn with ⟨-, hfirst⟩ | ⟨hs, helif⟩
    · exact ⟨before, (d, s.code), body.rows (d + 1), by simp, rfl, hfirst, hdeeper⟩
    · obtain ⟨outside, first, between, rfl, hd, hfirst, hbetween⟩ := hbefore (hbranch hs)
      refine ⟨outside, first, between ++ (d, s.code) :: body.rows (d + 1), by simp, hd, hfirst, ?_⟩
      exact List.forall_mem_append.2 ⟨hbetween, List.forall_mem_cons.2 ⟨.inr ⟨rfl, helif⟩, hdeeper⟩⟩

namespace Compiler

/-- **The code of tokens that compile** is in blocks, the tokens being of the kinds that a scan gives. Whatever the
width of a level is, and whether directives are told or not, the code read back is the head and the lines of the
fragments, each at the depth to which the fragments before it have led, and the layout ends at the depth of the body. In
these lines a head is followed by a line one deeper, and no other line by a deeper one; each branch goes on with a
conditional of its depth that has not come to its last branch; and only the first line is not inside the function. -/
theorem code_in_blocks {s : Settings} {strict : Option Bool} {names : List Text} {ts : List Token}
    {fs : List Fragment} (hclass : ∀ t ∈ ts, t.Classified (.standard s.comment))
    (hfs : (standard s strict names).fragments ts = .ok fs) :
    let lines := headLines ++ (programLines fs).map Line.row
    (∀ layout : Settings, readCode? layout.indent (programCode layout (ts.zip fs)) = some lines ∧
      (programLayout layout (ts.zip fs)).depth = bodyDepth) ∧
    BodiesFollow lines ∧ BranchesMatch [] lines ∧ ∀ r ∈ lines.drop 1, 1 ≤ r.1 := by
  obtain ⟨n, p, hn, -, rfl⟩ := page_of_fragments (k := standard s strict names) rfl hclass hfs
  have hlength : (p.fragments 0).length = ts.length := by
    simp only [fragments, bind_eq_ok] at hfs
    obtain ⟨⟨fs, c⟩, htoks, u, -, hfs⟩ := hfs
    rw [← Except.ok.inj hfs, length_tokens htoks]
  have hsnd : (ts.zip (p.fragments 0)).map Prod.snd = p.fragments 0 := List.map_snd_zip hlength.le
  have hlaid := laidOut_passage p 0 bodyDepth
  have hrows : (programLines (p.fragments 0)).map Line.row = (p.block 0).rows 1 := by
    rw [programLines, lines_passage p 0]
    rfl
  have hjoined := joined_passage p 0 false
  have hnone : ∀ next ∈ ([] : List (Int × Text)).head?, next.1 ≤ 1 := by simp
  have hbodies : BodiesFollow ((p.block 0).rows 1) := by
    rw [← List.append_nil ((p.block 0).rows 1)]
    exact Block.bodies_rows hjoined hnone trivial
  have hfirst : ∀ next ∈ ((p.block 0).rows 1).head?, next.1 ≤ 1 := by
    rw [← List.append_nil ((p.block 0).rows 1)]
    exact Block.head_rows_le hnone
  intro lines
  have hlines : lines = headLines ++ (p.block 0).rows 1 := by rw [← hrows]
  refine ⟨fun layout => ⟨?_, ?_⟩, ?_, ?_, ?_⟩
  · have hinside : Inside 0 (programLines ((ts.zip (p.fragments 0)).map Prod.snd)) := by
      rw [hsnd]
      exact hlaid.inside.mono (by decide)
    rw [readCode?_programCode layout hinside, hsnd]
  · rw [programLayout_eq, hsnd]
    exact hlaid.depth
  · rw [hlines]
    exact bodies_head hfirst hbodies
  · rw [hlines, branchesMatch_append]
    exact ⟨branchesMatch_of_none (by decide), Block.branches_rows hjoined fun h => absurd h Bool.false_ne_true⟩
  · rw [hlines]
    exact List.forall_mem_append.2 ⟨by decide, Block.rows_inside⟩

/-- a loop with an empty body, and a conditional of three branches with a comment in it -/
theorem code_of_branches :
    let ts : List Token := [⟨.loop, "for a in b", 0, 1⟩, ⟨.closing, "endfor", 16, 1⟩, ⟨.when, "if a", 28, 1⟩,
      ⟨.comment, "# c", 38, 1⟩, ⟨.elsewhen, "elseif b", 47, 1⟩, ⟨.otherwise, "else", 61, 1⟩, ⟨.literal, "x:\n", 71, 1⟩,
      ⟨.closing, "endif", 74, 2⟩]
    ∃ fs lines, (∀ t ∈ ts, t.Classified (.standard Settings.standard.comment)) ∧
      (standard .standard none []).fragments ts = .ok fs ∧ lines = headLines ++ (programLines fs).map Line.row ∧
      (∀ layout : Settings, readCode? layout.indent (programCode layout (ts.zip fs)) = some lines ∧
        (programLayout layout (ts.zip fs)).depth = bodyDepth) ∧
      BodiesFollow lines ∧ BranchesMatch [] lines ∧ ∀ r ∈ lines.drop 1, 1 ≤ r.1 := by
  intro ts
  have hclass : ∀ t ∈ ts, t.Classified (.standard Settings.standard.comment) := by
    simp only [Token.Classified]
    decide
  have hok : ((standard .standard none []).fragments ts).toOption.isSome = true := by decide +kernel
  obtain ⟨fs, hfs⟩ := Option.isSome_iff_exists.1 hok
  have hfs : (standard .standard none []).fragments ts = .ok fs := eq_ok_of_toOption hfs
  exact ⟨fs, _, hclass, hfs, rfl, code_in_blocks hclass hfs⟩

end Compiler

end Stencil
