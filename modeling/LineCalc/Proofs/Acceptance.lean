import LineCalc.Proofs.Descent
import LineCalc.Proofs.Items
/-
  Acceptance: which lines are expressions, and the error of those that are not

  The contract of the parser's calls, read at the start of a line: the parser
  and the scan give the same answer, and a tree that is answered is derived
  from the tokens of the line. Since the scan accepts every list of tokens that
  the grammar derives within the limits, and a list derives one tree only, the
  parser answers that tree.
-/

namespace LineCalc

/-! ## The start of a line -/

/-- A parser that has been made looks at the first token with nothing open and
nothing counted, and a scan of the line begins at the same place. -/
theorem Parser.ofSource_ok {source : String} {parser : Parser}
    (h : Parser.ofSource source = .ok parser) :
    parser.depth = 0 ∧ parser.look.Proper ∧ parser.look.ahead = Item.ofSource source ∧
      parser.scan .due = Scan.ofLine source := by
  unfold Parser.ofSource at h
  cases hpending : (Cursor.ofSource source).pending with
  | nil =>
    obtain ⟨hend, hnothing, hsame⟩ := Cursor.nextToken_of_pending_nil hpending
    simp only [hend] at h
    cases h
    rw [Cursor.pending_ofSource] at hpending
    refine ⟨rfl, ?_, hpending.symm, ?_⟩
    · intro located hmem
      simp only [look, hnothing] at hmem
      cases hmem
    · rw [Scan.ofLine, Scan.stream, hpending, scan, Cursor.endToken_ofSource]
      exact Scan.resume_endOfInput _ _ _
  | cons item rest =>
    obtain ⟨after, hfirst, hrest, hsame, htoken⟩ := Cursor.nextToken_of_pending_cons hpending
    simp only [hfirst] at h
    cases item with
    | error e => cases h
    | ok first =>
      cases h
      rw [Cursor.pending_ofSource] at hpending
      refine ⟨rfl, ?_, ?_, ?_⟩
      · intro located hmem
        simp only [look, hrest] at hmem
        have hmem : .ok located ∈ Item.ofSource source := hpending ▸ List.mem_cons_of_mem _ hmem
        exact ne_endOfInput_of_mem_ofSource hmem
      · simp only [Look.ahead, look, hrest, if_neg (htoken first rfl), hpending]
      · simp only [Scan.ofLine, Scan.stream, scan, hrest, hsame, Cursor.endToken_ofSource,
          hpending]

theorem Parser.ofSource_error {source : String} {e : Error}
    (h : Parser.ofSource source = .error e) : Scan.ofLine source = .error e := by
  unfold Parser.ofSource at h
  cases hpending : (Cursor.ofSource source).pending with
  | nil =>
    simp only [(Cursor.nextToken_of_pending_nil hpending).1] at h
    cases h
  | cons item rest =>
    obtain ⟨after, hfirst, -⟩ := Cursor.nextToken_of_pending_cons hpending
    simp only [hfirst] at h
    cases item with
    | error e' =>
      cases h
      rw [Cursor.pending_ofSource] at hpending
      rw [Scan.ofLine, Scan.stream, hpending]
      rfl
    | ok first => cases h

/-! ## The end of a line -/

namespace Parser
variable {parser after : Parser}

theorem line_ok {tree : Expr} (hdepth : parser.depth = 0)
    (h : parser.line = (.ok tree, after)) :
    parser.Reads (.chain .sum) tree after ∧ after.current.token = .endOfInput ∧
      parser.scan .due = .ok () := by
  have hanswers := expression_answers parser
  unfold line at h
  cases hreply : parser.expression with
  | mk result middle =>
    rw [hreply] at h hanswers
    cases result with
    | error e => cases h
    | ok inner =>
      obtain ⟨hreads, -⟩ := hanswers
      simp only [Reply.andThen_ok] at h
      split at h
      · rename_i htoken
        cases h
        refine ⟨hreads, htoken, hreads.scan.trans ?_⟩
        rw [scan, hreads.depth, hdepth]
        simp [Scan.resume, Scan.move, htoken]
      · cases h

theorem line_error {e : Error} (hdepth : parser.depth = 0)
    (h : parser.line = (.error e, after)) : parser.scan .due = .error e := by
  have hanswers := expression_answers parser
  unfold line at h
  cases hreply : parser.expression with
  | mk result middle =>
    rw [hreply] at h hanswers
    cases result with
    | error e' =>
      cases h
      exact hanswers
    | ok inner =>
      obtain ⟨hreads, hends⟩ := hanswers
      simp only [Reply.andThen_ok] at h
      split at h
      · cases h
      · rename_i htoken
        cases h
        refine hreads.scan.trans ?_
        rw [scan, hreads.depth, hdepth]
        exact Scan.resume_stop _ (Scan.move_trailing (not_operator_of_endsBefore hends) htoken)

end Parser

/-! ## A whole line -/

/-- The tokens of a line that has a tree derive that tree, and a scan accepts
them. -/
theorem derives_of_parseLine {source : String} {tree : Expr} (h : parseLine source = .ok tree) :
    ∃ ts, tokenize source = .ok ts ∧ Derives (.chain .sum) ts tree ∧
      Scan.ofLine source = .ok () := by
  unfold parseLine at h
  cases hparser : Parser.ofSource source with
  | error e =>
    rw [hparser] at h
    cases h
  | ok parser =>
    rw [hparser] at h
    obtain ⟨hdepth, hproper, hahead, hscan⟩ := Parser.ofSource_ok hparser
    cases hline : parser.line with
    | mk result after =>
      simp only [hline] at h
      subst h
      obtain ⟨hreads, hend, haccepted⟩ := Parser.line_ok hdepth hline
      obtain ⟨ts, htakes, hderives⟩ := hreads.derives
      refine ⟨ts, ?_, hderives, hscan ▸ haccepted⟩
      have hnothing : after.look.ahead = [] := if_pos hend
      have hitems := htakes.ahead_eq hproper hderives.ne_endOfInput
      rw [hahead, hnothing, List.append_nil] at hitems
      exact tokenize_eq_ok_iff.mpr hitems

theorem ofLine_of_parseLine_error {source : String} {e : Error}
    (h : parseLine source = .error e) : Scan.ofLine source = .error e := by
  unfold parseLine at h
  cases hparser : Parser.ofSource source with
  | error e' =>
    rw [hparser] at h
    cases h
    exact Parser.ofSource_error hparser
  | ok parser =>
    rw [hparser] at h
    obtain ⟨hdepth, -, -, hscan⟩ := Parser.ofSource_ok hparser
    cases hline : parser.line with
    | mk result after =>
      simp only [hline] at h
      subst h
      rw [← hscan]
      exact Parser.line_error hdepth hline

theorem parseLine_of_ofLine_error {source : String} {e : Error}
    (h : Scan.ofLine source = .error e) : parseLine source = .error e := by
  cases hparse : parseLine source with
  | error failure =>
    have hsame := (ofLine_of_parseLine_error hparse).symm.trans h
    rw [Except.error.inj hsame]
  | ok tree =>
    obtain ⟨_, -, -, haccepted⟩ := derives_of_parseLine hparse
    rw [h] at haccepted
    cases haccepted

/-- A line is parsed if and only if a scan accepts it, and otherwise the error of
the parser is the error of the scan, whatever kind it is of. -/
theorem parseLine_eq_scan (source : String) :
    (parseLine source).map (fun _ => ()) = Scan.ofLine source := by
  cases h : parseLine source with
  | error e => exact (ofLine_of_parseLine_error h).symm
  | ok tree =>
    obtain ⟨_, -, -, haccepted⟩ := derives_of_parseLine h
    exact haccepted.symm

/-! ## Lines and the grammar -/

theorem within_of_parseLine {source : String} {tree : Expr} {ts : List Located}
    (h : parseLine source = .ok tree) (hts : tokenize source = .ok ts) :
    Nesting.deepest Located.paren ts ≤ maxNesting ∧ countOperators ts ≤ maxOperators := by
  obtain ⟨ts', hts', hderives, haccepted⟩ := derives_of_parseLine h
  obtain rfl : ts' = ts := Except.ok.inj (hts'.symm.trans hts)
  rw [Scan.ofLine, Scan.stream, tokenize_eq_ok_iff.mp hts] at haccepted
  have := Scan.within_of_resume haccepted hderives.ne_endOfInput (Nat.zero_le _) (Nat.zero_le _)
  simp only at this
  omega

/-- Tokens that the grammar derives within the limits are a line with that
tree: a scan accepts them, so there is a tree, and it can be no other. -/
theorem parseLine_of_derives {source : String} {tree : Expr} {ts : List Located}
    (hts : tokenize source = .ok ts) (hderives : Derives (.chain .sum) ts tree)
    (hnesting : Nesting.deepest Located.paren ts ≤ maxNesting)
    (hoperators : countOperators ts ≤ maxOperators) : parseLine source = .ok tree := by
  have haccepted : Scan.ofLine source = .ok () := by
    rw [Scan.ofLine, Scan.stream, tokenize_eq_ok_iff.mp hts,
      Scan.resume_derives hderives (by omega) (by omega)]
    simp [Scan.resume, Scan.move]
  cases h : parseLine source with
  | error e =>
    rw [ofLine_of_parseLine_error h] at haccepted
    cases haccepted
  | ok other =>
    obtain ⟨ts', hts', hderives', -⟩ := derives_of_parseLine h
    obtain rfl : ts' = ts := Except.ok.inj (hts'.symm.trans hts)
    rw [hderives.unique hderives']

/-- A line has a tree if and only if its tokens derive that tree, never with more
parentheses open than the limit, nor with more operators. A list of tokens
derives no second tree, and the tree shows all of them but the parentheses, in
order. -/
theorem parseLine_eq_ok_iff (source : String) (tree : Expr) :
    (parseLine source = .ok tree ↔
      ∃ ts, tokenize source = .ok ts ∧ Derives (.chain .sum) ts tree ∧
        (∀ before, before <+: ts → Nesting.balance Located.paren before ≤ maxNesting) ∧
        countOperators ts ≤ maxOperators) ∧
    ∀ ts, Derives (.chain .sum) ts tree →
      (∀ other, Derives (.chain .sum) ts other → other = tree) ∧
      tree.inorder = ts.filter fun located => !located.token.isParen := by
  refine ⟨⟨?_, ?_⟩, ?_⟩
  · intro h
    obtain ⟨ts, hts, hderives, -⟩ := derives_of_parseLine h
    obtain ⟨hnesting, hoperators⟩ := within_of_parseLine h hts
    exact ⟨ts, hts, hderives, (Nesting.deepest_le_iff _).mp hnesting, hoperators⟩
  · rintro ⟨ts, hts, hderives, hnesting, hoperators⟩
    exact parseLine_of_derives hts hderives ((Nesting.deepest_le_iff _).mpr hnesting) hoperators
  · intro ts hderives
    exact ⟨fun other => hderives.unique, hderives.inorder_eq⟩

/-- Without parentheses the products come first, and each chain from the left. The limits
are written out. -/
theorem parseLine_eq_ok_iff_of_precedence :
    let source := "1+2*3/4-5"
    let quotient : Expr :=
      .binary (.binary (.literal 2 2) .mul (.literal 3 4) 3) .div (.literal 4 6) 5
    let tree : Expr := .binary (.binary (.literal 1 0) .add quotient 1) .sub (.literal 5 8) 7
    parseLine source = .ok tree ∧
      ∃ ts, tokenize source = .ok ts ∧ Derives (.chain .sum) ts tree ∧
        (∀ before, before <+: ts → Nesting.balance Located.paren before ≤ 256) ∧
        countOperators ts ≤ 4096 :=
  ⟨by decide +kernel, (parseLine_eq_ok_iff _ _).1.1 (by decide +kernel)⟩

end LineCalc
