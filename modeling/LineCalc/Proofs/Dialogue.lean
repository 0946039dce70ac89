import LineCalc.Proofs.Lines
import LineCalc.Proofs.Writing
/-
  Dialogue: a session answers each line by itself

  `Session.reply` is what a line makes the output hold, `Session.complaint` what
  it makes the errors hold, and `Session.verdictOf` how it is counted. All three
  look at the line alone, at `tokenize`, `parseLine` and `evaluateLine` of it. A
  session writes the replies of its lines one behind the other, each behind a
  prompt, and the complaints in the same way.

  What is proved:
    1. `Session.written_turn` — a turn writes the reply and the complaint of its
       line, whatever its number, and counts it by its verdict;
    2. `Session.turns_append` — turns over lines that are texts come one after
       the other and leave the rest of the input to later turns;
    3. `Session.run_of_texts` — the two streams and the summary of a session
       over lines that are texts;
    4. `Session.run_line_by_line` — the above, and that sessions over the parts
       of a text make up the session over the whole of it.
-/

namespace LineCalc

namespace Session

/-! ## What a line is answered -/

/-- The tokens of a line, if they are to be shown and there are any. -/
def tokensShown (o : Options) (line : String) : String :=
  if o.showTokens then
    match tokenize line with
    | .ok tokens => lineOf (tokenText tokens)
    | .error _ => ""
  else ""

/-- The tree of a line, if it is to be shown and there is one. -/
def treeShown (o : Options) (line : String) : String :=
  if o.showTree then
    match parseLine line with
    | .ok tree => lineOf tree.text
    | .error _ => ""
  else ""

/-- The value of a line, if it has one. -/
def valueShown (line : String) : String :=
  match evaluateLine line with
  | .ok value => lineOf value.text
  | .error _ => ""

/-- What a line makes the output hold. -/
def reply (o : Options) (line : String) : String :=
  if line.isEmpty then "" else tokensShown o line ++ treeShown o line ++ valueShown line

/-- What a line makes the errors hold. -/
def complaint (line : String) : String :=
  if line.isEmpty then ""
  else
    match evaluateLine line with
    | .ok _ => ""
    | .error e => lineOf e.message

/-- How a line is counted. -/
def verdictOf (line : String) : Verdict :=
  if line.isEmpty then .skipped
  else
    match evaluateLine line with
    | .ok _ => .evaluated
    | .error _ => .failed

/-! ## One turn -/

theorem written_logs (stream : Stream) (records : List Record) :
    written stream (logs records) = [] := by
  induction records with
  | nil => rfl
  | cons record records ih => exact ih

theorem written_out (text : String) :
    written .out [.out text] = Bytes.ofString text ∧ written .err [.out text] = [] :=
  ⟨List.append_nil _, rfl⟩

theorem written_failure (number : Nat) (e : Error) :
    written .out (failure number e) = [] ∧
      written .err (failure number e) = Bytes.ofString (lineOf e.message) :=
  ⟨rfl, List.append_nil _⟩

theorem written_tokensShown (o : Options) (line : String) :
    written .out (if o.showTokens then showTokens line else []) =
        Bytes.ofString (tokensShown o line) ∧
      written .err (if o.showTokens then showTokens line else []) = [] := by
  unfold tokensShown
  cases o.showTokens with
  | false => exact ⟨rfl, rfl⟩
  | true =>
    simp only [if_true, showTokens, written_append, written_logs, List.nil_append]
    cases tokenize line with
    | ok tokens => exact written_out _
    | error e => exact ⟨rfl, rfl⟩

theorem written_treeShown (o : Options) {line : String} {tree : Expr}
    (h : parseLine line = .ok tree) :
    written .out (if o.showTree then [.out (lineOf tree.text)] else []) =
        Bytes.ofString (treeShown o line) ∧
      written .err (if o.showTree then [.out (lineOf tree.text)] else []) = [] := by
  unfold treeShown
  rw [h]
  cases o.showTree with
  | false => exact ⟨rfl, rfl⟩
  | true => exact written_out _

/-- A line that is not empty is answered by its reply and its complaint, and
counted by its verdict. -/
theorem written_answer (o : Options) (number : Nat) {line : String} (hline : line.isEmpty = false) :
    written .out (answer o number line).1 = Bytes.ofString (reply o line) ∧
      written .err (answer o number line).1 = Bytes.ofString (complaint line) ∧
      (answer o number line).2 = verdictOf line := by
  obtain ⟨htokens, htokens'⟩ := written_tokensShown o line
  simp only [reply, complaint, verdictOf, hline, Bool.false_eq_true, if_false]
  unfold answer valueShown evaluateLine
  cases hparse : parseLine line with
  | error e =>
    have htree : treeShown o line = "" := by
      simp [treeShown, hparse]
    simp [written_logs, htokens, htokens', written_failure, htree]
  | ok tree =>
    obtain ⟨htree, htree'⟩ := written_treeShown o hparse
    cases hvalue : tree.value with
    | error e =>
      simp [Expr.answer, hvalue, written_logs, htokens, htokens', htree, htree', written_failure,
        Bytes.ofString_append]
    | ok value =>
      simp [Expr.answer, hvalue, written_logs, htokens, htokens', htree, htree',
        Bytes.ofString_append, Event.bytes]

/-- A turn writes the reply and the complaint of its line, and counts it by its
verdict. The number of the line shows in the records only. -/
theorem written_turn (o : Options) (number : Nat) (source : String) :
    written .out (turn o number source).1 = Bytes.ofString (reply o (trimEnd source)) ∧
      written .err (turn o number source).1 = Bytes.ofString (complaint (trimEnd source)) ∧
      (turn o number source).2 = verdictOf (trimEnd source) := by
  unfold turn
  cases hempty : (trimEnd source).isEmpty with
  | true =>
    rw [if_pos rfl, reply, complaint, verdictOf, hempty]
    exact ⟨rfl, rfl, rfl⟩
  | false =>
    simp only [Bool.false_eq_true, if_false]
    exact written_answer o number hempty

/-! ## Many turns -/

/-- The text of the greeting. -/
def bannerText (o : Options) : String :=
  match o.banner with
  | some banner => lineOf banner
  | none => ""

/-- The text before each line. -/
def promptText (o : Options) : String :=
  match o.prompt with
  | some text => text
  | none => ""

/-- The text behind the last line: one more prompt, and the end of its line. -/
def closingText (o : Options) : String :=
  match o.prompt with
  | some text => lineOf text
  | none => ""

theorem written_opening (o : Options) :
    written .out (opening o) = Bytes.ofString (bannerText o) ∧ written .err (opening o) = [] := by
  unfold opening bannerText
  cases o.banner with
  | none => exact ⟨rfl, rfl⟩
  | some banner => exact written_out (lineOf banner)

theorem written_prompt (o : Options) :
    written .out (prompt o) = Bytes.ofString (promptText o) ∧ written .err (prompt o) = [] := by
  unfold prompt promptText
  cases o.prompt with
  | none => exact ⟨rfl, rfl⟩
  | some text => exact written_out text

theorem written_closing (o : Options) (summary : Summary) :
    written .out (prompt o ++ closing o summary) = Bytes.ofString (closingText o) ∧
      written .err (prompt o ++ closing o summary) = [] := by
  unfold prompt closing closingText
  cases o.prompt with
  | none => exact ⟨rfl, rfl⟩
  | some text =>
    simp [Event.bytes, report, lineOf, Bytes.ofString_append]

/-- The events of lines that are texts, each line behind its prompt. -/
def exchanges (o : Options) : Nat → List String → List Event
  | _, [] => []
  | number, line :: rest => prompt o ++ (turn o number line).1 ++ exchanges o (number + 1) rest

/-- The summary after lines of these verdicts. -/
def Summary.after (summary : Summary) (verdicts : List Verdict) : Summary :=
  verdicts.foldl count summary

theorem Summary.after_eq (summary : Summary) (verdicts : List Verdict) :
    summary.after verdicts =
      ⟨summary.evaluated + verdicts.count .evaluated, summary.failed + verdicts.count .failed,
        summary.skipped + verdicts.count .skipped⟩ := by
  induction verdicts generalizing summary with
  | nil => rfl
  | cons verdict verdicts ih =>
    rw [after, List.foldl_cons, ← after, ih]
    cases verdict <;> simp [count] <;> omega

theorem count_verdicts (verdicts : List Verdict) :
    verdicts.count .evaluated + verdicts.count .failed + verdicts.count .skipped =
      verdicts.length := by
  induction verdicts with
  | nil => rfl
  | cons verdict verdicts ih =>
    cases verdict <;> simp <;> omega

theorem step_ofString (o : Options) (number : Nat) (summary : Summary) (source : String) :
    step o number summary (Bytes.ofString source) =
      ((turn o number source).1, .ok (summary.count (turn o number source).2)) := by
  rw [step, Bytes.toString?_ofString]

/-- Lines that are texts are answered one after the other, and what follows them
finds their number and their summary. -/
theorem turns_append (o : Options) (number : Nat) (summary : Summary) (lines : List String)
    (rest : List Bytes) :
    turns o number summary (lines.map Bytes.ofString ++ rest) =
      (exchanges o number lines ++
          (turns o (number + lines.length)
            (summary.after ((lines.map trimEnd).map verdictOf)) rest).1,
        (turns o (number + lines.length)
          (summary.after ((lines.map trimEnd).map verdictOf)) rest).2) := by
  induction lines generalizing number summary with
  | nil => rfl
  | cons line lines ih =>
    obtain ⟨-, -, hverdict⟩ := written_turn o number line
    have hnumber : number + (line :: lines).length = number + 1 + lines.length := by
      rw [List.length_cons]
      omega
    rw [List.map_cons, List.cons_append, turns, step_ofString]
    simp only [ih, hverdict, hnumber, exchanges, List.append_assoc, List.map_cons]
    rfl

theorem written_exchanges (o : Options) (number : Nat) (lines : List String) :
    written .out (exchanges o number lines) =
        (lines.map trimEnd).flatMap (fun line => Bytes.ofString (promptText o ++ reply o line)) ∧
      written .err (exchanges o number lines) =
        (lines.map trimEnd).flatMap (fun line => Bytes.ofString (complaint line)) := by
  induction lines generalizing number with
  | nil => exact ⟨rfl, rfl⟩
  | cons line lines ih =>
    obtain ⟨hout, herr, -⟩ := written_turn o number line
    obtain ⟨hprompt, hprompt'⟩ := written_prompt o
    obtain ⟨hlater, hlater'⟩ := ih (number + 1)
    simp only [exchanges, written_append, hout, herr, hprompt, hprompt', hlater, hlater',
      List.map_cons, List.flatMap_cons, Bytes.ofString_append, List.nil_append, and_self]

/-! ## A session over a text -/

/-- The lines of a text, without the line feeds and carriage returns at their ends. -/
def linesOf (text : String) : List String := (textLines text).map trimEnd

theorem trimEnd_lineFeed (segment : List Char) :
    trimEnd (String.ofList (segment ++ ['\n'])) = trimEnd (String.ofList segment) := by
  simp [trimEnd]

/-- The lines of a text are the segments that line feeds end, and the rest behind
the last line feed if it is not empty. -/
theorem exists_segments_linesOf (text : String) :
    ∃ (segments : List String) (last : String),
      text.toList = segments.flatMap (fun segment => segment.toList ++ ['\n']) ++ last.toList ∧
        (∀ segment ∈ segments, '\n' ∉ segment.toList) ∧ '\n' ∉ last.toList ∧
        linesOf text = (segments ++ if last.isEmpty then [] else [last]).map trimEnd := by
  obtain ⟨segments, last, htext, hsegments, hlast, hcut⟩ := exists_segments '\n' text.toList
  refine ⟨segments.map String.ofList, String.ofList last, ?_, ?_, ?_, ?_⟩
  · simpa only [List.flatMap_map, String.toList_ofList] using htext
  · intro segment hmem
    obtain ⟨chars, hchars, rfl⟩ := List.mem_map.mp hmem
    rw [String.toList_ofList]
    exact hsegments chars hchars
  · rwa [String.toList_ofList]
  · rw [linesOf, textLines, hcut]
    simp only [List.map_append, List.map_map, Function.comp_def, trimEnd_lineFeed]
    cases last with
    | nil => rfl
    | cons c last => simp

/-- The summary of lines. -/
def summaryOf (lines : List String) : Summary where
  evaluated := (lines.map verdictOf).count .evaluated
  failed := (lines.map verdictOf).count .failed
  skipped := (lines.map verdictOf).count .skipped

/-- The sum of two summaries. -/
def Summary.plus (s t : Summary) : Summary where
  evaluated := s.evaluated + t.evaluated
  failed := s.failed + t.failed
  skipped := s.skipped + t.skipped

/-- The number of lines that a summary counts. -/
def Summary.total (s : Summary) : Nat := s.evaluated + s.failed + s.skipped

theorem summaryOf_append (lines more : List String) :
    summaryOf (lines ++ more) = (summaryOf lines).plus (summaryOf more) := by
  simp only [summaryOf, Summary.plus, List.map_append, List.count_append]

theorem total_summaryOf (lines : List String) : (summaryOf lines).total = lines.length := by
  rw [Summary.total, summaryOf, count_verdicts, List.length_map]

theorem script_of_texts (o : Options) {input : Bytes} {texts : List String}
    (h : Bytes.lines input = texts.map Bytes.ofString) :
    script o input =
      (opening o ++ (exchanges o 1 texts ++
          (prompt o ++ closing o (summaryOf (texts.map trimEnd)))),
        .finished (summaryOf (texts.map trimEnd))) := by
  have hturns := turns_append o 1 {} texts []
  rw [List.append_nil, Summary.after_eq] at hturns
  simp only [Nat.zero_add] at hturns
  rw [script, h, hturns]
  rfl

theorem run_of_texts (o : Options) {input : Bytes} {texts : List String}
    (h : Bytes.lines input = texts.map Bytes.ofString) :
    (run o none none input).out =
        Bytes.ofString (bannerText o) ++
          (texts.map trimEnd).flatMap (fun line => Bytes.ofString (promptText o ++ reply o line)) ++
          Bytes.ofString (closingText o) ∧
      (run o none none input).err =
        (texts.map trimEnd).flatMap (fun line => Bytes.ofString (complaint line)) ∧
      (run o none none input).ending = .finished (summaryOf (texts.map trimEnd)) := by
  obtain ⟨hopening, hopening'⟩ := written_opening o
  obtain ⟨hlines, hlines'⟩ := written_exchanges o 1 texts
  obtain ⟨hclosing, hclosing'⟩ := written_closing o (summaryOf (texts.map trimEnd))
  rw [run_unlimited, script_of_texts o h]
  simp only [written_append, hopening, hopening', hlines, hlines', hclosing, hclosing',
    List.append_assoc, List.nil_append, List.append_nil, and_self]

theorem run_ofString (o : Options) (text : String) :
    (run o none none (Bytes.ofString text)).out =
        Bytes.ofString (bannerText o) ++
          (linesOf text).flatMap (fun line => Bytes.ofString (promptText o ++ reply o line)) ++
          Bytes.ofString (closingText o) ∧
      (run o none none (Bytes.ofString text)).err =
        (linesOf text).flatMap (fun line => Bytes.ofString (complaint line)) ∧
      (run o none none (Bytes.ofString text)).ending = .finished (summaryOf (linesOf text)) :=
  run_of_texts o (Bytes.lines_ofString text)

/-- Each line of a text is answered by itself, and counted once, whatever the
options. The lines are the segments that line feeds end, and what is left behind
the last line feed. Without a greeting and a prompt nothing else shows, and so a
session over two texts, the first of them of whole lines, is a session over each. -/
theorem run_line_by_line (o : Options) (text : String) :
    let lines := linesOf text
    let session := run o none none (Bytes.ofString text)
    (∃ (segments : List String) (last : String),
        text.toList = segments.flatMap (fun segment => segment.toList ++ ['\n']) ++ last.toList ∧
          (∀ segment ∈ segments, '\n' ∉ segment.toList) ∧ '\n' ∉ last.toList ∧
          lines = (segments ++ if last.isEmpty then [] else [last]).map trimEnd) ∧
      session.out =
        Bytes.ofString (bannerText o) ++
          lines.flatMap (fun line => Bytes.ofString (promptText o ++ reply o line)) ++
          Bytes.ofString (closingText o) ∧
      session.err = lines.flatMap (fun line => Bytes.ofString (complaint line)) ∧
      session.ending = .finished (summaryOf lines) ∧
      (summaryOf lines).total = lines.length ∧
      (o.banner = none → o.prompt = none → (∀ c ∈ text.toList.getLast?, c = '\n') →
        ∀ more : String,
          let later := run o none none (Bytes.ofString more)
          let whole := run o none none (Bytes.ofString (text ++ more))
          whole.out = session.out ++ later.out ∧
            whole.err = session.err ++ later.err ∧
            ∃ s t, session.ending = .finished s ∧ later.ending = .finished t ∧
              whole.ending = .finished (s.plus t)) := by
  intro lines session
  obtain ⟨hout, herr, hending⟩ := run_ofString o text
  refine ⟨exists_segments_linesOf text, hout, herr, hending, total_summaryOf lines, ?_⟩
  intro hbanner hprompt hlast more later whole
  obtain ⟨hout', herr', hending'⟩ := run_ofString o more
  obtain ⟨hwhole, hwhole', hwhole''⟩ := run_ofString o (text ++ more)
  -- No line of the whole text is begun in the one part and ended in the other.
  have hlines : linesOf (text ++ more) = lines ++ linesOf more := by
    rw [linesOf, textLines_append hlast, List.map_append]
    rfl
  have hquiet : bannerText o = "" ∧ closingText o = "" := by
    simp only [bannerText, closingText, hbanner, hprompt, and_self]
  rw [hlines, List.flatMap_append] at hwhole hwhole'
  rw [hlines, summaryOf_append] at hwhole''
  refine ⟨?_, ?_, summaryOf lines, summaryOf (linesOf more), hending, hending', hwhole''⟩
  · simp only [hquiet, Bytes.ofString_empty, List.nil_append, List.append_nil] at hout hout' hwhole
    rw [hwhole, hout, hout']
  · rw [hwhole', herr, herr']

/-- A value, an empty line and an error that a carriage return ends too, and one
more value behind them. -/
theorem run_line_by_line_of_whole_lines :
    let o : Options := { showTree := true, showTokens := true }
    let text := "1+2\n\n3 $\r\n"
    let session := run o none none (Bytes.ofString text)
    let whole := run o none none (Bytes.ofString (text ++ "7/2"))
    linesOf text = ["1+2", "", "3 $"] ∧
      session.out = Bytes.ofString "Integer(1) '+' Integer(2)\n(+ 1 2)\n3\n" ∧
      session.err = Bytes.ofString "Lex error at position 2: Invalid character '$'.\n" ∧
      session.ending = .finished ⟨1, 1, 1⟩ ∧
      (∀ c ∈ text.toList.getLast?, c = '\n') ∧
      whole.out = session.out ++ Bytes.ofString "Integer(7) '/' Integer(2)\n(/ 7 2)\n3.5\n" ∧
      whole.err = session.err ∧
      whole.ending = .finished ⟨2, 1, 1⟩ := by
  intro o text session whole
  have hlast : ∀ c ∈ text.toList.getLast?, c = '\n' := by
    have hend : text.toList.getLast? = some '\n' := by decide +kernel
    intro c hc
    exact (Option.some.inj (hend.symm.trans hc)).symm
  have hlines : linesOf text = ["1+2", "", "3 $"] := by decide +kernel
  obtain ⟨-, hout, herr, hending, -, hmore⟩ := run_line_by_line o text
  obtain ⟨hwhole, hwhole', s, t, hs, ht, hwhole''⟩ := hmore rfl rfl hlast "7/2"
  rw [hlines] at hout herr hending
  have hsession : session.ending = .finished ⟨1, 1, 1⟩ := hending.trans (by decide +kernel)
  have hlater : (run o none none (Bytes.ofString "7/2")).ending = .finished ⟨1, 0, 0⟩ := by
    decide +kernel
  have hs : s = ⟨1, 1, 1⟩ := Ending.finished.inj (hs.symm.trans hsession)
  have ht : t = ⟨1, 0, 0⟩ := Ending.finished.inj (ht.symm.trans hlater)
  rw [hs, ht] at hwhole''
  refine ⟨hlines, hout.trans (by decide +kernel), herr.trans (by decide +kernel), hsession, hlast,
    hwhole.trans ?_, hwhole'.trans ?_, hwhole''⟩
  · exact congrArg (session.out ++ ·) (by decide +kernel)
  · exact (congrArg (session.err ++ ·) (by decide +kernel)).trans (List.append_nil _)

end Session

end LineCalc
